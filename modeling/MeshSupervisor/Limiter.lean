import Mathlib.Data.Rat.Cast.Order
import Mathlib.Algebra.Order.Field.Rat
import MeshSupervisor.Lib.Lts
import MeshSupervisor.Lib.TokenBucket
import MeshSupervisor.RateLimit

/-! # Concurrent calls of the limiter

Any number of `allow` calls at once.  A call reads the clock, later takes the lock for its
update, and, when that left too many buckets, later takes it again for the eviction; the
calls interleave between these steps in any order.  `allow_run`: a call that runs alone is
`allow` of `RateLimit.lean`.

* `buckets_capped`: there are never more buckets than the cap and the evictions that are due.
* `rate_bounded`: as long as the updates of a bucket come in the order of their clock
  readings, a peer is admitted at most `burst` times and `refill` times per second. -/

namespace MeshSupervisor

/-- The limiter: its buckets and the calls in flight. -/
structure RateLimiter (EndpointId F : Type) where
  buckets : Buckets EndpointId F
  /-- The monotonic clock. -/
  clock : Instant
  /-- The calls that have read the clock and not yet updated their bucket. -/
  sampled : List (EndpointId × Instant)
  /-- The calls whose update left too many buckets, with their decision. -/
  overCap : List (EndpointId × Instant × Bool)

inductive AllowAction (EndpointId : Type) where
  /-- `allow` is called for `peer` and reads the clock. -/
  | call (peer : EndpointId) (now : Instant)
  /-- The locked update of the `i`th call that waits for it. -/
  | update (i : ℕ)
  /-- The locked eviction of the `i`th call that waits for it. -/
  | evict (i : ℕ)

inductive AllowEvent (EndpointId : Type) where
  | sampled (peer : EndpointId) (now : Instant)
  | returned (peer : EndpointId) (now : Instant) (allowed : Bool)
deriving DecidableEq

/-- `RateLimiter::new`. -/
def RateLimiter.new {EndpointId F : Type} (clock : Instant) : RateLimiter EndpointId F :=
  ⟨∅, clock, [], []⟩

section Step

variable {EndpointId F : Type} [DecidableEq EndpointId] [Tokens F]

/-- One step of a call. -/
def allowStep (cfg : RateLimiterConfig F) (s : RateLimiter EndpointId F) :
    AllowAction EndpointId → Option (RateLimiter EndpointId F × List (AllowEvent EndpointId))
  | .call peer now =>
      if s.clock ≤ now then
        some ({ s with clock := now, sampled := s.sampled ++ [(peer, now)] }, [.sampled peer now])
      else none
  | .update i =>
      match s.sampled[i]? with
      | none => none
      | some (peer, now) =>
          match cfg.update s.buckets peer now with
          | (buckets, allowed, true) =>
              some ({ s with
                  buckets := buckets
                  sampled := s.sampled.eraseIdx i
                  overCap := s.overCap ++ [(peer, now, allowed)] }, [])
          | (buckets, allowed, false) =>
              some ({ s with buckets := buckets, sampled := s.sampled.eraseIdx i },
                [.returned peer now allowed])
  | .evict i =>
      match s.overCap[i]? with
      | none => none
      | some (peer, now, allowed) =>
          some ({ s with buckets := cfg.evict s.buckets now, overCap := s.overCap.eraseIdx i },
            [.returned peer now allowed])

variable {cfg : RateLimiterConfig F} {s s' : RateLimiter EndpointId F}
  {a : AllowAction EndpointId} {evs : List (AllowEvent EndpointId)}

theorem allowStep_cases (h : allowStep cfg s a = some (s', evs)) :
    (∃ peer now, a = .call peer now ∧ s.clock ≤ now ∧ evs = [.sampled peer now] ∧
      s' = { s with clock := now, sampled := s.sampled ++ [(peer, now)] }) ∨
    (∃ i peer now buckets allowed, a = .update i ∧ s.sampled[i]? = some (peer, now) ∧
      cfg.update s.buckets peer now = (buckets, allowed, true) ∧ evs = [] ∧
      s' = { s with
        buckets := buckets
        sampled := s.sampled.eraseIdx i
        overCap := s.overCap ++ [(peer, now, allowed)] }) ∨
    (∃ i peer now buckets allowed, a = .update i ∧ s.sampled[i]? = some (peer, now) ∧
      cfg.update s.buckets peer now = (buckets, allowed, false) ∧
      evs = [.returned peer now allowed] ∧
      s' = { s with buckets := buckets, sampled := s.sampled.eraseIdx i }) ∨
    (∃ i peer now allowed, a = .evict i ∧ s.overCap[i]? = some (peer, now, allowed) ∧
      evs = [.returned peer now allowed] ∧
      s' = { s with buckets := cfg.evict s.buckets now, overCap := s.overCap.eraseIdx i }) := by
  cases a with
  | call peer now =>
      simp only [allowStep] at h
      split_ifs at h with hclock
      obtain ⟨rfl, rfl⟩ := Prod.mk.inj (Option.some.inj h)
      exact .inl ⟨peer, now, rfl, hclock, rfl, rfl⟩
  | update i =>
      simp only [allowStep] at h
      cases hi : s.sampled[i]? with
      | none =>
          rw [hi] at h
          cases h
      | some x =>
          obtain ⟨peer, now⟩ := x
          rw [hi] at h
          dsimp only at h
          cases hu : cfg.update s.buckets peer now with
          | mk buckets r =>
              obtain ⟨allowed, exceeds⟩ := r
              rw [hu] at h
              cases exceeds with
              | true =>
                  obtain ⟨rfl, rfl⟩ := Prod.mk.inj (Option.some.inj h)
                  exact .inr (.inl ⟨i, peer, now, buckets, allowed, rfl, hi, hu, rfl, rfl⟩)
              | false =>
                  obtain ⟨rfl, rfl⟩ := Prod.mk.inj (Option.some.inj h)
                  exact .inr (.inr (.inl ⟨i, peer, now, buckets, allowed, rfl, hi, hu, rfl, rfl⟩))
  | evict i =>
      simp only [allowStep] at h
      cases hi : s.overCap[i]? with
      | none =>
          rw [hi] at h
          cases h
      | some x =>
          obtain ⟨peer, now, allowed⟩ := x
          rw [hi] at h
          obtain ⟨rfl, rfl⟩ := Prod.mk.inj (Option.some.inj h)
          exact .inr (.inr (.inr ⟨i, peer, now, allowed, rfl, hi, rfl, rfl⟩))

theorem allow_run (cfg : RateLimiterConfig F) (buckets : Buckets EndpointId F) {clock now : Instant}
    (hclock : clock ≤ now) (peer : EndpointId) :
    ∃ l, Lts.Run (allowStep cfg) ⟨buckets, clock, [], []⟩ l
        ⟨(cfg.allow buckets peer now).1, now, [], []⟩ ∧
      Lts.events l = [.sampled peer now, .returned peer now (cfg.allow buckets peer now).2] := by
  have hcall : allowStep cfg ⟨buckets, clock, [], []⟩ (.call peer now) =
      some (⟨buckets, now, [(peer, now)], []⟩, [.sampled peer now]) := by
    simp only [allowStep, if_pos hclock, List.nil_append]
  cases hu : cfg.update buckets peer now with
  | mk buckets' r =>
      obtain ⟨allowed, exceeds⟩ := r
      cases exceeds with
      | false =>
          have hupdate : allowStep cfg ⟨buckets, now, [(peer, now)], []⟩ (.update 0) =
              some (⟨buckets', now, [], []⟩, [.returned peer now allowed]) := by
            simp only [allowStep, List.getElem?_cons_zero, hu, List.eraseIdx_zero, List.tail_cons]
          have hallow : cfg.allow buckets peer now = (buckets', allowed) := by
            simp only [RateLimiterConfig.allow, hu]
            rfl
          rw [hallow]
          exact ⟨_, Lts.Run.cons hcall (Lts.Run.single hupdate), by simp⟩
      | true =>
          have hupdate : allowStep cfg ⟨buckets, now, [(peer, now)], []⟩ (.update 0) =
              some (⟨buckets', now, [], [(peer, now, allowed)]⟩, []) := by
            simp only [allowStep, List.getElem?_cons_zero, hu, List.eraseIdx_zero, List.tail_cons,
              List.nil_append]
          have hevict : allowStep cfg ⟨buckets', now, [], [(peer, now, allowed)]⟩ (.evict 0) =
              some (⟨cfg.evict buckets' now, now, [], []⟩, [.returned peer now allowed]) := by
            simp only [allowStep, List.getElem?_cons_zero, List.eraseIdx_zero, List.tail_cons]
          have hallow : cfg.allow buckets peer now = (cfg.evict buckets' now, allowed) := by
            simp only [RateLimiterConfig.allow, hu, if_true]
          rw [hallow]
          exact ⟨_, Lts.Run.cons hcall (Lts.Run.cons hupdate (Lts.Run.single hevict)), by simp⟩

/-! ### The cap -/

theorem update_length (cfg : RateLimiterConfig F) (buckets : Buckets EndpointId F)
    (peer : EndpointId) (now : Instant) {buckets' : Buckets EndpointId F} {allowed exceeds : Bool}
    (h : cfg.update buckets peer now = (buckets', allowed, exceeds)) :
    buckets'.keys.length ≤ buckets.keys.length + 1 ∧
      (exceeds = false → buckets'.keys.length ≤ cfg.maxBuckets) := by
  simp only [RateLimiterConfig.update, Prod.mk.injEq] at h
  obtain ⟨rfl, -, rfl⟩ := h
  refine ⟨Table.length_keys_insert_le _ _ _, ?_⟩
  intro hover
  exact not_lt.mp (of_decide_eq_false hover)

omit [Tokens F] in
theorem evictLru_length {buckets : Buckets EndpointId F} (h : 0 < buckets.keys.length) :
    (RateLimiterConfig.evictLru buckets).keys.length + 1 = buckets.keys.length := by
  unfold RateLimiterConfig.evictLru
  have hmin := Table.minBy_spec Bucket.lastUsed buckets.entries
  cases hm : Table.minBy Bucket.lastUsed buckets.entries with
  | none =>
      rw [hm] at hmin
      simp [AList.keys, List.keys, hmin] at h
  | some x =>
      rw [hm] at hmin
      exact Table.length_keys_erase (List.mem_map_of_mem hmin.1)

omit [Tokens F] in
theorem evict_length (cfg : RateLimiterConfig F) (buckets : Buckets EndpointId F) (now : Instant)
    {n : ℕ} (h : buckets.keys.length ≤ cfg.maxBuckets + (n + 1)) :
    (cfg.evict buckets now).keys.length ≤ cfg.maxBuckets + n := by
  have hretain := Table.length_keys_retain_le
    (if cfg.maxBuckets < buckets.keys.length then RateLimiterConfig.evictLru buckets else buckets)
    (fun _ b => decide (now - (cfg.evictionTtl : ℤ) ≤ b.lastUsed))
  refine le_trans hretain ?_
  split_ifs with hover
  · have := evictLru_length (by omega : 0 < buckets.keys.length)
    omega
  · omega

/-- **The cap.**  At any time there are at most as many buckets as the cap allows and
evictions are due, so none too many when no call is in flight. -/
theorem buckets_capped (cfg : RateLimiterConfig F) (clock : Instant)
    {l : List (Lts.Tr (RateLimiter EndpointId F) (AllowAction EndpointId) (AllowEvent EndpointId))}
    (hr : Lts.Run (allowStep cfg) (.new clock) l s) :
    s.buckets.keys.length ≤ cfg.maxBuckets + s.overCap.length ∧
      (s.sampled = [] → s.overCap = [] → s.buckets.keys.length ≤ cfg.maxBuckets) := by
  have hinv : s.buckets.keys.length ≤ cfg.maxBuckets + s.overCap.length := by
    refine (hr.invariant (I := fun s => s.buckets.keys.length ≤ cfg.maxBuckets + s.overCap.length)
      (Nat.zero_le _) ?_).1
    intro tr hv hle
    rcases allowStep_cases hv with ⟨peer, now, -, -, -, hpost⟩ |
      ⟨i, peer, now, buckets, allowed, -, -, hu, -, hpost⟩ |
      ⟨i, peer, now, buckets, allowed, -, -, hu, -, hpost⟩ | ⟨i, peer, now, allowed, -, hi, -, hpost⟩
    · rw [hpost]
      exact hle
    · have := (update_length cfg _ _ _ hu).1
      rw [hpost]
      simp only [List.length_append, List.length_singleton]
      omega
    · have := (update_length cfg _ _ _ hu).2 rfl
      rw [hpost]
      dsimp only
      omega
    · have hlt : i < tr.pre.overCap.length := (List.getElem?_eq_some_iff.mp hi).1
      have hlen := List.length_eraseIdx_add_one hlt
      rw [hpost]
      exact evict_length (n := (tr.pre.overCap.eraseIdx i).length) cfg _ _ (by omega)
  refine ⟨hinv, ?_⟩
  intro _ hover
  rw [hover] at hinv
  exact hinv

end Step

/-- Two calls of different peers update before either evicts, and one evicts. -/
theorem buckets_capped_pending : ∃ l s,
    Lts.Run (allowStep (⟨20, 10, 1, .fromSecs 90⟩ : RateLimiterConfig ℚ)) (.new 0 : RateLimiter ℕ ℚ) l s ∧
    s.overCap.length = 1 ∧ s.buckets.keys.length ≤ 1 + 1 := by
  obtain ⟨l, s, hr, hp⟩ := Lts.run_of_exec
    (allowStep (⟨20, 10, 1, .fromSecs 90⟩ : RateLimiterConfig ℚ)) (.new 0 : RateLimiter ℕ ℚ)
    [.call 1 0, .call 2 5, .call 3 9, .update 0, .update 0, .update 0, .evict 0]
    (fun p => decide (p.2.overCap.length = 1)) (by decide +kernel)
  have hover := of_decide_eq_true hp
  have hcap := (buckets_capped _ 0 hr).1
  rw [hover] at hcap
  exact ⟨l, s, hr, hover, hcap⟩

/-! ### The rate -/

section Rate

variable {EndpointId : Type} [DecidableEq EndpointId]

def AllowAction.caller : AllowAction EndpointId → Option EndpointId
  | .call peer _ => some peer
  | _ => none

def callers {F : Type} (l : List (Lts.Tr (RateLimiter EndpointId F) (AllowAction EndpointId)
    (AllowEvent EndpointId))) : List EndpointId :=
  (l.map Lts.Tr.act).filterMap AllowAction.caller

def samplesOf (peer : EndpointId) (evs : List (AllowEvent EndpointId)) : List Instant :=
  evs.filterMap fun
    | .sampled p now => if p = peer then some now else none
    | .returned _ _ _ => none

def admittedOf (peer : EndpointId) (evs : List (AllowEvent EndpointId)) : ℕ :=
  evs.countP fun
    | .returned p _ allowed => decide (p = peer) && allowed
    | .sampled _ _ => false

def span (readings : List Instant) : Duration :=
  match readings.max?, readings.min? with
  | some latest, some earliest => latest.durationSince earliest
  | _, _ => 0

/-- The update goes to a bucket that was not used after the call's clock reading. -/
def InOrder {F : Type} (tr : Lts.Tr (RateLimiter EndpointId F) (AllowAction EndpointId)
    (AllowEvent EndpointId)) : Prop :=
  ∀ i peer now b, tr.act = .update i → tr.pre.sampled[i]? = some (peer, now) →
    tr.pre.buckets.lookup peer = some b → b.lastUsed ≤ now

/-- `InOrder` for every transition of a run, as a test. -/
def inOrder {F : Type} (l : List (Lts.Tr (RateLimiter EndpointId F) (AllowAction EndpointId)
    (AllowEvent EndpointId))) : Bool :=
  l.all fun tr =>
    match tr.act with
    | .update i =>
        match tr.pre.sampled[i]? with
        | some (peer, now) => (tr.pre.buckets.lookup peer).all (fun b => decide (b.lastUsed ≤ now))
        | none => true
    | _ => true

theorem inOrder_spec {F : Type} {l : List (Lts.Tr (RateLimiter EndpointId F) (AllowAction EndpointId)
    (AllowEvent EndpointId))} (h : inOrder l = true) : ∀ tr ∈ l, InOrder tr := by
  intro tr htr i peer now b hact hi hlook
  have := List.all_eq_true.mp h tr htr
  rw [hact] at this
  dsimp only at this
  rw [hi] at this
  dsimp only at this
  rw [hlook] at this
  exact of_decide_eq_true this

/-- A reading of the clock in seconds. -/
def seconds (t : Instant) : ℚ := (t : ℚ) / 1000000000

theorem asSecs_durationSince {now earlier : Instant} (h : earlier ≤ now) :
    Tokens.asSecs (now.durationSince earlier) = seconds now - seconds earlier := by
  have hcast : ((Int.toNat (now - earlier) : ℕ) : ℚ) = (now : ℚ) - earlier := by
    rw [← Int.cast_natCast, Int.toNat_of_nonneg (sub_nonneg.mpr h), Int.cast_sub]
  show ((Int.toNat (now - earlier) : ℕ) : ℚ) / 1000000000 = _
  rw [hcast, seconds, seconds, sub_div]

/-- A peer's bucket is a token bucket. -/
theorem consume_eq (cfg : RateLimiterConfig ℚ) (now : Instant) (bucket : Option (Bucket ℚ)) :
    cfg.consume now bucket =
      let b := bucket.getD ⟨cfg.burst, now⟩
      let r := TokenBucket.request cfg.burst cfg.refill b.tokens
        (Tokens.asSecs (now.durationSince b.lastUsed))
      (⟨r.1, now⟩, r.2) := by
  have htake : ∀ tokens : ℚ,
      (if 1 ≤ tokens then ((⟨tokens - 1, now⟩ : Bucket ℚ), true) else (⟨tokens, now⟩, false)) =
        (⟨(TokenBucket.take tokens).1, now⟩, (TokenBucket.take tokens).2) := by
    intro tokens
    unfold TokenBucket.take
    split_ifs <;> rfl
  exact htake _

theorem le_span {readings : List Instant} {a b : Instant} (ha : a ∈ readings) (hb : b ∈ readings)
    (hle : a ≤ b) : seconds b - seconds a ≤ Tokens.asSecs (span readings) := by
  unfold span
  cases hmax : readings.max? with
  | none =>
      rw [List.max?_eq_none_iff.mp hmax] at ha
      cases ha
  | some latest =>
      cases hmin : readings.min? with
      | none =>
          rw [List.min?_eq_none_iff.mp hmin] at ha
          cases ha
      | some earliest =>
          have hlatest := (List.max?_eq_some_iff.mp hmax).2 b hb
          have hearliest := (List.min?_eq_some_iff.mp hmin).2 a ha
          dsimp only
          rw [asSecs_durationSince (hearliest.trans (hle.trans hlatest))]
          have h₁ : (b : ℚ) ≤ latest := Int.cast_le.mpr hlatest
          have h₂ : (earliest : ℚ) ≤ a := Int.cast_le.mpr hearliest
          unfold seconds
          linarith

/-- What a run without evictions keeps: every bucket covers what its peer was admitted. -/
structure Metered (cfg : RateLimiterConfig ℚ) (peers : List EndpointId)
    (evs : List (AllowEvent EndpointId)) (s : RateLimiter EndpointId ℚ) : Prop where
  pending : s.overCap = []
  known : ∀ p, (s.buckets.lookup p).isSome = true → p ∈ peers
  calling : ∀ p now, (p, now) ∈ s.sampled → p ∈ peers ∧ now ∈ samplesOf p evs
  fresh : ∀ p, s.buckets.lookup p = none → admittedOf p evs = 0
  bucket : ∀ p b, s.buckets.lookup p = some b → 0 ≤ b.tokens ∧ b.lastUsed ∈ samplesOf p evs ∧
    ∃ start ∈ samplesOf p evs, start ≤ b.lastUsed ∧
      (admittedOf p evs : ℚ) + b.tokens ≤ cfg.burst + (seconds b.lastUsed - seconds start) * cfg.refill

omit [DecidableEq EndpointId] in
theorem samplesOf_append [DecidableEq EndpointId] (p : EndpointId) (evs evs' : List (AllowEvent EndpointId)) :
    samplesOf p (evs ++ evs') = samplesOf p evs ++ samplesOf p evs' := List.filterMap_append

theorem admittedOf_append (p : EndpointId) (evs evs' : List (AllowEvent EndpointId)) :
    admittedOf p (evs ++ evs') = admittedOf p evs + admittedOf p evs' := List.countP_append

section

variable {cfg : RateLimiterConfig ℚ} {peers : List EndpointId} {evs evs' : List (AllowEvent EndpointId)}
  {s s' : RateLimiter EndpointId ℚ} {a : AllowAction EndpointId}

theorem Metered.call (h : Metered cfg peers evs s) {peer : EndpointId} (hp : peer ∈ peers)
    (now : Instant) : Metered cfg peers (evs ++ [.sampled peer now])
      { s with clock := now, sampled := s.sampled ++ [(peer, now)] } := by
  have hadm : ∀ p, admittedOf p (evs ++ [.sampled peer now]) = admittedOf p evs := fun p => by
    rw [admittedOf_append]
    rfl
  have hmono : ∀ p t, t ∈ samplesOf p evs → t ∈ samplesOf p (evs ++ [.sampled peer now]) := by
    intro p t ht
    rw [samplesOf_append]
    exact List.mem_append_left _ ht
  refine ⟨h.pending, h.known, ?_, fun p hn => (hadm p).trans (h.fresh p hn), ?_⟩
  · intro p t hmem
    rcases List.mem_append.mp hmem with hmem | hmem
    · exact ⟨(h.calling p t hmem).1, hmono p t (h.calling p t hmem).2⟩
    · obtain ⟨rfl, rfl⟩ := Prod.mk.inj (List.mem_singleton.mp hmem)
      refine ⟨hp, ?_⟩
      rw [samplesOf_append]
      exact List.mem_append_right _ (by simp [samplesOf])
  · intro p b hb
    obtain ⟨h0, hlast, start, hstart, hle, hsum⟩ := h.bucket p b hb
    exact ⟨h0, hmono p _ hlast, start, hmono p _ hstart, hle, by rw [hadm]; exact hsum⟩

theorem Metered.update (h : Metered cfg peers evs s) (hb : 0 ≤ cfg.burst) (hrf : 0 ≤ cfg.refill)
    {i : ℕ} {peer : EndpointId} {now : Instant} (hi : s.sampled[i]? = some (peer, now))
    (hord : ∀ b, s.buckets.lookup peer = some b → b.lastUsed ≤ now) :
    Metered cfg peers (evs ++ [.returned peer now (cfg.consume now (s.buckets.lookup peer)).2])
      { s with
        buckets := AList.insert peer (cfg.consume now (s.buckets.lookup peer)).1 s.buckets
        sampled := s.sampled.eraseIdx i } := by
  obtain ⟨hpeer, hnow⟩ := h.calling peer now (List.mem_of_getElem? hi)
  have hsam : ∀ p, samplesOf p
      (evs ++ [.returned peer now (cfg.consume now (s.buckets.lookup peer)).2]) = samplesOf p evs := by
    intro p
    rw [samplesOf_append]
    exact List.append_nil _
  refine ⟨h.pending, ?_, ?_, ?_, ?_⟩
  · intro p hp
    rw [Table.lookup_insert_if] at hp
    by_cases he : p = peer
    · rw [he]
      exact hpeer
    · rw [if_neg he] at hp
      exact h.known p hp
  · intro p t hmem
    rw [hsam]
    exact h.calling p t (List.mem_of_mem_eraseIdx hmem)
  · intro p hn
    rw [Table.lookup_insert_if] at hn
    split_ifs at hn with he
    rw [admittedOf_append, h.fresh p hn]
    simp [admittedOf, Ne.symm he]
  · intro p b hlook
    rw [hsam, admittedOf_append]
    rw [Table.lookup_insert_if] at hlook
    by_cases he : p = peer
    · subst he
      rw [if_pos rfl] at hlook
      obtain rfl := Option.some.inj hlook
      -- the bucket as the update finds it
      obtain ⟨b₀, hb₀, h0, start, hstart, hle, hlast, hsum⟩ :
          ∃ b₀, (s.buckets.lookup p).getD ⟨cfg.burst, now⟩ = b₀ ∧ 0 ≤ b₀.tokens ∧
            ∃ start ∈ samplesOf p evs, start ≤ b₀.lastUsed ∧ b₀.lastUsed ≤ now ∧
              (admittedOf p evs : ℚ) + b₀.tokens ≤
                cfg.burst + (seconds b₀.lastUsed - seconds start) * cfg.refill := by
        cases hl : s.buckets.lookup p with
        | none =>
            refine ⟨_, rfl, hb, now, hnow, le_rfl, le_rfl, ?_⟩
            rw [h.fresh p hl]
            simp
        | some b₀ =>
            obtain ⟨h0, -, start, hstart, hle, hsum⟩ := h.bucket p b₀ hl
            exact ⟨b₀, rfl, h0, start, hstart, hle, hord b₀ hl, hsum⟩
      have hcons := TokenBucket.request_conserves (t := seconds now) hsum
      have hdt : (0 : ℚ) ≤ seconds now - seconds b₀.lastUsed := by
        have : (b₀.lastUsed : ℚ) ≤ now := Int.cast_le.mpr hlast
        unfold seconds
        linarith
      simp only [consume_eq, hb₀, asSecs_durationSince hlast]
      refine ⟨TokenBucket.take_nonneg (TokenBucket.fill_nonneg hb hrf h0 hdt), hnow, start, hstart,
        hle.trans hlast, ?_⟩
      cases hr : (TokenBucket.request cfg.burst cfg.refill b₀.tokens
          (seconds now - seconds b₀.lastUsed)).2 <;>
        simpa [hr, admittedOf] using hcons
    · rw [if_neg he] at hlook
      have hnot : admittedOf p [.returned peer now (cfg.consume now (s.buckets.lookup peer)).2] = 0 := by
        simp [admittedOf, Ne.symm he]
      rw [hnot]
      exact h.bucket p b hlook

theorem Metered.step (h : Metered cfg peers evs s) (hb : 0 ≤ cfg.burst) (hrf : 0 ≤ cfg.refill)
    (hfew : peers.dedup.length ≤ cfg.maxBuckets) (hs : allowStep cfg s a = some (s', evs'))
    (hcaller : ∀ p ∈ a.caller, p ∈ peers) (hord : InOrder ⟨s, a, evs', s'⟩) :
    Metered cfg peers (evs ++ evs') s' := by
  rcases allowStep_cases hs with ⟨peer, now, rfl, -, rfl, rfl⟩ |
    ⟨i, peer, now, buckets, allowed, rfl, hi, hu, -, -⟩ |
    ⟨i, peer, now, buckets, allowed, rfl, hi, hu, rfl, rfl⟩ | ⟨i, peer, now, allowed, -, hi, -⟩
  · exact h.call (hcaller peer rfl) now
  · -- the peers fit into the cap
    have hpeer := (h.calling peer now (List.mem_of_getElem? hi)).1
    simp only [RateLimiterConfig.update, Prod.mk.injEq, decide_eq_true_eq] at hu
    obtain ⟨rfl, -, hover⟩ := hu
    have hlen : (AList.insert peer (cfg.consume now (s.buckets.lookup peer)).1 s.buckets).keys.length ≤
        peers.dedup.length := by
      apply Table.length_keys_le
      intro k hk
      rw [Table.lookup_insert_if] at hk
      by_cases hkp : k = peer
      · rw [hkp]
        exact hpeer
      · rw [if_neg hkp] at hk
        exact h.known k hk
    omega
  · simp only [RateLimiterConfig.update, Prod.mk.injEq] at hu
    obtain ⟨rfl, rfl, -⟩ := hu
    exact h.update hb hrf hi (fun b hl => hord i peer now b rfl hi hl)
  · rw [h.pending] at hi
    cases hi

/-- **The rate.**  Let no more peers call than there may be buckets, and let every update come
in the order of the clock readings.  Then a peer is admitted at most `burst` times and
`refill` times for each second between its earliest and its latest reading. -/
theorem rate_bounded (hb : 0 ≤ cfg.burst) (hrf : 0 ≤ cfg.refill) {clock : Instant}
    {l : List (Lts.Tr (RateLimiter EndpointId ℚ) (AllowAction EndpointId) (AllowEvent EndpointId))}
    (hr : Lts.Run (allowStep cfg) (.new clock) l s)
    (hfew : (callers l).dedup.length ≤ cfg.maxBuckets) (hord : ∀ tr ∈ l, InOrder tr)
    (peer : EndpointId) :
    (admittedOf peer (Lts.events l) : ℚ) ≤
      cfg.burst + Tokens.asSecs (span (samplesOf peer (Lts.events l))) * cfg.refill := by
  have hmetered : ∀ {l' : List (Lts.Tr (RateLimiter EndpointId ℚ) (AllowAction EndpointId)
      (AllowEvent EndpointId))} {s'}, Lts.Run (allowStep cfg) (.new clock) l' s' →
      (∀ tr ∈ l', ∀ p ∈ tr.act.caller, p ∈ callers l) → (∀ tr ∈ l', InOrder tr) →
      Metered cfg (callers l) (Lts.events l') s' := by
    intro l' s' hr' hcallers hord'
    induction hr' with
    | nil =>
        refine ⟨rfl, by simp [RateLimiter.new], by simp [RateLimiter.new], fun _ _ => rfl, ?_⟩
        intro p b hlook
        cases hlook
    | @snoc l' s₁ s₂ a evs hr' hs ih =>
        have hM := ih (fun tr htr => hcallers tr (List.mem_append_left _ htr))
          (fun tr htr => hord' tr (List.mem_append_left _ htr))
        have hstep := hM.step hb hrf hfew hs (hcallers ⟨s₁, a, evs, s₂⟩ (by simp))
          (hord' ⟨s₁, a, evs, s₂⟩ (by simp))
        simpa using hstep
  have hM := hmetered hr (fun tr htr p hp =>
    List.mem_filterMap.mpr ⟨tr.act, List.mem_map_of_mem htr, hp⟩) hord
  cases hl : s.buckets.lookup peer with
  | none =>
      have hspan : (0 : ℚ) ≤ Tokens.asSecs (span (samplesOf peer (Lts.events l))) :=
        div_nonneg (Nat.cast_nonneg _) (by norm_num)
      have := mul_nonneg hspan hrf
      rw [hM.fresh peer hl, Nat.cast_zero]
      linarith
  | some b =>
      obtain ⟨h0, hlast, start, hstart, hle, hsum⟩ := hM.bucket peer b hl
      have hmul := mul_le_mul_of_nonneg_right (le_span hstart hlast hle) hrf
      linarith

end

end Rate

/-- A peer that calls three times within two seconds, with its updates in order, is admitted each
time. -/
theorem rate_bounded_in_order : ∃ l s,
    Lts.Run (allowStep (⟨1, 1, 10, .fromSecs 90⟩ : RateLimiterConfig ℚ)) (.new 0 : RateLimiter ℕ ℚ) l s ∧
    samplesOf 7 (Lts.events l) = [0, 1000000000, 2000000000] ∧ admittedOf 7 (Lts.events l) = 3 ∧
    (callers l).dedup.length ≤ 10 ∧ (∀ tr ∈ l, InOrder tr) ∧
    (admittedOf 7 (Lts.events l) : ℚ) ≤
      1 + Tokens.asSecs (span (samplesOf 7 (Lts.events l))) * 1 := by
  obtain ⟨l, s, hr, hp⟩ := Lts.run_of_exec
    (allowStep (⟨1, 1, 10, .fromSecs 90⟩ : RateLimiterConfig ℚ)) (.new 0 : RateLimiter ℕ ℚ)
    [.call 7 0, .call 7 1000000000, .update 0, .update 0, .call 7 2000000000, .update 0]
    (fun p => decide (samplesOf 7 (Lts.events p.1) = [0, 1000000000, 2000000000] ∧
      admittedOf 7 (Lts.events p.1) = 3 ∧ (callers p.1).dedup.length ≤ 10) && inOrder p.1)
    (by decide +kernel)
  rw [Bool.and_eq_true, decide_eq_true_eq] at hp
  obtain ⟨⟨hsamples, hadmitted, hfew⟩, hord⟩ := hp
  have hinorder := inOrder_spec hord
  exact ⟨l, s, hr, hsamples, hadmitted, hfew, hinorder,
    rate_bounded (by norm_num) (by norm_num) hr hfew hinorder 7⟩

/-- Two calls read the clock at the start and two a second later.  Between the updates of the
later two comes that of an earlier one, which turns the bucket's clock back: the second is
credited twice, and three calls are admitted. -/
theorem rate_exceeded : ∃ l s,
    Lts.Run (allowStep (⟨1, 1, 10, .fromSecs 90⟩ : RateLimiterConfig ℚ)) (.new 0 : RateLimiter ℕ ℚ) l s ∧
    (callers l).dedup.length ≤ 10 ∧
    ¬ (admittedOf 7 (Lts.events l) : ℚ) ≤
      1 + Tokens.asSecs (span (samplesOf 7 (Lts.events l))) * 1 := by
  obtain ⟨l, s, hr, hp⟩ := Lts.run_of_exec
    (allowStep (⟨1, 1, 10, .fromSecs 90⟩ : RateLimiterConfig ℚ)) (.new 0 : RateLimiter ℕ ℚ)
    [.call 7 0, .call 7 0, .call 7 1000000000, .call 7 1000000000,
      .update 0, .update 1, .update 0, .update 0]
    (fun p => decide ((callers p.1).dedup.length ≤ 10) &&
      decide (admittedOf 7 (Lts.events p.1) = 3 ∧ span (samplesOf 7 (Lts.events p.1)) = 1000000000))
    (by decide +kernel)
  rw [Bool.and_eq_true, decide_eq_true_eq, decide_eq_true_eq] at hp
  obtain ⟨hfew, hadmitted, hspan⟩ := hp
  refine ⟨l, s, hr, hfew, ?_⟩
  rw [hadmitted, hspan]
  show ¬ ((3 : ℕ) : ℚ) ≤ 1 + ((1000000000 : ℕ) : ℚ) / 1000000000 * 1
  norm_num

end MeshSupervisor
