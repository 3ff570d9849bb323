import MeshSupervisor.Limiter

/-! # The limiter as one bucket per peer

Calls one after the other, at increasing times.  The limiter forgets buckets: the least
recently used one when there are too many, and with it those that were not used for a while.

`refines_ideal`: a peer does not notice, as long as fewer other peers than there may be
buckets call between two of its own calls, and a bucket that is old enough to be forgotten
would be full.  Its decisions are those of a bucket of its own that is never forgotten.

The argument follows the peer's own bucket (`Mirrors`).  Every bucket used since the peer's
last call belongs to a peer that called since, so its own is not the least recently used of
too many; and when it is forgotten for its age, the bucket it is compared with is full. -/

namespace MeshSupervisor

section

variable {EndpointId F : Type} [DecidableEq EndpointId]

def replies [Tokens F] (cfg : RateLimiterConfig F) :
    Buckets EndpointId F → List (EndpointId × Instant) → List (EndpointId × Bool)
  | _, [] => []
  | buckets, (peer, now) :: calls =>
      (peer, (cfg.allow buckets peer now).2) :: replies cfg (cfg.allow buckets peer now).1 calls

/-- The part of a list that belongs to `peer`. -/
def ofPeer {V : Type} (peer : EndpointId) (l : List (EndpointId × V)) : List V :=
  l.filterMap fun x => if x.1 = peer then some x.2 else none

/-- Between any two consecutive calls of `peer`, fewer than `n` other peers call. -/
def FewBetween (n : ℕ) (peer : EndpointId) (calls : List (EndpointId × Instant)) : Prop :=
  ∀ l₁ now between now' l₂, calls = l₁ ++ (peer, now) :: (between ++ (peer, now') :: l₂) →
    (∀ x ∈ between, x.1 ≠ peer) → (between.map Prod.fst).dedup.length < n

theorem ofPeer_cons_self {V : Type} (peer : EndpointId) (v : V) (l : List (EndpointId × V)) :
    ofPeer peer ((peer, v) :: l) = v :: ofPeer peer l := by simp [ofPeer]

theorem ofPeer_cons_other {V : Type} {peer q : EndpointId} (h : q ≠ peer) (v : V)
    (l : List (EndpointId × V)) : ofPeer peer ((q, v) :: l) = ofPeer peer l := by simp [ofPeer, h]

theorem ofPeer_eq_nil {V : Type} {peer : EndpointId} {l : List (EndpointId × V)}
    (h : peer ∉ l.map Prod.fst) : ofPeer peer l = [] := by
  refine List.filterMap_eq_nil_iff.mpr ?_
  intro x hx
  rw [if_neg]
  rintro rfl
  exact h (List.mem_map_of_mem hx)

theorem replies_peers [Tokens F] (cfg : RateLimiterConfig F) (buckets : Buckets EndpointId F)
    (calls : List (EndpointId × Instant)) :
    (replies cfg buckets calls).map Prod.fst = calls.map Prod.fst := by
  induction calls generalizing buckets with
  | nil => rfl
  | cons x calls ih => simp only [replies, List.map_cons, ih]

/-! ### What a call does to the other buckets -/

/-- The eviction keeps a bucket or removes it. -/
theorem evict_lookup (cfg : RateLimiterConfig F) {buckets : Buckets EndpointId F} {now : Instant}
    {k : EndpointId} {b : Bucket F} (h : (cfg.evict buckets now).lookup k = some b) :
    buckets.lookup k = some b := by
  simp only [RateLimiterConfig.evict, RateLimiterConfig.evictStale, Table.lookup_retain] at h
  obtain ⟨h, -⟩ := Option.filter_eq_some_iff.mp h
  split_ifs at h with hover
  · unfold RateLimiterConfig.evictLru at h
    cases hm : Table.minBy Bucket.lastUsed buckets.entries with
    | none =>
        rw [hm] at h
        exact h
    | some x =>
        rw [hm] at h
        dsimp only at h
        rw [Table.lookup_erase_if] at h
        split_ifs at h
        exact h
  · exact h

/-- A bucket is not the least recently used of too many when those used since belong to few
peers; so it survives, or it is stale. -/
theorem evict_own (cfg : RateLimiterConfig F) {buckets : Buckets EndpointId F} {now : Instant}
    {peer : EndpointId} {b : Bucket F} {others : List EndpointId}
    (hb : buckets.lookup peer = some b)
    (hrecent : ∀ q b', buckets.lookup q = some b' → q ≠ peer → b.lastUsed ≤ b'.lastUsed → q ∈ others)
    (hfew : others.dedup.length < cfg.maxBuckets) :
    (cfg.evict buckets now).lookup peer = some b ∨
      (cfg.evict buckets now).lookup peer = none ∧ b.lastUsed < now - (cfg.evictionTtl : ℤ) := by
  have hlru : (if cfg.maxBuckets < buckets.keys.length then RateLimiterConfig.evictLru buckets
      else buckets).lookup peer = some b := by
    split_ifs with hover
    · unfold RateLimiterConfig.evictLru
      have hmin := Table.minBy_spec Bucket.lastUsed buckets.entries
      cases hm : Table.minBy Bucket.lastUsed buckets.entries with
      | none => exact hb
      | some x =>
          rw [hm] at hmin
          obtain ⟨hx, hle⟩ := hmin
          dsimp only
          rw [Table.lookup_erase_if, if_neg]
          · exact hb
          · -- otherwise all buckets are those of the peer and of the few others
            rintro rfl
            have hbx : buckets.lookup x.1 = some x.2 := AList.mem_lookup_iff.mpr hx
            obtain rfl := Option.some.inj (hb.symm.trans hbx)
            have hkeys := Table.length_keys_le (t := buckets) (l := x.1 :: others) (by
              intro k hk
              obtain ⟨b', hb'⟩ := Option.isSome_iff_exists.mp hk
              by_cases hkx : k = x.1
              · rw [hkx]
                exact List.mem_cons_self
              · exact List.mem_cons_of_mem _
                  (hrecent k b' hb' hkx (hle ⟨k, b'⟩ (AList.mem_lookup_iff.mp hb'))))
            have hcons : (x.1 :: others).dedup.length ≤ others.dedup.length + 1 := by
              by_cases hmem : x.1 ∈ others
              · rw [List.dedup_cons_of_mem hmem]
                omega
              · rw [List.dedup_cons_of_notMem hmem, List.length_cons]
            omega
    · exact hb
  simp only [RateLimiterConfig.evict, RateLimiterConfig.evictStale, Table.lookup_retain, hlru,
    Option.filter_some]
  split_ifs with hstale
  · exact .inl rfl
  · exact .inr ⟨rfl, not_le.mp (fun hle => hstale (decide_eq_true hle))⟩

variable [Tokens F]

theorem allow_eq (cfg : RateLimiterConfig F) (buckets : Buckets EndpointId F) (q : EndpointId)
    (now : Instant) :
    cfg.allow buckets q now =
      (if cfg.maxBuckets <
          (AList.insert q (cfg.consume now (buckets.lookup q)).1 buckets).keys.length then
        cfg.evict (AList.insert q (cfg.consume now (buckets.lookup q)).1 buckets) now
      else AList.insert q (cfg.consume now (buckets.lookup q)).1 buckets,
        (cfg.consume now (buckets.lookup q)).2) := by
  unfold RateLimiterConfig.allow RateLimiterConfig.update
  by_cases hover : cfg.maxBuckets <
      (AList.insert q (cfg.consume now (buckets.lookup q)).1 buckets).keys.length
  · simp only [hover, decide_true, if_true]
  · simp only [hover, decide_false, if_false, Bool.false_eq_true]

theorem allow_lookup {cfg : RateLimiterConfig F} {buckets : Buckets EndpointId F} {q : EndpointId}
    {now : Instant} {k : EndpointId} {b : Bucket F}
    (h : (cfg.allow buckets q now).1.lookup k = some b) :
    (k = q ∧ b = (cfg.consume now (buckets.lookup q)).1) ∨ k ≠ q ∧ buckets.lookup k = some b := by
  have hinsert : (AList.insert q (cfg.consume now (buckets.lookup q)).1 buckets).lookup k = some b := by
    rw [allow_eq] at h
    split_ifs at h
    · exact evict_lookup cfg h
    · exact h
  rw [Table.lookup_insert_if] at hinsert
  split_ifs at hinsert with hkq
  · exact .inl ⟨hkq, (Option.some.inj hinsert).symm⟩
  · exact .inr ⟨hkq, hinsert⟩

theorem allow_own (cfg : RateLimiterConfig F) {buckets : Buckets EndpointId F} {now : Instant}
    {q peer : EndpointId} {b : Bucket F} {others : List EndpointId}
    (hb : (AList.insert q (cfg.consume now (buckets.lookup q)).1 buckets).lookup peer = some b)
    (hrecent : ∀ k b', (AList.insert q (cfg.consume now (buckets.lookup q)).1 buckets).lookup k = some b' →
      k ≠ peer → b.lastUsed ≤ b'.lastUsed → k ∈ others)
    (hfew : others.dedup.length < cfg.maxBuckets) :
    (cfg.allow buckets q now).1.lookup peer = some b ∨
      (cfg.allow buckets q now).1.lookup peer = none ∧ b.lastUsed < now - (cfg.evictionTtl : ℤ) := by
  rw [allow_eq]
  dsimp only
  split_ifs
  · exact evict_own cfg hb hrecent hfew
  · exact .inl hb

end

theorem consume_lastUsed {F : Type} [Tokens F] (cfg : RateLimiterConfig F) (now : Instant)
    (bucket : Option (Bucket F)) : (cfg.consume now bucket).1.lastUsed = now := by
  simp only [RateLimiterConfig.consume]
  split_ifs <;> rfl

/-! ### A peer's bucket and the ideal one -/

section

variable {EndpointId : Type} [DecidableEq EndpointId] {cfg : RateLimiterConfig ℚ}
  {peer : EndpointId} {buckets : Buckets EndpointId ℚ} {level : ℚ} {last now : Instant}
  {others : List EndpointId}

/-- At time `now` the limiter has the ideal bucket of `peer`, which stood at `level` at its
last call, or has forgotten it and the ideal bucket is full; `others` have called since. -/
structure Mirrors (cfg : RateLimiterConfig ℚ) (peer : EndpointId) (buckets : Buckets EndpointId ℚ)
    (level : ℚ) (last now : Instant) (others : List EndpointId) : Prop where
  le : last ≤ now
  used : ∀ q b, buckets.lookup q = some b → b.lastUsed ≤ now
  own : ∀ b, buckets.lookup peer = some b → b = ⟨level, last⟩
  gone : buckets.lookup peer = none →
    cfg.burst ≤ level + (seconds now - seconds last) * cfg.refill
  recent : ∀ q b, buckets.lookup q = some b → q ≠ peer → last ≤ b.lastUsed → q ∈ others

theorem seconds_le {a b : Instant} (h : a ≤ b) : seconds a ≤ seconds b :=
  div_le_div_of_nonneg_right (Int.cast_le.mpr h) (by norm_num)

/-- A bucket stale by the eviction's measure is full by the ideal one's. -/
theorem full_of_stale (hlevel : 0 ≤ level) (hrefill : 0 ≤ cfg.refill)
    (httl : cfg.burst ≤ Tokens.asSecs cfg.evictionTtl * cfg.refill)
    (h : last < now - (cfg.evictionTtl : ℤ)) :
    cfg.burst ≤ level + (seconds now - seconds last) * cfg.refill := by
  have hcast : (last : ℚ) ≤ now - cfg.evictionTtl := by exact_mod_cast h.le
  have httl : (Tokens.asSecs cfg.evictionTtl : ℚ) ≤ seconds now - seconds last := by
    show (cfg.evictionTtl : ℚ) / 1000000000 ≤ _
    unfold seconds
    linarith
  have := mul_le_mul_of_nonneg_right httl hrefill
  linarith

theorem Mirrors.used_next (h : Mirrors cfg peer buckets level last now others) (q : EndpointId)
    {t : Instant} (ht : now < t) : ∀ k b, (cfg.allow buckets q t).1.lookup k = some b →
      b.lastUsed ≤ t := by
  intro k b hk
  rcases allow_lookup hk with ⟨-, rfl⟩ | ⟨-, hk⟩
  · rw [consume_lastUsed]
  · exact (h.used k b hk).trans ht.le

theorem Mirrors.other (h : Mirrors cfg peer buckets level last now others) (hlevel : 0 ≤ level)
    (hrefill : 0 ≤ cfg.refill) (httl : cfg.burst ≤ Tokens.asSecs cfg.evictionTtl * cfg.refill)
    {q : EndpointId} (hq : q ≠ peer) {t : Instant} (ht : now < t)
    (hfew : (buckets.lookup peer).isSome = true → (q :: others).dedup.length < cfg.maxBuckets) :
    Mirrors cfg peer (cfg.allow buckets q t).1 level last t (q :: others) := by
  refine ⟨h.le.trans ht.le, h.used_next q ht, ?_, ?_, ?_⟩
  · intro b hb
    rcases allow_lookup hb with ⟨rfl, -⟩ | ⟨-, hb⟩
    · exact absurd rfl hq
    · exact h.own b hb
  · intro hgone
    cases hp : buckets.lookup peer with
    | none =>
        have hle := seconds_le ht.le
        exact TokenBucket.full_mono hrefill (h.gone hp) (by linarith)
    | some b =>
        obtain rfl := h.own b hp
        have hinsert : (AList.insert q (cfg.consume t (buckets.lookup q)).1 buckets).lookup peer =
            some ⟨level, last⟩ := by
          rw [Table.lookup_insert_if, if_neg (Ne.symm hq)]
          exact hp
        have hrecent : ∀ k b', (AList.insert q (cfg.consume t (buckets.lookup q)).1 buckets).lookup k =
            some b' → k ≠ peer → last ≤ b'.lastUsed → k ∈ q :: others := by
          intro k b' hk hne hle
          rw [Table.lookup_insert_if] at hk
          split_ifs at hk with hkq
          · rw [hkq]
            exact List.mem_cons_self
          · exact List.mem_cons_of_mem _ (h.recent k b' hk hne hle)
        rcases allow_own cfg hinsert hrecent (hfew (by rw [hp]; rfl)) with hkept | ⟨-, hstale⟩
        · rw [hgone] at hkept
          cases hkept
        · exact full_of_stale hlevel hrefill httl hstale
  · intro k b hk hne hle
    rcases allow_lookup hk with ⟨rfl, -⟩ | ⟨-, hk⟩
    · exact List.mem_cons_self
    · exact List.mem_cons_of_mem _ (h.recent k b hk hne hle)

theorem Mirrors.call (h : Mirrors cfg peer buckets level last now others)
    (hmax : 1 ≤ cfg.maxBuckets) (hrefill : 0 ≤ cfg.refill) {t : Instant} (ht : now < t) :
    (cfg.consume t (buckets.lookup peer)) =
        (⟨(TokenBucket.request cfg.burst cfg.refill level (seconds t - seconds last)).1, t⟩,
          (TokenBucket.request cfg.burst cfg.refill level (seconds t - seconds last)).2) ∧
      Mirrors cfg peer (cfg.allow buckets peer t).1
        (TokenBucket.request cfg.burst cfg.refill level (seconds t - seconds last)).1 t t [] := by
  have hconsume : cfg.consume t (buckets.lookup peer) =
      (⟨(TokenBucket.request cfg.burst cfg.refill level (seconds t - seconds last)).1, t⟩,
        (TokenBucket.request cfg.burst cfg.refill level (seconds t - seconds last)).2) := by
    rw [consume_eq]
    cases hp : buckets.lookup peer with
    | some b =>
        obtain rfl := h.own b hp
        simp only [Option.getD_some, asSecs_durationSince (h.le.trans ht.le)]
    | none =>
        -- both buckets are full
        have hfull : TokenBucket.fill cfg.burst cfg.refill level (seconds t - seconds last) =
            TokenBucket.fill cfg.burst cfg.refill cfg.burst (seconds t - seconds t) := by
          have hle := seconds_le ht.le
          rw [TokenBucket.fill_eq_burst
            (TokenBucket.full_mono hrefill (h.gone hp) (by linarith)), sub_self,
            TokenBucket.fill_zero le_rfl]
        simp only [Option.getD_none, asSecs_durationSince le_rfl, TokenBucket.request, hfull]
  refine ⟨hconsume, le_rfl, h.used_next peer ht, ?_, ?_, ?_⟩
  · intro b hb
    rcases allow_lookup hb with ⟨-, rfl⟩ | ⟨hne, -⟩
    · rw [hconsume]
    · exact absurd rfl hne
  · intro hgone
    -- the caller's bucket is the most recently used one
    have hinsert : (AList.insert peer (cfg.consume t (buckets.lookup peer)).1 buckets).lookup peer =
        some (cfg.consume t (buckets.lookup peer)).1 := by
      rw [Table.lookup_insert_if, if_pos rfl]
    have hrecent : ∀ k b', (AList.insert peer (cfg.consume t (buckets.lookup peer)).1 buckets).lookup k =
        some b' → k ≠ peer → (cfg.consume t (buckets.lookup peer)).1.lastUsed ≤ b'.lastUsed →
        k ∈ ([] : List EndpointId) := by
      intro k b' hk hne hle
      rw [consume_lastUsed] at hle
      rw [Table.lookup_insert_if, if_neg hne] at hk
      have := h.used k b' hk
      lia
    rcases allow_own cfg hinsert hrecent hmax with hkept | ⟨-, hstale⟩
    · rw [hgone] at hkept
      cases hkept
    · rw [consume_lastUsed] at hstale
      lia
  · intro k b hk hne hle
    rcases allow_lookup hk with ⟨rfl, -⟩ | ⟨-, hk⟩
    · exact absurd rfl hne
    · have := h.used k b hk
      lia

/-! ### A whole sequence of calls -/

theorem dedup_length_le {l l' : List EndpointId} (h : l ⊆ l') : l.dedup.length ≤ l'.dedup.length := by
  have hsub : l.dedup ⊆ l'.dedup := by
    intro x hx
    exact List.mem_dedup.mpr (h (List.mem_dedup.mp hx))
  exact (List.subperm_of_subset (List.nodup_dedup l) hsub).length_le

omit [DecidableEq EndpointId] in
theorem first_call [DecidableEq EndpointId] {calls : List (EndpointId × Instant)}
    (h : peer ∈ calls.map Prod.fst) :
    ∃ between t l₂, calls = between ++ (peer, t) :: l₂ ∧ ∀ x ∈ between, x.1 ≠ peer := by
  induction calls with
  | nil => cases h
  | cons x calls ih =>
      by_cases hx : x.1 = peer
      · obtain ⟨q, t⟩ := x
        obtain rfl := hx
        exact ⟨[], t, calls, rfl, by simp⟩
      · rw [List.map_cons, List.mem_cons] at h
        obtain ⟨between, t, l₂, rfl, hne⟩ := ih (h.resolve_left (Ne.symm hx))
        refine ⟨x :: between, t, l₂, rfl, ?_⟩
        intro y hy
        rcases List.mem_cons.mp hy with rfl | hy
        · exact hx
        · exact hne y hy

omit [DecidableEq EndpointId] in
theorem FewBetween.tail {n : ℕ} {x : EndpointId × Instant} {calls : List (EndpointId × Instant)}
    [DecidableEq EndpointId] (h : FewBetween n peer (x :: calls)) : FewBetween n peer calls := by
  rintro l₁ t between t' l₂ rfl hne
  exact h (x :: l₁) t between t' l₂ rfl hne

/-- From a limiter that mirrors the ideal bucket, the decisions are its decisions. -/
theorem Mirrors.decisions (hmax : 1 ≤ cfg.maxBuckets) (hburst : 0 ≤ cfg.burst)
    (hrefill : 0 ≤ cfg.refill) (httl : cfg.burst ≤ Tokens.asSecs cfg.evictionTtl * cfg.refill)
    {calls : List (EndpointId × Instant)} (hinc : (calls.map Prod.snd).Pairwise (· < ·))
    (hbetween : FewBetween cfg.maxBuckets peer calls)
    (h : Mirrors cfg peer buckets level last now others) (hlevel : 0 ≤ level)
    (hnow : ∀ t ∈ calls.map Prod.snd, now < t)
    (hfew : (buckets.lookup peer).isSome = true → ∀ between t l₂,
      calls = between ++ (peer, t) :: l₂ → (∀ x ∈ between, x.1 ≠ peer) →
      (others ++ between.map Prod.fst).dedup.length < cfg.maxBuckets) :
    ofPeer peer (replies cfg buckets calls) =
      TokenBucket.decisions cfg.burst cfg.refill level (seconds last)
        ((ofPeer peer calls).map seconds) := by
  induction calls generalizing buckets level last now others with
  | nil => rfl
  | cons x calls ih =>
      obtain ⟨q, t⟩ := x
      obtain ⟨hlater, hinc⟩ := List.pairwise_cons.mp hinc
      have ht : now < t := hnow t List.mem_cons_self
      by_cases hq : q = peer
      · subst hq
        obtain ⟨hconsume, hnext⟩ := h.call hmax hrefill ht
        have hdt : 0 ≤ seconds t - seconds last := sub_nonneg.mpr (seconds_le (h.le.trans ht.le))
        have hrest := ih hinc hbetween.tail hnext
          (TokenBucket.take_nonneg (TokenBucket.fill_nonneg hburst hrefill hlevel hdt)) hlater
          (fun _ between t' l₂ hcalls hne => hbetween [] t between t' l₂ (by rw [hcalls]; rfl) hne)
        rw [replies, ofPeer_cons_self, ofPeer_cons_self, List.map_cons, TokenBucket.decisions,
          hrest, allow_eq, hconsume]
      · rw [replies, ofPeer_cons_other hq, ofPeer_cons_other hq]
        by_cases hagain : peer ∈ calls.map Prod.fst
        · obtain ⟨between, t', l₂, hcalls, hne⟩ := first_call hagain
          have hne' : ∀ x ∈ (q, t) :: between, x.1 ≠ peer := by
            intro x hx
            rcases List.mem_cons.mp hx with rfl | hx
            · exact hq
            · exact hne x hx
          have hothers : (buckets.lookup peer).isSome = true →
              (q :: others).dedup.length < cfg.maxBuckets := by
            intro hsome
            refine lt_of_le_of_lt (dedup_length_le ?_)
              (hfew hsome ((q, t) :: between) t' l₂ (by rw [hcalls]; rfl) hne')
            simp
          refine ih hinc hbetween.tail (h.other hlevel hrefill httl hq ht hothers) hlevel hlater ?_
          intro hsome between' t'' l₂' hcalls' hne''
          -- a bucket that is there now was there before
          have hsome' : (buckets.lookup peer).isSome = true := by
            obtain ⟨b, hb⟩ := Option.isSome_iff_exists.mp hsome
            rcases allow_lookup hb with ⟨rfl, -⟩ | ⟨-, hb⟩
            · exact absurd rfl hq
            · rw [hb]
              rfl
          refine lt_of_le_of_lt (dedup_length_le ?_)
            (hfew hsome' ((q, t) :: between') t'' l₂' (by rw [hcalls']; rfl) ?_)
          · intro k hk
            simp only [List.cons_append, List.mem_cons, List.mem_append, List.map_cons] at hk ⊢
            tauto
          · intro x hx
            rcases List.mem_cons.mp hx with rfl | hx
            · exact hq
            · exact hne'' x hx
        · rw [ofPeer_eq_nil hagain, ofPeer_eq_nil (by rw [replies_peers]; exact hagain)]
          rfl

/-- **Refinement.**  The decisions that a peer gets are those of a bucket of its own that is
never forgotten. -/
theorem refines_ideal (hmax : 1 ≤ cfg.maxBuckets) (hburst : 0 ≤ cfg.burst)
    (hrefill : 0 ≤ cfg.refill) (httl : cfg.burst ≤ Tokens.asSecs cfg.evictionTtl * cfg.refill)
    {calls : List (EndpointId × Instant)} (hinc : (calls.map Prod.snd).Pairwise (· < ·))
    (hbetween : FewBetween cfg.maxBuckets peer calls) :
    ofPeer peer (replies cfg ∅ calls) =
      TokenBucket.ideal cfg.burst cfg.refill ((ofPeer peer calls).map seconds) := by
  obtain ⟨start, hstart⟩ : ∃ start : Instant, ∀ t ∈ calls.map Prod.snd, start < t := by
    cases calls with
    | nil => exact ⟨0, by simp⟩
    | cons x calls =>
        refine ⟨x.2 - 1, ?_⟩
        intro t ht
        rcases List.mem_cons.mp ht with rfl | ht
        · exact sub_one_lt _
        · have := (List.pairwise_cons.mp hinc).1 t ht
          lia
  have hM : Mirrors cfg peer (∅ : Buckets EndpointId ℚ) cfg.burst start start [] := by
    refine ⟨le_rfl, ?_, ?_, ?_, ?_⟩
    · intro q b hb
      cases hb
    · intro b hb
      cases hb
    · intro _
      rw [sub_self, zero_mul, add_zero]
    · intro q b hb
      cases hb
  rw [hM.decisions hmax hburst hrefill httl hinc hbetween hburst hstart (fun hsome => by cases hsome)]
  refine (TokenBucket.ideal_eq hrefill ?_).symm
  intro s hs
  obtain ⟨t, ht, rfl⟩ := List.mem_map.mp (List.mem_of_mem_head? hs)
  obtain ⟨x, hx, hxt⟩ := List.mem_filterMap.mp ht
  split_ifs at hxt
  obtain rfl := Option.some.inj hxt
  exact seconds_le (hstart x.2 (List.mem_map_of_mem hx)).le

end

theorem fewBetween_of_stretches {EndpointId : Type} [DecidableEq EndpointId] {n : ℕ}
    {peer : EndpointId} {calls : List (EndpointId × Instant)}
    (h : ∀ i < calls.length, ∀ k < calls.length,
      (∀ x ∈ (calls.drop (i + 1)).take k, x.1 ≠ peer) ∧ (calls[i]?.map Prod.fst) = some peer ∧
        (calls[i + 1 + k]?.map Prod.fst) = some peer →
      (((calls.drop (i + 1)).take k).map Prod.fst).dedup.length < n) : FewBetween n peer calls := by
  rintro l₁ t between t' l₂ rfl hne
  have hdrop : (l₁ ++ (peer, t) :: (between ++ (peer, t') :: l₂)).drop (l₁.length + 1) =
      between ++ (peer, t') :: l₂ := by
    rw [List.drop_append, List.drop_eq_nil_of_le (by omega)]
    simp
  have htake : ((l₁ ++ (peer, t) :: (between ++ (peer, t') :: l₂)).drop (l₁.length + 1)).take
      between.length = between := by
    rw [hdrop, List.take_left']
    rfl
  have hnext : (l₁ ++ (peer, t) :: (between ++ (peer, t') :: l₂))[l₁.length + 1 + between.length]? =
      some (peer, t') := by
    rw [← List.getElem?_drop, hdrop]
    simp
  have := h l₁.length (by simp) between.length (by simp; omega)
    ⟨by rw [htake]; exact hne, by simp, by rw [hnext]; rfl⟩
  rw [htake] at this
  exact this

def turnTaking : List (ℕ × Instant) :=
  [(1, 0), (2, 1000000000), (1, 1500000000), (3, 1600000000), (1, 1700000000)]

/-- With two buckets for three peers, the second peer's is evicted. -/
theorem refines_ideal_evicted :
    ofPeer 1 (replies (⟨2, 1, 2, .fromSecs 90⟩ : RateLimiterConfig ℚ) ∅ turnTaking) =
      TokenBucket.ideal 2 1 ((ofPeer 1 turnTaking).map seconds) := by
  apply refines_ideal (by decide) (by norm_num) (by norm_num) ?_ (by decide)
    (fewBetween_of_stretches (by decide))
  show (2 : ℚ) ≤ ((90 * 1000000000 : ℕ) : ℚ) / 1000000000 * 1
  norm_num

end MeshSupervisor
