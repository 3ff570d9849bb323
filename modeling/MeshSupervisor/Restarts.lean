import MeshSupervisor.Telemetry

/-! # A publisher that restarts

The watcher's marks live as long as the watcher; the publisher's counter lives as long as
one run of `publishLoop` and starts again at one under the same key.  `accepts_all_iff` says
for which histories of runs a watcher that misses nothing accepts everything: those in which
every tick published is preceded by more reports of its own run than any tick published in
an earlier run.  When every broadcast succeeds that leaves the histories with at most one
run that publishes (`outnumbered_iff_silent`). -/

namespace MeshSupervisor

open Wire (Bytes Codec)
open Signature (Scheme)

/-! ### The numbers of a run -/

def Round.published (r : Round) : Bool := !r.stats.isEmpty && r.broadcast

/-- How many rounds of a run, up to and with round `i`, had something to report. -/
def reportsUpTo (run : List Round) (i : ℕ) : ℕ := (run.take (i + 1)).countP (fun r => !r.stats.isEmpty)

/-- Every tick published in the later run `b` comes after more reports of its run than any
tick published in `a` did in its own. -/
def Outnumbered (a b : List Round) : Prop :=
  ∀ i r, a[i]? = some r → r.published = true → ∀ j r', b[j]? = some r' → r'.published = true →
    reportsUpTo a i < reportsUpTo b j

theorem reportsUpTo_zero (r : Round) (run : List Round) :
    reportsUpTo (r :: run) 0 = if r.stats.isEmpty then 0 else 1 := by
  cases h : r.stats.isEmpty <;> simp [reportsUpTo, h]

theorem reportsUpTo_succ (r : Round) (run : List Round) (i : ℕ) :
    reportsUpTo (r :: run) (i + 1) = reportsUpTo run i + if r.stats.isEmpty then 0 else 1 := by
  unfold reportsUpTo
  rw [List.take_succ_cons, List.countP_cons]
  cases r.stats.isEmpty <;> rfl

section Protocol

variable {EndpointId Sig : Type} [Scheme SecretKey EndpointId Sig]

/-- The ticks of a run that reach the topic. -/
def publishedTicks (secret : SecretKey) (run : List Round) : List (Tick EndpointId) :=
  ((signedTicks secret 0 run).filter Prod.snd).map Prod.fst

theorem mem_publishedTicks {secret : SecretKey} {run : List Round} {t : Tick EndpointId} :
    t ∈ publishedTicks secret run ↔ (t, true) ∈ signedTicks secret 0 run := by
  unfold publishedTicks
  simp only [List.mem_map, List.mem_filter]
  constructor
  · rintro ⟨⟨t', b⟩, ⟨hmem, hb⟩, rfl⟩
    obtain rfl : b = true := hb
    exact hmem
  · intro h
    exact ⟨(t, true), ⟨h, rfl⟩, rfl⟩

theorem published_seq (secret : SecretKey) (seq n : ℕ) (run : List Round) :
    (∃ x ∈ (signedTicks secret seq run : List (Tick EndpointId × Bool)), x.2 = true ∧ x.1.seq = n) ↔
      ∃ i r, run[i]? = some r ∧ r.published = true ∧ n = seq + reportsUpTo run i := by
  induction run generalizing seq with
  | nil => simp [signedTicks]
  | cons r run ih =>
      have hcons : (∃ i r', (r :: run)[i]? = some r' ∧ r'.published = true ∧
            n = seq + reportsUpTo (r :: run) i) ↔
          (r.published = true ∧ n = seq + if r.stats.isEmpty then 0 else 1) ∨
          ∃ i r', run[i]? = some r' ∧ r'.published = true ∧
            n = seq + (if r.stats.isEmpty then 0 else 1) + reportsUpTo run i := by
        constructor
        · rintro ⟨i, r', hr', hp, hn⟩
          cases i with
          | zero =>
              obtain rfl := Option.some.inj hr'
              rw [reportsUpTo_zero] at hn
              exact .inl ⟨hp, hn⟩
          | succ i =>
              rw [reportsUpTo_succ] at hn
              exact .inr ⟨i, r', hr', hp, by omega⟩
        · rintro (⟨hp, hn⟩ | ⟨i, r', hr', hp, hn⟩)
          · exact ⟨0, r, rfl, hp, by rw [reportsUpTo_zero]; exact hn⟩
          · refine ⟨i + 1, r', hr', hp, ?_⟩
            rw [reportsUpTo_succ]
            omega
      rw [hcons]
      unfold signedTicks
      cases hr : r.stats.isEmpty with
      | true =>
          have hpub : r.published = false := by simp only [Round.published, hr]; rfl
          simp only [hpub, if_true, add_zero, Bool.false_eq_true, false_and, false_or]
          exact ih seq
      | false =>
          have hpub : r.published = r.broadcast := by simp only [Round.published, hr]; rfl
          simp only [hpub, Bool.false_eq_true, if_false, List.mem_cons, exists_eq_or_imp,
            ih (seq + 1)]
          constructor
          · rintro (⟨hb, hn⟩ | h)
            · exact .inl ⟨hb, hn.symm⟩
            · exact .inr h
          · rintro (⟨hb, hn⟩ | h)
            · exact .inl ⟨hb, hn.symm⟩
            · exact .inr h

theorem publishedTicks_increasing (secret : SecretKey) (run : List Round) :
    Gate.Increasing Tick.seq (publishedTicks secret run : List (Tick EndpointId)) :=
  List.pairwise_map.mpr ((signedTicks_increasing secret 0 run).filter _)

/-- All numbers published in `a` are below all published in `b`, said of the rounds. -/
theorem outnumbered_iff (secret : SecretKey) (a b : List Round) :
    (∀ t ∈ (publishedTicks secret a : List (Tick EndpointId)), ∀ t' ∈ publishedTicks secret b,
      t.seq < t'.seq) ↔ Outnumbered a b := by
  have hseq : ∀ (run : List Round) (n : ℕ),
      (∃ t ∈ (publishedTicks secret run : List (Tick EndpointId)), t.seq = n) ↔
        ∃ i r, run[i]? = some r ∧ r.published = true ∧ n = reportsUpTo run i := by
    intro run n
    have h : (∃ x ∈ (signedTicks secret 0 run : List (Tick EndpointId × Bool)),
        x.2 = true ∧ x.1.seq = n) ↔ _ := published_seq secret 0 n run
    simp only [Nat.zero_add] at h
    rw [← h]
    constructor
    · rintro ⟨t, ht, hn⟩
      exact ⟨(t, true), mem_publishedTicks.mp ht, rfl, hn⟩
    · rintro ⟨⟨t, b⟩, hx, rfl, hn⟩
      exact ⟨t, mem_publishedTicks.mpr hx, hn⟩
  constructor
  · intro h i r hr hp j r' hr' hp'
    obtain ⟨t, ht, hn⟩ := (hseq a _).mpr ⟨i, r, hr, hp, rfl⟩
    obtain ⟨t', ht', hn'⟩ := (hseq b _).mpr ⟨j, r', hr', hp', rfl⟩
    rw [← hn, ← hn']
    exact h t ht t' ht'
  · intro h t ht t' ht'
    obtain ⟨i, r, hr, hp, hn⟩ := (hseq a t.seq).mp ⟨t, ht, rfl⟩
    obtain ⟨j, r', hr', hp', hn'⟩ := (hseq b t'.seq).mp ⟨t', ht', rfl⟩
    rw [hn, hn']
    exact h i r hr hp j r' hr' hp'

/-! ### The messages of a run -/

variable [Codec (Tick EndpointId)] [Codec (SignedTick Sig)]

/-- The messages of a run that reach the topic. -/
def published (secret : SecretKey) (run : List Round) : List Bytes :=
  ((publishLoop secret 0 run).filter Prod.snd).map Prod.fst

theorem published_eq (secret : SecretKey) (run : List Round) :
    published secret run = (publishedTicks secret run).map (message secret) := by
  unfold published publishedTicks
  rw [publishLoop_eq, List.filter_map, List.map_map, List.map_map]
  rfl

theorem published_open (secret : SecretKey) (run : List Round) :
    (published secret run).filterMap openTick = publishedTicks secret run := by
  rw [published_eq, List.filterMap_map]
  conv_rhs => rw [← List.filterMap_some (l := publishedTicks secret run)]
  apply List.filterMap_congr
  intro t ht
  have hid : t.fromId = Scheme.pub secret :=
    (mem_signedTicks secret 0 run _ (mem_publishedTicks.mp ht)).1
  obtain ⟨fromId, ts, seq, stats⟩ := t
  obtain rfl : fromId = Scheme.pub secret := hid
  exact openTick_signTick secret seq stats ts

variable [DecidableEq EndpointId]

/-- The bytes of an item that opens as a tick of `p`. -/
def Arrival.contentFrom (p : EndpointId) (a : Arrival EndpointId) : Option Bytes :=
  match a.event with
  | .ok (.received content) => if (openTick content).any (·.fromId = p) then some content else none
  | _ => none

/-- The messages of `p` among the items a watcher handles, in order. -/
def receivedFrom (p : EndpointId) (es : List (Arrival EndpointId)) : List Bytes :=
  (live es).filterMap (Arrival.contentFrom p)

/-- Every tick of `p` that arrives is within the window when it is handled. -/
def Timely (maxTickAge : Duration) (p : EndpointId) (es : List (Arrival EndpointId)) : Prop :=
  ∀ a ∈ live es, ∀ t ∈ a.tick?, t.fromId = p → fresh t.ts a.now maxTickAge = true

/-- What a publisher offers a watcher that gets its messages in time: the ticks of those
messages. -/
theorem Timely.offers {maxTickAge : Duration} {p : EndpointId} {es : List (Arrival EndpointId)}
    (h : Timely maxTickAge p es) :
    (((live es).filterMap (Arrival.offer maxTickAge)).filter (·.1.fromId = p)).map Prod.fst =
      (receivedFrom p es).filterMap openTick := by
  unfold receivedFrom
  rw [List.filterMap_filterMap, List.filter_filterMap, List.map_filterMap]
  apply List.filterMap_congr
  intro a ha
  obtain ⟨now, event⟩ := a
  cases event with
  | error e => rfl
  | ok event =>
      cases event with
      | received content =>
          have hfresh := h _ ha
          unfold Arrival.tick? at hfresh
          unfold Arrival.offer Arrival.tick? Arrival.contentFrom
          dsimp only at hfresh ⊢
          cases ho : openTick content with
          | none => simp
          | some t =>
              by_cases hp : t.fromId = p
              · have hf : fresh t.ts now maxTickAge = true := hfresh t ho hp
                simp [hp, hf, ho]
              · cases hf : fresh t.ts now maxTickAge <;> simp [hp, hf]
      | neighborUp id => rfl
      | neighborDown id => rfl
      | lagged => rfl

/-! ### The two counters together -/

omit [Scheme SecretKey EndpointId Sig] [Codec (Tick EndpointId)] [Codec (SignedTick Sig)]
  [DecidableEq EndpointId] in
/-- A gate that starts fresh lets exactly the increasing sequences of ticks pass whole. -/
theorem climb_ticks (l : List (Tick EndpointId × ℕ)) :
    (Gate.climb (·.1.seq) none l).map Prod.fst = l.map Prod.fst ↔
      Gate.Increasing Tick.seq (l.map Prod.fst) := by
  have hmap : Gate.Increasing Tick.seq (l.map Prod.fst) ↔ Gate.Increasing (·.1.seq) l :=
    List.pairwise_map
  rw [hmap, ← Gate.climb_eq_self]
  constructor
  · intro h
    have hlen := congrArg List.length h
    rw [List.length_map, List.length_map] at hlen
    exact (Gate.climb_sublist _ none l).eq_of_length hlen
  · intro h
    rw [h]

/-- **Restarts under one key.**  Let a watcher get every published tick of a publisher once,
in order and in time, over any number of runs of the publisher.  It accepts them all exactly
when the reports of each later run outnumber those of the runs before it at every tick
published. -/
theorem accepts_all_iff (maxTickAge : Duration) (secret : SecretKey) (runs : List (List Round))
    (es : List (Arrival EndpointId))
    (hrecv : receivedFrom (Scheme.pub secret) es = runs.flatMap (published secret))
    (htimely : Timely maxTickAge (Scheme.pub secret) es) :
    (acceptedFrom maxTickAge (Scheme.pub secret) es).map Prod.fst =
        runs.flatMap (publishedTicks secret) ↔
      runs.Pairwise Outnumbered := by
  have hoffers := htimely.offers
  rw [hrecv, List.filterMap_flatMap] at hoffers
  simp only [published_open] at hoffers
  rw [acceptedFrom_eq, ← hoffers, climb_ticks, hoffers]
  unfold Gate.Increasing
  rw [List.pairwise_flatMap]
  constructor
  · rintro ⟨-, h⟩
    exact h.imp (fun hab => (outnumbered_iff secret _ _).mp hab)
  · intro h
    exact ⟨fun run _ => publishedTicks_increasing secret run,
      h.imp (fun hab => (outnumbered_iff secret _ _).mpr hab)⟩

end Protocol

def oneProcess : ProcInfo := ⟨1, 42, .running, none, 0⟩

open Symbols in
/-- A run whose one tick is published, then a run whose first broadcast fails. -/
theorem accepts_all_iff_lost :
    (acceptedFrom (.fromSecs 30) (key 1)
        [⟨1100, .ok (.received (signTick (key 1) 1 [oneProcess] 1000))⟩,
          ⟨9100, .ok (.received (signTick (key 1) 2 [oneProcess] 9000))⟩]).map Prod.fst =
      [[⟨[oneProcess], 1000, true⟩],
        [⟨[oneProcess], 8000, false⟩, ⟨[oneProcess], 9000, true⟩]].flatMap
          (publishedTicks (key 1)) := by
  refine (accepts_all_iff (.fromSecs 30) (key 1)
    [[⟨[oneProcess], 1000, true⟩],
      [⟨[oneProcess], 8000, false⟩, ⟨[oneProcess], 9000, true⟩]] _ (by decide +kernel) ?_).mpr ?_
  · unfold Timely
    decide +kernel
  · exact List.pairwise_pair.mpr ((outnumbered_iff (key 1) _ _).mp (by decide +kernel))

open Symbols in
/-- Two runs, each publishing one tick: the second run's tick bears the number of the
first's, and is dropped. -/
theorem restart_silenced : ∃ es : List (Arrival SecretKey),
    receivedFrom (key 1) es =
      [[⟨[oneProcess], 1000, true⟩], [⟨[oneProcess], 9000, true⟩]].flatMap (published (key 1)) ∧
    Timely (.fromSecs 30) (key 1) es ∧
    ¬ (acceptedFrom (.fromSecs 30) (key 1) es).map Prod.fst =
      [[⟨[oneProcess], 1000, true⟩], [⟨[oneProcess], 9000, true⟩]].flatMap
        (publishedTicks (key 1)) :=
  ⟨[⟨1100, .ok (.received (signTick (key 1) 1 [oneProcess] 1000))⟩,
      ⟨9100, .ok (.received (signTick (key 1) 1 [oneProcess] 9000))⟩],
    by decide +kernel, by unfold Timely; decide +kernel, by decide +kernel⟩

/-! ### When no broadcast fails -/

theorem first_report {run : List Round} (hb : ∀ r ∈ run, r.broadcast = true) {r : Round}
    (hr : r ∈ run) (hp : r.published = true) :
    ∃ j r', run[j]? = some r' ∧ r'.published = true ∧ reportsUpTo run j = 1 := by
  induction run with
  | nil => cases hr
  | cons r₀ run ih =>
      cases h₀ : r₀.stats.isEmpty with
      | false =>
          refine ⟨0, r₀, rfl, ?_, ?_⟩
          · simp only [Round.published, h₀, hb r₀ List.mem_cons_self]
            rfl
          · rw [reportsUpTo_zero, h₀]
            rfl
      | true =>
          have hne : r ≠ r₀ := by
            rintro rfl
            simp [Round.published, h₀] at hp
          have hmem : r ∈ run := (List.mem_cons.mp hr).resolve_left hne
          obtain ⟨j, r', hj, hp', hn⟩ := ih (fun x hx => hb x (List.mem_cons_of_mem _ hx)) hmem
          refine ⟨j + 1, r', hj, hp', ?_⟩
          rw [reportsUpTo_succ, h₀, hn]
          rfl

theorem reportsUpTo_pos {run : List Round} {i : ℕ} {r : Round} (hr : run[i]? = some r)
    (hp : r.published = true) : 0 < reportsUpTo run i := by
  obtain ⟨hi, hget⟩ := List.getElem?_eq_some_iff.mp hr
  unfold reportsUpTo
  rw [List.countP_pos_iff]
  refine ⟨r, ?_, (Bool.and_eq_true_iff.mp hp).1⟩
  rw [← hget]
  exact List.mem_take_iff_getElem.mpr ⟨i, by omega, rfl⟩

/-- When no broadcast fails, only a publisher that has published in at most one of its runs
is heard in full. -/
theorem outnumbered_iff_silent {a b : List Round} (hb : ∀ r ∈ b, r.broadcast = true) :
    Outnumbered a b ↔ (∀ r ∈ a, r.published = false) ∨ ∀ r ∈ b, r.published = false := by
  constructor
  · intro h
    by_contra hcon
    push Not at hcon
    obtain ⟨⟨r, hr, hp⟩, r', hr', hp'⟩ := hcon
    obtain ⟨i, hi, hget⟩ := List.getElem_of_mem hr
    have hri : a[i]? = some r := by rw [List.getElem?_eq_getElem hi, hget]
    have hpub : r.published = true := by simpa using hp
    obtain ⟨j, r'', hj, hp'', hn⟩ := first_report hb hr' (by simpa using hp')
    have hlt := h i r hri hpub j r'' hj hp''
    have hpos := reportsUpTo_pos hri hpub
    omega
  · rintro (h | h) i r hr hp j r' hr' hp'
    · rw [h r (List.mem_of_getElem? hr)] at hp
      cases hp
    · rw [h r' (List.mem_of_getElem? hr')] at hp'
      cases hp'

end MeshSupervisor
