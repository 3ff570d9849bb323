import Mathlib.Tactic.FieldSimp
import MeshSupervisor.Authenticity

/-! # CPU time from the rates of a watcher

A tick carries cumulative counters, and the watcher divides the growth since the last sample of
the same process by the time since then.  A rate times its interval is therefore a growth of the
counter, and the growths of successive samples add up, whichever ticks were lost in between
(`cpu_time_kept`): to the difference between the first and the last counter accepted. -/

namespace MeshSupervisor

open Wire (Bytes Codec)
open Signature (Scheme)

/-- What a tick reports of a process. -/
def Tick.usageOf {EndpointId : Type} (t : Tick EndpointId) (h : Handle) : Option Usage :=
  (t.stats.find? (·.handle = h)).bind ProcInfo.usage

def rateOf (lines : List Line) (h : Handle) : Option ℚ :=
  (lines.find? (·.handle = h)).bind Line.cpu

/-- An accepted tick with usage of a process: its time, the counter and the rate printed. -/
structure Sample where
  ts : ℕ
  cpuUsec : ℕ
  rate : Option ℚ
deriving DecidableEq

/-- The rate in percent from a sample to the next. -/
def rateSince (prev : Option (ℕ × ℕ)) (cpuUsec ts : ℕ) : Option ℚ :=
  prev.bind fun (pc, pt) =>
    if pt < ts then some (((cpuUsec - pc : ℕ) : ℚ) / (((ts - pt : ℕ) : ℚ) * 10)) else none

/-! ### One tick -/

section Tick

variable {EndpointId : Type} [DecidableEq EndpointId] (tick : Tick EndpointId)

theorem showStat_prev (prev : Prev EndpointId) (s : ProcInfo) (key : EndpointId × Handle) :
    (showStat tick prev s).1.lookup key =
      if key = (tick.fromId, s.handle) then
        (s.usage.map fun u => (u.cpuUsec, tick.ts)).or (prev.lookup key)
      else prev.lookup key := by
  unfold showStat
  cases hu : s.usage with
  | none =>
    dsimp only
    split_ifs <;> rfl
  | some u =>
    dsimp only
    rw [Table.lookup_insert_if]
    rfl

theorem showStat_line (prev : Prev EndpointId) (s : ProcInfo) :
    (showStat tick prev s).2.handle = s.handle ∧
      (showStat tick prev s).2.cpu = s.usage.bind fun u =>
        rateSince (prev.lookup (tick.fromId, s.handle)) u.cpuUsec tick.ts := by
  unfold showStat
  cases hu : s.usage with
  | none => exact ⟨rfl, rfl⟩
  | some u => exact ⟨rfl, rfl⟩

theorem showStats_absent {stats : List ProcInfo} {key : EndpointId × Handle}
    (h : ∀ s ∈ stats, key ≠ (tick.fromId, s.handle)) (prev : Prev EndpointId) :
    (showStats tick prev stats).1.lookup key = prev.lookup key := by
  induction stats generalizing prev with
  | nil => rfl
  | cons s stats ih =>
    have hs := h s List.mem_cons_self
    have hrest := ih (fun s' hs' => h s' (List.mem_cons_of_mem s hs')) (showStat tick prev s).1
    rw [showStat_prev, if_neg hs] at hrest
    exact hrest

theorem showStats_once {stats : List ProcInfo} (hnd : (stats.map ProcInfo.handle).Nodup)
    (prev : Prev EndpointId) (h : Handle) :
    rateOf (showStats tick prev stats).2 h =
        ((stats.find? (·.handle = h)).bind ProcInfo.usage).bind (fun u =>
          rateSince (prev.lookup (tick.fromId, h)) u.cpuUsec tick.ts) ∧
      (showStats tick prev stats).1.lookup (tick.fromId, h) =
        (((stats.find? (·.handle = h)).bind ProcInfo.usage).map fun u => (u.cpuUsec, tick.ts)).or
          (prev.lookup (tick.fromId, h)) := by
  induction stats generalizing prev with
  | nil => exact ⟨rfl, rfl⟩
  | cons s stats ih =>
    obtain ⟨hnot, hnd'⟩ := List.nodup_cons.mp hnd
    obtain ⟨hhandle, hcpu⟩ := showStat_line tick prev s
    have hrest := ih hnd' (showStat tick prev s).1
    have hfirst := showStat_prev tick prev s (tick.fromId, h)
    have hcons : showStats tick prev (s :: stats) =
        ((showStats tick (showStat tick prev s).1 stats).1,
          (showStat tick prev s).2 :: (showStats tick (showStat tick prev s).1 stats).2) := rfl
    rw [hcons]
    by_cases hs : s.handle = h
    · have habsent : ∀ s' ∈ stats, ((tick.fromId, h) : EndpointId × Handle) ≠
          (tick.fromId, s'.handle) := by
        intro s' hs' heq
        apply hnot
        rw [hs, (Prod.mk.inj heq).2]
        exact List.mem_map_of_mem hs'
      have hlast := showStats_absent tick habsent (showStat tick prev s).1
      rw [hlast, hfirst, if_pos (by rw [hs])]
      unfold rateOf
      rw [List.find?_cons_of_pos (by simp [hhandle, hs]), List.find?_cons_of_pos (by simp [hs])]
      subst hs
      exact ⟨hcpu, rfl⟩
    · rw [if_neg (by simp [Ne.symm hs])] at hfirst
      rw [hfirst] at hrest
      unfold rateOf at hrest ⊢
      rw [List.find?_cons_of_neg (by simp [hhandle, hs]), List.find?_cons_of_neg (by simp [hs])]
      exact hrest

theorem showStats_other {p : EndpointId} (hp : tick.fromId ≠ p) (prev : Prev EndpointId)
    (h : Handle) : (showStats tick prev tick.stats).1.lookup (p, h) = prev.lookup (p, h) := by
  apply showStats_absent
  intro s _ heq
  exact hp (Prod.mk.inj heq).1.symm

end Tick

/-! ### The samples of a run -/

section Samples

variable {EndpointId : Type} [DecidableEq EndpointId] (p : EndpointId) (h : Handle)

/-- The sample of `h` in an accepted tick of `p`. -/
def Accepted.sample (a : Accepted EndpointId) : Option Sample :=
  if a.tick.fromId = p then
    (a.tick.usageOf h).map fun u => ⟨a.tick.ts, u.cpuUsec, rateOf a.lines h⟩
  else none

/-- Each rate is the one from the sample before. -/
def Follows : Option (ℕ × ℕ) → List Sample → Prop
  | _, [] => True
  | prev, s :: rest => s.rate = rateSince prev s.cpuUsec s.ts ∧ Follows (some (s.cpuUsec, s.ts)) rest

/-- Rate times interval times 10, over the samples with a rate; the interval of a sample is the
time since the one before it. -/
def reportedTime : List Sample → ℚ
  | a :: b :: rest => b.rate.getD 0 * ((b.ts : ℚ) - a.ts) * 10 + reportedTime (b :: rest)
  | _ => 0

def growth (counters : List ℕ) : ℚ :=
  (counters.getLast?.getD 0 : ℚ) - (counters.head?.getD 0 : ℚ)

theorem reportedTime_of_follows {samples : List Sample} (hts : samples.Pairwise (·.ts < ·.ts))
    (hcpu : samples.Pairwise (·.cpuUsec ≤ ·.cpuUsec)) {prev : Option (ℕ × ℕ)}
    (hf : Follows prev samples) : reportedTime samples = growth (samples.map Sample.cpuUsec) := by
  induction samples generalizing prev with
  | nil => simp [reportedTime, growth]
  | cons a rest ih =>
    cases rest with
    | nil => simp [reportedTime, growth]
    | cons b rest =>
      obtain ⟨-, hrate, hrest⟩ := hf
      obtain ⟨hlt, hts'⟩ := List.pairwise_cons.mp hts
      obtain ⟨hle, hcpu'⟩ := List.pairwise_cons.mp hcpu
      have hab := hlt b List.mem_cons_self
      have hab' := hle b List.mem_cons_self
      have hfollows : Follows (some (a.cpuUsec, a.ts)) (b :: rest) := ⟨hrate, hrest⟩
      have hsum := ih hts' hcpu' hfollows
      have hone : b.rate.getD 0 * ((b.ts : ℚ) - a.ts) * 10 = (b.cpuUsec : ℚ) - a.cpuUsec := by
        have hpos : ((b.ts : ℚ) - a.ts) ≠ 0 := by
          have hlt' : (a.ts : ℚ) < b.ts := Nat.cast_lt.mpr hab
          exact sub_ne_zero.mpr hlt'.ne'
        rw [hrate]
        simp only [rateSince, Option.bind_some, if_pos hab, Option.getD_some]
        rw [Nat.cast_sub hab', Nat.cast_sub hab.le]
        field_simp
      have hlast : (List.map Sample.cpuUsec (a :: b :: rest)).getLast? =
          (List.map Sample.cpuUsec (b :: rest)).getLast? := List.getLast?_cons_cons
      rw [reportedTime, hone, hsum]
      unfold growth
      rw [hlast]
      simp only [List.map_cons, List.head?_cons, Option.getD_some]
      ring

theorem Accepted.sample_ts {p : EndpointId} {h : Handle} {a : Accepted EndpointId} {x : Sample}
    (hx : a.sample p h = some x) : a.tick.fromId = p ∧ x.ts = a.tick.ts := by
  unfold Accepted.sample at hx
  split_ifs at hx with hp
  obtain ⟨u, -, rfl⟩ := Option.map_eq_some_iff.mp hx
  exact ⟨hp, rfl⟩

end Samples

section Counters

variable {EndpointId : Type} (h : Handle)

/-- The counters of `h` in a sequence of ticks. -/
def counters (ticks : List (Tick EndpointId)) : List ℕ :=
  ticks.filterMap fun t => (t.usageOf h).map Usage.cpuUsec

/-- What a publisher sends: numbers and times grow, a tick lists a process once, and the counter
of `h` does not fall. -/
structure Steady (ticks : List (Tick EndpointId)) : Prop where
  seq : ticks.Pairwise (·.seq < ·.seq)
  ts : ticks.Pairwise (·.ts < ·.ts)
  once : ∀ t ∈ ticks, (t.stats.map ProcInfo.handle).Nodup
  cpu : (counters h ticks).Pairwise (· ≤ ·)

variable {h} in
theorem Steady.sublist {ticks ticks' : List (Tick EndpointId)} (hs : Steady h ticks)
    (hsub : ticks'.Sublist ticks) : Steady h ticks' := by
  constructor
  · exact hs.seq.sublist hsub
  · exact hs.ts.sublist hsub
  · intro t ht
    exact hs.once t (hsub.subset ht)
  · exact hs.cpu.sublist (hsub.filterMap _)

def withUsage (ticks : List (Tick EndpointId)) : List (Tick EndpointId) :=
  ticks.filter fun t => (t.usageOf h).isSome

theorem counters_eq (ticks : List (Tick EndpointId)) :
    counters h ticks = (withUsage h ticks).map fun t => ((t.usageOf h).map Usage.cpuUsec).getD 0 := by
  induction ticks with
  | nil => rfl
  | cons t ticks ih =>
    unfold counters withUsage at ih ⊢
    cases hu : t.usageOf h with
    | none => simpa [hu] using ih
    | some u => simpa [hu] using ih

theorem head?_of_sublist {α : Type} {l' l : List α} (hnd : l.Nodup) (hsub : l'.Sublist l)
    (hhead : ∀ a ∈ l.head?, a ∈ l') : l'.head? = l.head? := by
  cases hsub with
  | slnil => rfl
  | @cons l' l a hsub =>
    have ha := hsub.subset (hhead a rfl)
    exact absurd ha (List.nodup_cons.mp hnd).1
  | cons_cons a hsub => rfl

theorem getLast?_of_sublist {α : Type} {l' l : List α} (hnd : l.Nodup) (hsub : l'.Sublist l)
    (hlast : ∀ a ∈ l.getLast?, a ∈ l') : l'.getLast? = l.getLast? := by
  rw [List.getLast?_eq_head?_reverse, List.getLast?_eq_head?_reverse]
  apply head?_of_sublist (List.nodup_reverse.mpr hnd) hsub.reverse
  intro a ha
  rw [← List.getLast?_eq_head?_reverse] at ha
  exact List.mem_reverse.mpr (hlast a ha)

variable {h} in
theorem growth_of_sublist {ticks ticks' : List (Tick EndpointId)} (hs : Steady h ticks)
    (hsub : ticks'.Sublist ticks) (hhead : ∀ t ∈ (withUsage h ticks).head?, t ∈ ticks')
    (hlast : ∀ t ∈ (withUsage h ticks).getLast?, t ∈ ticks') :
    growth (counters h ticks') = growth (counters h ticks) := by
  have hnd : (withUsage h ticks).Nodup := by
    refine (hs.seq.sublist List.filter_sublist).imp ?_
    rintro t t' hlt rfl
    exact Nat.lt_irrefl _ hlt
  have hsub' : (withUsage h ticks').Sublist (withUsage h ticks) := hsub.filter _
  have hmem : ∀ t ∈ withUsage h ticks, t ∈ ticks' → t ∈ withUsage h ticks' := by
    intro t ht ht'
    exact List.mem_filter.mpr ⟨ht', (List.mem_filter.mp ht).2⟩
  have hfirst := head?_of_sublist hnd hsub' fun t ht =>
    hmem t (List.mem_of_mem_head? ht) (hhead t ht)
  have hend := getLast?_of_sublist hnd hsub' fun t ht =>
    hmem t (List.mem_of_mem_getLast? ht) (hlast t ht)
  unfold growth
  rw [counters_eq, counters_eq, List.getLast?_map, List.getLast?_map, List.head?_map,
    List.head?_map, hfirst, hend]

end Counters

section Watch

variable {EndpointId Sig : Type} [Scheme SecretKey EndpointId Sig]
  [Codec (Tick EndpointId)] [Codec (SignedTick Sig)] [DecidableEq EndpointId]
  (maxTickAge : Duration) (p : EndpointId) (h : Handle)

/-- What the watcher does with one item: end, ignore it, or print the lines of its tick. -/
theorem watchLoop_cons (latestSeq : Table EndpointId ℕ) (prev : Prev EndpointId)
    (a : Arrival EndpointId) (rest : List (Arrival EndpointId)) :
    watchLoop maxTickAge latestSeq prev (a :: rest) = [] ∨
      (∃ latestSeq', watchLoop maxTickAge latestSeq prev (a :: rest) =
        watchLoop maxTickAge latestSeq' prev rest) ∨
      ∃ (tick : Tick EndpointId) (latestSeq' : Table EndpointId ℕ),
        watchLoop maxTickAge latestSeq prev (a :: rest) =
          ⟨tick, a.now, (showStats tick prev tick.stats).2⟩ ::
            watchLoop maxTickAge latestSeq' (showStats tick prev tick.stats).1 rest := by
  obtain ⟨now, event⟩ := a
  cases event with
  | error e => exact Or.inl rfl
  | ok event =>
    right
    cases event with
    | received content =>
      cases ho : openTick content with
      | none =>
        left
        refine ⟨latestSeq, ?_⟩
        simp only [watchLoop, ho]
      | some tick =>
        cases hacc : acceptTick tick now latestSeq maxTickAge with
        | mk accepted latestSeq' =>
          cases accepted with
          | false =>
            left
            refine ⟨latestSeq', ?_⟩
            simp only [watchLoop, ho, hacc]
          | true =>
            right
            refine ⟨tick, latestSeq', ?_⟩
            simp only [watchLoop, ho, hacc]
    | neighborUp id => exact Or.inl ⟨latestSeq, rfl⟩
    | neighborDown id => exact Or.inl ⟨latestSeq, rfl⟩
    | lagged => exact Or.inl ⟨latestSeq, rfl⟩

/-- The table `prev` holds the sample before of every process. -/
theorem watchLoop_follows (latestSeq : Table EndpointId ℕ) (prev : Prev EndpointId)
    (es : List (Arrival EndpointId))
    (honce : ∀ a ∈ watchLoop maxTickAge latestSeq prev es, a.tick.fromId = p →
      (a.tick.stats.map ProcInfo.handle).Nodup) :
    Follows (prev.lookup (p, h))
      ((watchLoop maxTickAge latestSeq prev es).filterMap (Accepted.sample p h)) := by
  induction es generalizing latestSeq prev with
  | nil => trivial
  | cons a rest ih =>
    rcases watchLoop_cons maxTickAge latestSeq prev a rest with
      hend | ⟨latestSeq', hskip⟩ | ⟨tick, latestSeq', htick⟩
    · rw [hend]
      trivial
    · rw [hskip] at honce ⊢
      exact ih latestSeq' prev honce
    · rw [htick] at honce ⊢
      have hrest := ih latestSeq' _ fun a ha => honce a (List.mem_cons_of_mem _ ha)
      by_cases hp : tick.fromId = p
      · have hnd := honce _ List.mem_cons_self hp
        obtain ⟨hrate, hprev⟩ := showStats_once tick hnd prev h
        rw [hp] at hrate hprev
        rw [hprev] at hrest
        change rateOf _ h = (tick.usageOf h).bind _ at hrate
        change Follows (((tick.usageOf h).map _).or _) _ at hrest
        cases hu : tick.usageOf h with
        | none =>
          have hnone : Accepted.sample p h
              ⟨tick, a.now, (showStats tick prev tick.stats).2⟩ = none := by
            simp [Accepted.sample, hu]
          rw [hu] at hrest
          rw [List.filterMap_cons_none hnone]
          exact hrest
        | some u =>
          have hsome : Accepted.sample p h ⟨tick, a.now, (showStats tick prev tick.stats).2⟩ =
              some ⟨tick.ts, u.cpuUsec, rateOf (showStats tick prev tick.stats).2 h⟩ := by
            simp [Accepted.sample, hu, hp]
          rw [hu] at hrate hrest
          rw [List.filterMap_cons_some hsome]
          exact ⟨hrate, hrest⟩
      · have hnone : Accepted.sample p h
            ⟨tick, a.now, (showStats tick prev tick.stats).2⟩ = none := if_neg hp
        rw [List.filterMap_cons_none hnone]
        rw [showStats_other tick hp] at hrest
        exact hrest

def arrived (es : List (Arrival EndpointId)) : List (Tick EndpointId) :=
  ((live es).filterMap Arrival.tick?).filter (·.fromId = p)

theorem offers_sublist (es : List (Arrival EndpointId)) :
    (((es.filterMap (Arrival.offer maxTickAge)).filter (·.1.fromId = p)).map Prod.fst).Sublist
      ((es.filterMap Arrival.tick?).filter (·.fromId = p)) := by
  induction es with
  | nil => exact List.Sublist.slnil
  | cons a es ih =>
    cases ht : a.tick? with
    | none =>
      have hoff : a.offer maxTickAge = none := by simp [Arrival.offer, ht]
      rw [List.filterMap_cons_none hoff, List.filterMap_cons_none ht]
      exact ih
    | some t =>
      rw [List.filterMap_cons_some ht]
      cases hf : fresh t.ts a.now maxTickAge with
      | false =>
        have hoff : a.offer maxTickAge = none := by simp [Arrival.offer, ht, Option.filter_some, hf]
        rw [List.filterMap_cons_none hoff]
        exact ih.trans (List.Sublist.filter _ (List.sublist_cons_self t _))
      | true =>
        have hoff : a.offer maxTickAge = some (t, a.now) := by
          simp [Arrival.offer, ht, Option.filter_some, hf]
        rw [List.filterMap_cons_some hoff]
        by_cases hp : t.fromId = p
        · rw [List.filter_cons_of_pos (by simpa using hp), List.filter_cons_of_pos (by simpa using hp)]
          exact ih.cons_cons t
        · rw [List.filter_cons_of_neg (by simpa using hp), List.filter_cons_of_neg (by simpa using hp)]
          exact ih

/-- In order, every fresh tick is accepted. -/
theorem acceptedFrom_fresh {es : List (Arrival EndpointId)}
    (hseq : (arrived p es).Pairwise (·.seq < ·.seq)) :
    acceptedFrom maxTickAge p es =
      ((live es).filterMap (Arrival.offer maxTickAge)).filter (·.1.fromId = p) := by
  rw [acceptedFrom_eq]
  apply (Gate.climb_eq_self _ _).mpr
  have hoffers := hseq.sublist (offers_sublist maxTickAge p (live es))
  rw [List.pairwise_map] at hoffers
  exact hoffers

theorem accepted_sublist {es : List (Arrival EndpointId)}
    (hseq : (arrived p es).Pairwise (·.seq < ·.seq)) :
    ((acceptedFrom maxTickAge p es).map Prod.fst).Sublist (arrived p es) := by
  rw [acceptedFrom_fresh maxTickAge p hseq]
  exact offers_sublist maxTickAge p (live es)

/-- The accepted ticks of `p`, as the watcher goes through them. -/
theorem acceptedFrom_ticks (es : List (Arrival EndpointId)) :
    (acceptedFrom maxTickAge p es).map Prod.fst =
      ((watchLoop maxTickAge ∅ ∅ es).filter (·.tick.fromId = p)).map Accepted.tick := by
  unfold acceptedFrom
  rw [List.filter_map, List.map_map]
  rfl

def samples (es : List (Arrival EndpointId)) : List Sample :=
  (watchLoop maxTickAge ∅ ∅ es).filterMap (Accepted.sample p h)

theorem samples_counters (es : List (Arrival EndpointId)) :
    (samples maxTickAge p h es).map Sample.cpuUsec =
      counters h ((acceptedFrom maxTickAge p es).map Prod.fst) := by
  rw [acceptedFrom_ticks]
  unfold samples counters
  rw [List.map_filterMap, List.filterMap_map, List.filterMap_filter]
  apply List.filterMap_congr
  intro a _
  unfold Accepted.sample
  by_cases hp : a.tick.fromId = p <;> simp [hp, Function.comp_def]

theorem samples_ts {es : List (Arrival EndpointId)}
    (hts : ((acceptedFrom maxTickAge p es).map Prod.fst).Pairwise (·.ts < ·.ts)) :
    (samples maxTickAge p h es).Pairwise (·.ts < ·.ts) := by
  rw [acceptedFrom_ticks] at hts
  have hpair := List.pairwise_filter.mp (List.pairwise_map.mp hts)
  apply List.pairwise_filterMap.mpr
  refine hpair.imp ?_
  intro a b hab x hx y hy
  obtain ⟨hpa, hxts⟩ := Accepted.sample_ts hx
  obtain ⟨hpb, hyts⟩ := Accepted.sample_ts hy
  rw [hxts, hyts]
  exact hab (by simpa using hpa) (by simpa using hpb)

variable {p h} in
/-- **Dropped ticks lose no CPU time.**  Of what a publisher has sent, let any part arrive, among
any other traffic.  The fresh ticks are accepted, and the rates reported of a process, times their
intervals, add up to the growth of its counter from the first to the last of them; so to its
growth over everything sent, if the first and the last tick that show it are accepted. -/
theorem cpu_time_kept {sent : List (Tick EndpointId)} (hsteady : Steady h sent)
    (es : List (Arrival EndpointId)) (hsub : (arrived p es).Sublist sent) :
    acceptedFrom maxTickAge p es =
        ((live es).filterMap (Arrival.offer maxTickAge)).filter (·.1.fromId = p) ∧
      (∀ s ∈ (samples maxTickAge p h es).head?, s.rate = none) ∧
      reportedTime (samples maxTickAge p h es) =
        growth (counters h ((acceptedFrom maxTickAge p es).map Prod.fst)) ∧
      ((∀ t ∈ (withUsage h sent).head?, t ∈ (acceptedFrom maxTickAge p es).map Prod.fst) →
        (∀ t ∈ (withUsage h sent).getLast?, t ∈ (acceptedFrom maxTickAge p es).map Prod.fst) →
        reportedTime (samples maxTickAge p h es) = growth (counters h sent)) := by
  have hseq := (hsteady.sublist hsub).seq
  have hacc := (accepted_sublist maxTickAge p hseq).trans hsub
  have hsteady' := hsteady.sublist hacc
  have honce : ∀ a ∈ watchLoop maxTickAge ∅ ∅ es, a.tick.fromId = p →
      (a.tick.stats.map ProcInfo.handle).Nodup := by
    intro a ha hp
    apply hsteady'.once
    rw [acceptedFrom_ticks]
    exact List.mem_map_of_mem (List.mem_filter.mpr ⟨ha, by simpa using hp⟩)
  have hfollows : Follows none (samples maxTickAge p h es) :=
    watchLoop_follows maxTickAge p h ∅ ∅ es honce
  have hts := samples_ts maxTickAge p h hsteady'.ts
  have hcpu : (samples maxTickAge p h es).Pairwise (·.cpuUsec ≤ ·.cpuUsec) := by
    have hcounters := hsteady'.cpu
    rw [← samples_counters, List.pairwise_map] at hcounters
    exact hcounters
  have hsum : reportedTime (samples maxTickAge p h es) =
      growth (counters h ((acceptedFrom maxTickAge p es).map Prod.fst)) := by
    rw [reportedTime_of_follows hts hcpu hfollows, samples_counters]
  refine ⟨acceptedFrom_fresh maxTickAge p hseq, ?_, hsum, ?_⟩
  · cases hs : samples maxTickAge p h es with
    | nil => simp
    | cons s rest =>
      rw [hs] at hfollows
      intro s' hs'
      obtain rfl := Option.some.inj hs'
      exact hfollows.1
  · intro hhead hlast
    rw [hsum]
    exact growth_of_sublist hsteady hacc hhead hlast

end Watch

/-- A snapshot lists a process once. -/
theorem Manager.snapshot_once (m : Manager) (usage : Handle → Option Usage) :
    ((m.snapshot usage).map ProcInfo.handle).Nodup := by
  have hhandle : ∀ info : ProcInfo, (m.fillUsage usage info).handle = info.handle := by
    intro info
    unfold Manager.fillUsage
    split_ifs <;> rfl
  have hkeys : (m.snapshot usage).map ProcInfo.handle =
      (Table.sortKeys (· ≤ ·) m.procs.entries).map Sigma.fst := by
    unfold Manager.snapshot
    rw [List.map_map]
    apply List.map_congr_left
    intro x _
    exact hhandle _
  rw [hkeys]
  have hperm := Table.sortKeys_perm (· ≤ ·) m.procs.entries
  exact ((hperm.map Sigma.fst).nodup_iff).mpr m.procs.nodupKeys

def usedCpu (cpuUsec : ℕ) : ProcInfo := ⟨1, 42, .running, some ⟨0, cpuUsec⟩, 0⟩

open Symbols in
/-- Three ticks, the second of which is lost. -/
theorem cpu_time_kept_lost :
    reportedTime (samples (.fromSecs 10) (key 1) 1
        [⟨1100, .ok (.received (signTick (key 1) 1 [usedCpu 0] 1000))⟩,
          ⟨3100, .ok (.received (signTick (key 1) 3 [usedCpu 1000] 3000))⟩]) =
      growth (counters 1 [(⟨key 1, 1000, 1, [usedCpu 0]⟩ : Tick SecretKey),
        ⟨key 1, 2000, 2, [usedCpu 400]⟩, ⟨key 1, 3000, 3, [usedCpu 1000]⟩]) := by
  have hsteady : Steady 1 [(⟨key 1, 1000, 1, [usedCpu 0]⟩ : Tick SecretKey),
      ⟨key 1, 2000, 2, [usedCpu 400]⟩, ⟨key 1, 3000, 3, [usedCpu 1000]⟩] :=
    ⟨by decide, by decide, by decide, by decide⟩
  refine (cpu_time_kept (.fromSecs 10) hsteady
    [⟨1100, .ok (.received (signTick (key 1) 1 [usedCpu 0] 1000))⟩,
      ⟨3100, .ok (.received (signTick (key 1) 3 [usedCpu 1000] 3000))⟩] ?_).2.2.2 ?_ ?_
  · decide +kernel
  · decide +kernel
  · decide +kernel

/-- Every counter of `h`, also when a tick lists it twice. -/
def rows {EndpointId : Type} (h : Handle) (ticks : List (Tick EndpointId)) : List ℕ :=
  ticks.flatMap fun t => t.stats.filterMap fun info =>
    if info.handle = h then info.usage.map Usage.cpuUsec else none

open Symbols in
/-- The last of two ticks arrives after the freshness window, and what was used since the first
is not reported.  Nor is, between two ticks in time, what was used from the first row to the second
in a tick that lists the process twice. -/
theorem stale_tick_uncounted :
    (∃ es : List (Arrival SecretKey), Steady 1 (arrived (key 1) es) ∧
      ¬ reportedTime (samples (.fromSecs 10) (key 1) 1 es) =
        growth (counters 1 (arrived (key 1) es))) ∧
    ∃ es : List (Arrival SecretKey), (arrived (key 1) es).Pairwise (·.seq < ·.seq) ∧
      (arrived (key 1) es).Pairwise (·.ts < ·.ts) ∧ (rows 1 (arrived (key 1) es)).Pairwise (· ≤ ·) ∧
      (acceptedFrom (.fromSecs 10) (key 1) es).map Prod.fst = arrived (key 1) es ∧
      ¬ reportedTime (samples (.fromSecs 10) (key 1) 1 es) =
        growth (rows 1 (arrived (key 1) es)) := by
  constructor
  · exact ⟨[⟨1100, .ok (.received (signTick (key 1) 1 [usedCpu 0] 1000))⟩,
      ⟨13000, .ok (.received (signTick (key 1) 2 [usedCpu 500] 2000))⟩],
      ⟨by decide +kernel, by decide +kernel, by decide +kernel, by decide +kernel⟩, by decide +kernel⟩
  · exact ⟨[⟨1100, .ok (.received (signTick (key 1) 1 [usedCpu 0, usedCpu 500] 1000))⟩,
      ⟨2100, .ok (.received (signTick (key 1) 2 [usedCpu 1000] 2000))⟩],
      by decide +kernel, by decide +kernel, by decide +kernel, by decide +kernel, by decide +kernel⟩

end MeshSupervisor
