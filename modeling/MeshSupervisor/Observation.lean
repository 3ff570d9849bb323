import Mathlib.Data.List.Triplewise
import MeshSupervisor.CpuTime
import MeshSupervisor.Lifecycle

/-! # What a watcher sees of a manager

The telemetry path from end to end: `publish_loop` polls the manager at moments of its
choosing while the tasks of the manager run interleaved (`Polled`), signs what it finds, and
the watcher prints what it accepts of a hostile stream.

`watched`: what is printed is the history of the manager.  Each table is the one of a
moment of the run and the moments are in order; a process that exited shows up again only
with a higher number of restarts, and a handle that is gone stays gone.  The argument for
the manager alone is `entry_before`: along a run, the entry of a handle that is taken moves
up in the order `ProcInfo.Before`. -/

namespace MeshSupervisor

open Wire (Codec)
open Signature (Scheme)

/-! ### The order of reports -/

/-- `j` can be reported of a process after `i`: it has been restarted since, or it is the same
child, whose exit is final. -/
def ProcInfo.Before (i j : ProcInfo) : Prop :=
  i.restarts < j.restarts ∨
    i.restarts = j.restarts ∧ i.pid = j.pid ∧ (i.state = .running ∨ j.state = i.state)

theorem ProcInfo.Before.refl (i : ProcInfo) : i.Before i := .inr ⟨rfl, rfl, .inr rfl⟩

theorem ProcInfo.Before.trans {i j k : ProcInfo} (hij : i.Before j) (hjk : j.Before k) :
    i.Before k := by
  unfold Before at *
  rcases hij with hij | ⟨hr, hp, hs⟩
  · left
    omega
  · rcases hjk with hjk | ⟨hr', hp', hs'⟩
    · left
      omega
    · refine .inr ⟨hr.trans hr', hp.trans hp', ?_⟩
      rcases hs with hs | hs
      · exact .inl hs
      · rw [hs] at hs'
        exact hs'

theorem ProcInfo.Before.filled {i j : ProcInfo} (h : i.Before j) (m m' : Manager)
    (usage usage' : Handle → Option Usage) :
    (m.fillUsage usage i).Before (m'.fillUsage usage' j) := by
  unfold Manager.fillUsage
  split_ifs <;> exact h

section Runs

variable {w₀ w w' : World} {l l' : List (Lts.Tr World Action Event)} {h : Handle}

theorem LifeStep.before {past : List (Lts.Tr World Action Event)} {tr : Lts.Tr World Action Event}
    {e e' : ProcEntry} (hl : LifeStep h past tr (some e) (some e')) :
    (e.info h).Before (e'.info h) := by
  cases hl with
  | same => exact ProcInfo.Before.refl _
  | exit e code hst => exact .inr ⟨rfl, rfl, .inl hst⟩
  | restart e code spec la => exact .inl (Nat.lt_succ_self _)
  | stop e => exact ProcInfo.Before.refl _

variable [Codec Record]

/-- Along a run the entry of a handle moves up, until it is gone for good. -/
theorem entry_before (h₀ : Initial w₀) (hr : Lts.Run step w₀ l w) {e : ProcEntry}
    (he : w.entry h = some e) (hr' : Lts.Run step w l' w') :
    Taken h w' ∧ ∀ e', w'.entry h = some e' → (e.info h).Before (e'.info h) := by
  induction hr' with
  | nil =>
      refine ⟨Taken.of_entry (inv_run h₀ hr).1 he, ?_⟩
      intro e' he'
      obtain rfl := Option.some.inj (he.symm.trans he')
      exact ProcInfo.Before.refl _
  | @snoc l' w₁ w₂ a evs hr' hs ih =>
      obtain ⟨htaken, hbefore⟩ := ih
      refine ⟨htaken.keep hs, ?_⟩
      intro e' he'
      cases he₁ : w₁.entry h with
      | none =>
          rw [World.entry, htaken.stays_none he₁ hs] at he'
          cases he'
      | some e₁ =>
          have hlife := lifeStep h₀ (hr.append hr') hs h
          rw [he₁, he'] at hlife
          exact (hbefore e₁ he₁).trans hlife.before

/-- A handle that is gone stays gone. -/
theorem entry_gone (ht : Taken h w) (hn : w.entry h = none) (hr : Lts.Run step w l w') :
    w'.entry h = none := by
  have hkept := hr.invariant (I := fun w => Taken h w ∧ w.entry h = none) ⟨ht, hn⟩
    (fun tr hv hI => ⟨hI.1.keep hv, hI.1.stays_none hI.2 hv⟩)
  exact hkept.1.2

end Runs

/-! ### Polling the manager -/

theorem Manager.fillUsage_handle (m : Manager) (usage : Handle → Option Usage) (i : ProcInfo) :
    (m.fillUsage usage i).handle = i.handle := by
  unfold Manager.fillUsage
  split_ifs <;> rfl

theorem Manager.fillUsage_running {m : Manager} {usage : Handle → Option Usage} {e : ProcEntry}
    {h : Handle} (hu : (m.fillUsage usage (e.info h)).usage ≠ none) :
    (m.fillUsage usage (e.info h)).state = .running := by
  unfold Manager.fillUsage at hu ⊢
  by_cases hc : ((e.info h).state.isRunning && m.cgroups.isSome) = true
  · rw [if_pos hc]
    exact ProcState.isRunning_iff.mp (Bool.and_eq_true_iff.mp hc).1
  · rw [if_neg hc] at hu
    exact absurd rfl hu

theorem Manager.mem_snapshot {m : Manager} {usage : Handle → Option Usage} {i : ProcInfo}
    (hi : i ∈ m.snapshot usage) :
    ∃ e, m.procs.lookup i.handle = some e ∧ i = m.fillUsage usage (e.info i.handle) := by
  obtain ⟨⟨h, e⟩, hx, rfl⟩ := List.mem_map.mp hi
  have hmem := (Table.sortKeys_perm (· ≤ ·) m.procs.entries).mem_iff.mp hx
  have hhandle : (m.fillUsage usage (e.info h)).handle = h := m.fillUsage_handle usage (e.info h)
  refine ⟨e, ?_, ?_⟩
  · rw [hhandle]
    exact AList.mem_lookup_iff.mpr hmem
  · rw [hhandle]

theorem Manager.handle_mem_snapshot {m : Manager} {usage : Handle → Option Usage} {h : Handle} :
    h ∈ (m.snapshot usage).map ProcInfo.handle ↔ (m.procs.lookup h).isSome = true := by
  constructor
  · intro hh
    obtain ⟨i, hi, rfl⟩ := List.mem_map.mp hh
    obtain ⟨e, he, -⟩ := Manager.mem_snapshot hi
    rw [he]
    rfl
  · intro hh
    obtain ⟨e, he⟩ := Option.isSome_iff_exists.mp hh
    have hmem := (Table.sortKeys_perm (· ≤ ·) m.procs.entries).mem_iff.mpr
      (AList.mem_lookup_iff.mp he)
    refine List.mem_map.mpr ⟨m.fillUsage usage (e.info h), ?_, ?_⟩
    · exact List.mem_map_of_mem (f := fun x => m.fillUsage usage (x.2.info x.1)) hmem
    · exact m.fillUsage_handle usage (e.info h)

/-- A round of the publisher and the number of transitions of the manager before it. -/
structure Poll where
  moment : ℕ
  round : Round

section Polls

variable [Codec Record]

/-- `publish_loop` polls the manager between its transitions, with any answers of the file
system, any clock and any outcome of the broadcast. -/
inductive Polled (w₀ : World) : List (Lts.Tr World Action Event) → World → List Poll → Prop
  | start : Polled w₀ [] w₀ []
  | move {l : List (Lts.Tr World Action Event)} {w w' : World} {polls : List Poll} {a : Action}
      {evs : List Event} : Polled w₀ l w polls → step w a = some (w', evs) →
      Polled w₀ (l ++ [⟨w, a, evs, w'⟩]) w' polls
  | poll {l : List (Lts.Tr World Action Event)} {w : World} {polls : List Poll}
      (usage : Handle → Option Usage) (now : ℕ) (broadcast : Bool) : Polled w₀ l w polls →
      Polled w₀ l w (polls ++ [⟨l.length, ⟨w.mgr.snapshot usage, now, broadcast⟩⟩])

/-- The table is the one after `n` transitions of the run. -/
def TableAt (w₀ : World) (l : List (Lts.Tr World Action Event)) (stats : List ProcInfo) (n : ℕ) :
    Prop :=
  n ≤ l.length ∧ ∃ w usage, Lts.Run step w₀ (l.take n) w ∧ stats = w.mgr.snapshot usage

variable {w₀ w : World} {l : List (Lts.Tr World Action Event)} {polls : List Poll}

theorem TableAt.append {stats : List ProcInfo} {n : ℕ} (h : TableAt w₀ l stats n)
    (l' : List (Lts.Tr World Action Event)) : TableAt w₀ (l ++ l') stats n := by
  obtain ⟨hle, w, usage, hr, hstats⟩ := h
  refine ⟨?_, w, usage, ?_, hstats⟩
  · rw [List.length_append]
    omega
  · rw [List.take_append_of_le_length hle]
    exact hr

theorem Polled.run (hp : Polled w₀ l w polls) : Lts.Run step w₀ l w := by
  induction hp with
  | start => exact Lts.Run.nil
  | move _ hs ih => exact Lts.Run.snoc ih hs
  | poll usage now broadcast _ ih => exact ih

theorem Polled.extend (hp : Polled w₀ l w polls) {l' : List (Lts.Tr World Action Event)}
    {w' : World} (hr : Lts.Run step w l' w') : Polled w₀ (l ++ l') w' polls := by
  induction hr with
  | nil =>
      rw [List.append_nil]
      exact hp
  | snoc _ hs ih =>
      rw [← List.append_assoc]
      exact ih.move hs

theorem Polled.tables (hp : Polled w₀ l w polls) :
    ∀ x ∈ polls, TableAt w₀ l x.round.stats x.moment := by
  induction hp with
  | start =>
      intro x hx
      cases hx
  | move _ hs ih =>
      intro x hx
      exact (ih x hx).append _
  | @poll l w polls usage now broadcast hp ih =>
      intro x hx
      rcases List.mem_append.mp hx with hx | hx
      · exact ih x hx
      · obtain rfl := List.mem_singleton.mp hx
        refine ⟨le_rfl, w, usage, ?_, rfl⟩
        rw [List.take_length]
        exact hp.run

theorem Polled.sorted (hp : Polled w₀ l w polls) : polls.Pairwise (·.moment ≤ ·.moment) := by
  induction hp with
  | start => exact List.Pairwise.nil
  | move _ _ ih => exact ih
  | poll usage now broadcast hp ih =>
      refine List.pairwise_append.mpr ⟨ih, List.pairwise_singleton _ _, ?_⟩
      intro x hx y hy
      obtain rfl := List.mem_singleton.mp hy
      exact (hp.tables x hx).1

theorem TableAt.between {s t : List ProcInfo} {m n : ℕ} (hs : TableAt w₀ l s m)
    (ht : TableAt w₀ l t n) (hmn : m ≤ n) : ∃ (w w' : World) (usage usage' : Handle → Option Usage)
      (l' : List (Lts.Tr World Action Event)), Lts.Run step w₀ (l.take m) w ∧
      Lts.Run step w l' w' ∧ Lts.Run step w₀ (l.take n) w' ∧ s = w.mgr.snapshot usage ∧
      t = w'.mgr.snapshot usage' := by
  obtain ⟨-, w, usage, hr, rfl⟩ := hs
  obtain ⟨-, w', usage', hr', rfl⟩ := ht
  have hsplit : l.take n = l.take m ++ (l.take n).drop m := by
    have htake : (l.take n).take m = l.take m := by
      rw [List.take_take, min_eq_left hmn]
    rw [← htake, List.take_append_drop]
  refine ⟨w, w', usage, usage', (l.take n).drop m, hr, ?_, hr', rfl, rfl⟩
  rw [hsplit] at hr'
  exact hr'.rest hr

/-- Reports of a handle in successive tables are in order. -/
theorem TableAt.before (h₀ : Initial w₀) {s t : List ProcInfo} {m n : ℕ} (hs : TableAt w₀ l s m)
    (ht : TableAt w₀ l t n) (hmn : m ≤ n) {i j : ProcInfo} (hi : i ∈ s) (hj : j ∈ t)
    (hij : i.handle = j.handle) : i.Before j := by
  obtain ⟨w, w', usage, usage', l', hr, hr', -, rfl, rfl⟩ := hs.between ht hmn
  obtain ⟨e, he, hi⟩ := Manager.mem_snapshot hi
  obtain ⟨e', he', hj⟩ := Manager.mem_snapshot hj
  rw [← hij] at he' hj
  rw [hi, hj]
  exact ((entry_before h₀ hr he hr').2 e' he').filled w.mgr w'.mgr usage usage'

theorem TableAt.gone (h₀ : Initial w₀) {s t u : List ProcInfo} {m n k : ℕ}
    (hs : TableAt w₀ l s m) (ht : TableAt w₀ l t n) (hu : TableAt w₀ l u k) (hmn : m ≤ n)
    (hnk : n ≤ k) {h : Handle} (hin : h ∈ s.map ProcInfo.handle)
    (hout : h ∉ t.map ProcInfo.handle) : h ∉ u.map ProcInfo.handle := by
  obtain ⟨w, w', usage, usage', l', hr, hr', hrn, rfl, rfl⟩ := hs.between ht hmn
  obtain ⟨w₁, w'', -, usage'', l'', hr₁, hr'', -, -, rfl⟩ := ht.between hu hnk
  obtain rfl := hrn.end_eq hr₁
  obtain ⟨e, he⟩ := Option.isSome_iff_exists.mp (Manager.handle_mem_snapshot.mp hin)
  have htaken := (entry_before h₀ hr he hr').1
  rw [Manager.handle_mem_snapshot, Option.not_isSome_iff_eq_none] at hout ⊢
  exact entry_gone htaken hout hr''

end Polls

/-! ### What is printed -/

/-- A printed line shows a row: without usage there are no figures. -/
structure Line.Shows (x : Line) (s : ProcInfo) : Prop where
  handle : x.handle = s.handle
  pid : x.pid = s.pid
  state : x.state = s.state
  mem : x.mem = s.usage.map (fun u => u.memBytes / (1024 * 1024))
  cpu : s.usage = none → x.cpu = none

section Shown

variable {EndpointId : Type} [DecidableEq EndpointId]

theorem showStat_shows (tick : Tick EndpointId) (prev : Prev EndpointId) (s : ProcInfo) :
    (showStat tick prev s).2.Shows s := by
  unfold showStat
  cases hu : s.usage with
  | none => exact ⟨rfl, rfl, rfl, by rw [hu], fun _ => rfl⟩
  | some u => exact ⟨rfl, rfl, rfl, by rw [hu], fun hnone => by rw [hu] at hnone; cases hnone⟩

/-- The lines of a tick show its rows, one each and in order. -/
theorem showStats_shows (tick : Tick EndpointId) (prev : Prev EndpointId)
    (stats : List ProcInfo) : List.Forall₂ Line.Shows (showStats tick prev stats).2 stats := by
  induction stats generalizing prev with
  | nil => exact List.Forall₂.nil
  | cons s stats ih => exact List.Forall₂.cons (showStat_shows tick prev s) (ih _)

variable {Sig : Type} [Scheme SecretKey EndpointId Sig]
  [Codec (Tick EndpointId)] [Codec (SignedTick Sig)]

theorem watchLoop_shows (maxTickAge : Duration) (latestSeq : Table EndpointId ℕ)
    (prev : Prev EndpointId) (es : List (Arrival EndpointId)) :
    ∀ x ∈ watchLoop maxTickAge latestSeq prev es, List.Forall₂ Line.Shows x.lines x.tick.stats := by
  induction es generalizing latestSeq prev with
  | nil =>
      intro x hx
      cases hx
  | cons a rest ih =>
      intro x hx
      rcases watchLoop_cons maxTickAge latestSeq prev a rest with
        hend | ⟨latestSeq', hskip⟩ | ⟨tick, latestSeq', htick⟩
      · rw [hend] at hx
        cases hx
      · rw [hskip] at hx
        exact ih latestSeq' prev x hx
      · rw [htick] at hx
        rcases List.mem_cons.mp hx with rfl | hx
        · exact showStats_shows tick prev tick.stats
        · exact ih latestSeq' _ x hx

/-- What the watcher prints under the id of a publisher, in order. -/
def seenOf (maxTickAge : Duration) (p : EndpointId) (es : List (Arrival EndpointId)) :
    List (Accepted EndpointId) :=
  (watchLoop maxTickAge ∅ ∅ es).filter (·.tick.fromId = p)

omit [DecidableEq EndpointId] [Codec (Tick EndpointId)] [Codec (SignedTick Sig)] in
theorem signedTicks_stats (secret : SecretKey) (seq : ℕ) (rounds : List Round) :
    ((signedTicks secret seq rounds : List (Tick EndpointId × Bool)).map (·.1.stats)).Sublist
      (rounds.map Round.stats) := by
  induction rounds generalizing seq with
  | nil => exact List.Sublist.slnil
  | cons r rounds ih =>
      unfold signedTicks
      by_cases hr : r.stats.isEmpty = true
      · rw [if_pos hr]
        exact (ih seq).cons r.stats
      · rw [if_neg hr]
        exact (ih (seq + 1)).cons_cons r.stats

theorem seenOf_sublist (maxTickAge : Duration) (secret : SecretKey) (rounds : List Round)
    {es : List (Arrival EndpointId)} (h : Symbolic (Scheme.pub secret) (ticksOf secret rounds) es) :
    ((seenOf maxTickAge (Scheme.pub secret) es).map (·.tick.stats)).Sublist
      (rounds.map Round.stats) := by
  have hclimb : Gate.Increasing Tick.seq
      ((acceptedFrom maxTickAge (Scheme.pub secret) es).map Prod.fst) := by
    apply List.pairwise_map.mpr
    rw [acceptedFrom_eq]
    exact Gate.climb_pairwise _ _ _
  have hmem : ∀ t ∈ (acceptedFrom maxTickAge (Scheme.pub secret) es).map Prod.fst,
      t ∈ ticksOf secret rounds := by
    intro t ht
    obtain ⟨x, hx, rfl⟩ := List.mem_map.mp ht
    obtain ⟨a, ha, hat, -, hp⟩ := acceptedFrom_mem hx
    exact (h.authentic ((List.takeWhile_sublist _).subset ha) hat hp).1
  have hticks := Gate.sublist_of_increasing _ hclimb (ticksOf_increasing secret rounds) hmem
  rw [acceptedFrom_ticks] at hticks
  have hpolled : ((ticksOf secret rounds : List (Tick EndpointId)).map Tick.stats).Sublist
      (rounds.map Round.stats) := by
    unfold ticksOf
    rw [List.map_map]
    exact signedTicks_stats secret 0 rounds
  have hstats := (hticks.map Tick.stats).trans hpolled
  rw [List.map_map] at hstats
  exact hstats

end Shown

/-! ### From the manager to the watcher -/

section Watched

variable [Codec Record] {EndpointId : Type}

/-- What is seen of a manager whose run is `l` is its history. -/
structure TrueHistory (w₀ : World) (l : List (Lts.Tr World Action Event))
    (seen : List (Accepted EndpointId)) : Prop where
  /-- Every table is the one of a moment of the run, and the moments are in order. -/
  moments : ∃ ns : List ℕ, ns.Pairwise (· ≤ ·) ∧
    List.Forall₂ (fun x n => TableAt w₀ l x.tick.stats n) seen ns
  /-- The lines printed are the rows of the table. -/
  lines : ∀ x ∈ seen, List.Forall₂ Line.Shows x.lines x.tick.stats
  /-- Figures are shown of running processes only. -/
  figures : ∀ x ∈ seen, ∀ i ∈ x.tick.stats, i.usage ≠ none → i.state = .running
  /-- A process that exited stays so until its restarts grow. -/
  ordered : seen.Pairwise fun x y =>
    ∀ i ∈ x.tick.stats, ∀ j ∈ y.tick.stats, i.handle = j.handle → i.Before j
  /-- A handle that is gone stays gone. -/
  gone : seen.Triplewise fun x y z => ∀ h ∈ x.tick.stats.map ProcInfo.handle,
    h ∉ y.tick.stats.map ProcInfo.handle → h ∉ z.tick.stats.map ProcInfo.handle

variable {Sig : Type} [DecidableEq EndpointId] [Scheme SecretKey EndpointId Sig]
  [Codec (Tick EndpointId)] [Codec (SignedTick Sig)]

/-- **What a watcher prints of a publisher is the history of its manager.**  Let a key sign
the polls of one run of the manager and nothing else, and let the watcher see any traffic in
which signatures are not forged: replayed, reordered, lost and injected messages show nothing
that was not so, and nothing in the wrong order. -/
theorem watched {w₀ w : World} (h₀ : Initial w₀) {l : List (Lts.Tr World Action Event)}
    {polls : List Poll} (hp : Polled w₀ l w polls) (maxTickAge : Duration) (secret : SecretKey)
    (es : List (Arrival EndpointId))
    (h : Symbolic (Scheme.pub secret) (ticksOf secret (polls.map Poll.round)) es) :
    TrueHistory w₀ l (seenOf maxTickAge (Scheme.pub secret) es) := by
  have hsub := seenOf_sublist maxTickAge secret _ h
  rw [List.map_map] at hsub
  obtain ⟨xs, hxs, heq⟩ := List.sublist_map_iff.mp hsub
  have htables : ∀ x ∈ xs, TableAt w₀ l x.round.stats x.moment :=
    fun x hx => hp.tables x (hxs.subset hx)
  have hsorted : xs.Pairwise (·.moment ≤ ·.moment) := hp.sorted.sublist hxs
  refine ⟨⟨xs.map Poll.moment, List.pairwise_map.mpr hsorted, ?_⟩, ?_, ?_, ?_, ?_⟩
  · rw [← List.forall₂_map_left_iff (f := fun x : Accepted EndpointId => x.tick.stats), heq,
      List.forall₂_map_left_iff, List.forall₂_map_right_iff, List.forall₂_same]
    exact htables
  · intro x hx
    exact watchLoop_shows maxTickAge ∅ ∅ es x (List.mem_filter.mp hx).1
  · intro x hx i hi hu
    have hx' : x.tick.stats ∈ xs.map (Round.stats ∘ Poll.round) := by
      rw [← heq]
      exact List.mem_map_of_mem hx
    obtain ⟨y, hy, hstats⟩ := List.mem_map.mp hx'
    obtain ⟨-, w', usage, -, htable⟩ := htables y hy
    rw [← hstats] at hi
    change i ∈ y.round.stats at hi
    rw [htable] at hi
    obtain ⟨e, -, he⟩ := Manager.mem_snapshot hi
    rw [he] at hu ⊢
    exact Manager.fillUsage_running hu
  · have hbefore : (xs.map (Round.stats ∘ Poll.round)).Pairwise fun s t =>
        ∀ i ∈ s, ∀ j ∈ t, i.handle = j.handle → i.Before j := by
      apply List.pairwise_map.mpr
      refine hsorted.imp_of_mem ?_
      intro x y hx hy hle i hi j hj
      exact (htables x hx).before h₀ (htables y hy) hle hi hj
    rw [← heq] at hbefore
    exact List.pairwise_map.mp hbefore
  · have hgone : (xs.map (Round.stats ∘ Poll.round)).Triplewise fun s t u =>
        ∀ h ∈ s.map ProcInfo.handle,
          h ∉ t.map ProcInfo.handle → h ∉ u.map ProcInfo.handle := by
      rw [List.triplewise_map, List.triplewise_iff_getElem]
      intro i j k hij hjk hk hh hin hout
      have hmn := List.pairwise_iff_getElem.mp hsorted i j (by omega) (by omega) hij
      have hnk := List.pairwise_iff_getElem.mp hsorted j k (by omega) hk hjk
      exact (htables _ (List.getElem_mem _)).gone h₀ (htables _ (List.getElem_mem _))
        (htables _ (List.getElem_mem _)) hmn hnk hin hout
    rw [← heq] at hgone
    exact List.triplewise_map.mp hgone

end Watched

def firstRow : ProcInfo := ⟨2, 100, .running, none, 0⟩

def secondRow : ProcInfo := ⟨2, 101, .running, none, 1⟩

def endsWith (rows : List ProcInfo) (r : List (Lts.Tr World Action Event) × World) : Bool :=
  r.2.mgr.snapshot (fun _ => none) = rows

open Symbols in
def relaunchTraffic : List (Arrival SecretKey) :=
  [⟨2020, .ok (.received forgedTick)⟩,
    ⟨2100, .ok (.received (signTick (key 1) 1 [firstRow] 1000))⟩,
    ⟨2200, .ok (.received (signTick (key 1) 2 [secondRow] 2000))⟩,
    ⟨2300, .ok (.received (signTick (key 1) 1 [firstRow] 1000))⟩]

open Symbols in
theorem watched_relaunch : ∃ l w polls, @Polled recordCodec (World.start .new) l w polls ∧
    (seenOf (.fromSecs 30) (key 1) relaunchTraffic).map (·.tick.stats) =
      [[firstRow], [secondRow]] ∧
    @TrueHistory recordCodec SecretKey (World.start .new) l
      (seenOf (.fromSecs 30) (key 1) relaunchTraffic) := by
  obtain ⟨l₁, w₁, hr₁, h₁⟩ := Lts.run_of_exec (@step recordCodec) (World.start .new)
    (relaunchRun.take 6) (fun r => endsWith [firstRow] r &&
      (Lts.exec (@step recordCodec) r.2 (relaunchRun.drop 6)).any (endsWith [secondRow]))
    (by decide +kernel)
  obtain ⟨hfirst, hrest⟩ := Bool.and_eq_true_iff.mp h₁
  obtain ⟨l₂, w₂, hr₂, h₂⟩ := Lts.run_of_exec (@step recordCodec) w₁ _ _ hrest
  let _ : Codec Record := recordCodec
  have hp := (((Polled.start.extend hr₁).poll (fun _ => none) 1000 true).extend hr₂).poll
    (fun _ => none) 2000 true
  rw [of_decide_eq_true hfirst, of_decide_eq_true h₂] at hp
  have hsym : Symbolic (key 1) (ticksOf (key 1) [⟨[firstRow], 1000, true⟩, ⟨[secondRow], 2000, true⟩])
      relaunchTraffic := by
    unfold Symbolic
    decide +kernel
  exact ⟨_, _, _, hp, by decide +kernel,
    watched (.inl rfl) hp (.fromSecs 30) (key 1) _ hsym⟩

end MeshSupervisor
