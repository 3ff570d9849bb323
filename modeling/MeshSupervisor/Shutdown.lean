import MeshSupervisor.Turns

/-! # Shutdown

`kill_all` takes a snapshot of the running pids, sends SIGTERM, waits for the grace period
and then sends SIGKILL to the process groups of the snapshot.  `Accounted` is the account
of the children that the runs at await points keep: every child launched so far has been
recorded as exited, or a `supervise` task waits for it and its entry is running; during a
grace wait, every child that is not recorded is in the snapshot.

`shutdown_leaves_none`: without cgroups, no child is left when `kill_all` returns, provided
that no `spawn` launches one during the grace wait (`GraceClear`): `spawn` does not look at
the shutdown flag, as a relaunch does.  `spawn_escapes` is a run in which a child escapes. -/

namespace MeshSupervisor

open Wire (Codec)

/-! ### Children are accounted for -/

def Recorded (E : List Event) (id : Handle) (n : LaunchId) : Prop :=
  ∃ code, .exitRecorded id n code ∈ E

/-- Launch `n` is waited for, and its entry is running. -/
def Live (w : World) (n : LaunchId) (c : Child) : Prop :=
  ∃ t s e, w.tasks t = some (.supervise s) ∧ s.pc = .wait ∧ s.child = n ∧ s.id = c.handle ∧
    w.mgr.procs.lookup c.handle = some e ∧ e.status = .running

/-- When `kill_all` returns, every child launched up to then has been recorded as exited or
is sent SIGKILL, with its process group, by that `kill_all`. -/
def NoneLeft (l : List (Lts.Tr World Turn Event)) : Prop :=
  ∀ l₁ tr l₂, l = l₁ ++ tr :: l₂ → .killedAll ∈ tr.evs →
    ∀ id la, .launchChild id (some la) ∈ Lts.events (l₁ ++ [tr]) →
      Recorded (Lts.events (l₁ ++ [tr])) id la.child ∨ .killGroup la.pid sigKill ∈ tr.evs

/-- No `spawn` launches a child while a `kill_all` is in its grace wait. -/
def GraceClear (tr : Lts.Tr World Turn Event) : Prop :=
  ∀ t spec os t' pids, tr.act = .call t (.spawn spec) os →
    tr.pre.tasks t' = some (.killAllPoll true pids) → os.spawn = none

/-- What is known of the children after the events `E`. -/
structure Accounted (E : List Event) (w : World) : Prop where
  inv : Inv w
  calm : Calm w
  cgroups : w.mgr.cgroups = none
  launched : ∀ id la, .launchChild id (some la) ∈ E →
    ∃ c, w.mgr.children[la.child]? = some c ∧ c.handle = id ∧ c.pid = la.pid
  child : ∀ (n : LaunchId) (c : Child), w.mgr.children[n]? = some c →
    Recorded E c.handle n ∨ Live w n c
  snapshot : ∀ t pids, w.tasks t = some (.killAllPoll true pids) → w.mgr.shutdown = true ∧
    ∀ (n : LaunchId) (c : Child), w.mgr.children[n]? = some c →
      Recorded E c.handle n ∨ c.pid ∈ pids

section
variable [Codec Record] {w w' : World} {a : Turn} {evs : List Event} {E : List Event} {t : ℕ}
  {os : Os} {task : Task} {m' : Manager} {next : Option Task}

omit [Codec Record] in
theorem Recorded.mono {E' : List Event} {id : Handle} {n : LaunchId} (h : Recorded E id n) :
    Recorded (E ++ E') id n := by
  obtain ⟨code, hc⟩ := h
  exact ⟨code, List.mem_append_left _ hc⟩

/-- A live child stays live until its exit is recorded. -/
theorem Live.turn {n : LaunchId} {c : Child} (hl : Live w n c) (hI : Inv w)
    (hacts : Acts w a t os task) (hstep : TurnStep w.mgr os task m' next evs) :
    Recorded evs c.handle n ∨ Live ⟨m', Function.update w.tasks t next⟩ n c := by
  obtain ⟨t', s, e, ht', hpc, rfl, hid, he, hrun⟩ := hl
  by_cases heq : t' = t
  · subst heq
    left
    rcases hacts with ⟨-, ht⟩ | ⟨op, -, hnone, -⟩
    · obtain rfl := Option.some.inj (ht.symm.trans ht')
      have hsome : (w.mgr.procs.lookup s.id).isSome = true := by rw [hid, he]; rfl
      cases hstep with
      | exitEnds _ code _ _ _ _ | exitBacksOff _ code _ _ _ _ =>
          refine ⟨code, List.mem_append_left _ ?_⟩
          rw [exitEvents, if_pos hsome, hid]
          exact List.mem_singleton.mpr rfl
      | dropped _ code h | relaunchFails _ code _ h | relaunches _ code _ _ h =>
          rw [hpc] at h; cases h
    · rw [ht'] at hnone; cases hnone
  · right
    obtain ⟨e', he', hr', -, -⟩ := hstep.running_other hI he hrun (by
      intro spec ho
      exact heq (hI.unique _ _ _ _ c.handle _ _ ht' (hacts.of_owner ho) (by rw [← hid]; rfl) ho))
    exact ⟨t', s, e', by simp only [Function.update_apply, if_neg heq]; exact ht', hpc, rfl, hid,
      he', hr'⟩

omit [Codec Record] in
theorem Live.mem_runningPids {n : LaunchId} {c : Child} (hl : Live w n c) (hI : Inv w)
    (hc : w.mgr.children[n]? = some c) : c.pid ∈ w.mgr.runningPids := by
  obtain ⟨t, s, e, ht, hpc, rfl, hid, he, hrun⟩ := hl
  obtain ⟨c', hc', -, -, -, hpid⟩ := hI.tracks t _ s.child s.id s.spec ht rfl
    (by simp only [Task.holds, hpc])
  obtain rfl := Option.some.inj (hc.symm.trans hc')
  rw [Manager.mem_runningPids]
  exact ⟨c.handle, e, he, hrun, hpid e (by rw [hid]; exact he) hrun⟩

theorem TurnStep.killedAll_mem {m : Manager} (hstep : TurnStep m os task m' next evs)
    (hcg : m.cgroups = none) (hk : .killedAll ∈ evs) :
    ∃ pids, ((task = .killAll ∧ pids = m.runningPids) ∨ task = .killAllPoll true pids) ∧
      m'.children = m.children ∧ ∀ pid ∈ pids, .killGroup pid sigKill ∈ evs := by
  cases hstep with
  | killAllReturns _ =>
      refine ⟨_, .inl ⟨rfl, rfl⟩, (Manager.force_frame _ os _).2.2.1, ?_⟩
      intro pid hpid
      simp only [Manager.force, hcg, List.mem_append, List.mem_map]
      exact .inr (.inl ⟨pid, hpid, rfl⟩)
  | pollReturns pids _ =>
      refine ⟨pids, .inr rfl, (Manager.force_frame _ os _).2.2.1, ?_⟩
      intro pid hpid
      simp only [Manager.force, hcg, List.mem_append, List.mem_map]
      exact .inl ⟨pid, hpid, rfl⟩
  | exitEnds s code evs' _ _ hevs =>
      rcases exitEnds_mem hevs hk with he | he <;> cases he
  | exitBacksOff s code attempt =>
      rcases exitBacksOff_mem hk with he | he <;> cases he
  | terminateForces id pid _ => split_ifs at hk <;> simp at hk
  | _ => simp at hk

namespace Accounted

omit [Codec Record] in
/-- Nothing is launched during a grace wait. -/
theorem no_launch (hA : Accounted E w) (hclear : GraceClear ⟨w, a, evs, w'⟩)
    (hacts : Acts w a t os task) {t' : ℕ} {pids : List Pid}
    (ht' : w.tasks t' = some (.killAllPoll true pids)) {id : Handle} {spec : Spec} {l : Launched} :
    ¬ Launches w.mgr os task m' next evs id spec l := by
  intro hl
  rcases hl.who with ⟨rfl, hspawn⟩ | ⟨s, rfl, hsd⟩
  · rcases hacts with ⟨-, ht⟩ | ⟨op, ha, -, hop⟩
    · exact absurd (hA.calm t _ ht) (by simp [Task.atAwait])
    · cases op <;> cases hop
      rw [hclear t spec os t' pids ha ht'] at hspawn
      cases hspawn
  · rw [(hA.snapshot t' pids ht').1] at hsd
    cases hsd

theorem child_turn (hA : Accounted E w) (hacts : Acts w a t os task)
    (hstep : TurnStep w.mgr os task m' next evs) {n : LaunchId} {c : Child}
    (hc : w.mgr.children[n]? = some c) :
    Recorded (E ++ evs) c.handle n ∨ Live ⟨m', Function.update w.tasks t next⟩ n c := by
  rcases hA.child n c hc with hrec | hlive
  · exact .inl hrec.mono
  · rcases hlive.turn hA.inv hacts hstep with ⟨code, hcode⟩ | hlive
    · exact .inl ⟨code, List.mem_append_right _ hcode⟩
    · exact .inr hlive

theorem snapshot_turn (hA : Accounted E w) (hclear : GraceClear ⟨w, a, evs, w'⟩)
    (hacts : Acts w a t os task) (hstep : TurnStep w.mgr os task m' next evs) {t' : ℕ}
    {pids : List Pid} (ht' : Function.update w.tasks t next t' = some (.killAllPoll true pids)) :
    m'.shutdown = true ∧ ∀ (n : LaunchId) (c : Child), m'.children[n]? = some c →
      Recorded (E ++ evs) c.handle n ∨ c.pid ∈ pids := by
  rcases tasks_update ht' with ⟨-, hn⟩ | ⟨-, ht⟩
  · rcases hstep.poll_next hn with ⟨rfl, rfl, rfl⟩ | ⟨rfl, rfl⟩
    · refine ⟨rfl, ?_⟩
      intro n c hc
      rcases hA.child n c hc with hrec | hlive
      · exact .inl hrec.mono
      · exact .inr (hlive.mem_runningPids hA.inv hc)
    · obtain ⟨hsd, hpids⟩ := hA.snapshot t pids (hacts.of_await rfl)
      exact ⟨hsd, fun n c hc => (hpids n c hc).imp_left Recorded.mono⟩
  · obtain ⟨hsd, hpids⟩ := hA.snapshot t' pids ht
    rcases hstep.launches with ⟨hch, -⟩ | ⟨id, spec, l, hl⟩
    · rw [hch]
      exact ⟨hstep.shutdown_mono hsd, fun n c hc => (hpids n c hc).imp_left Recorded.mono⟩
    · exact absurd hl (hA.no_launch hclear hacts ht)

theorem turn_task (hA : Accounted E w)
    (h : turn w a = some (⟨m', Function.update w.tasks t next⟩, evs))
    (hclear : GraceClear ⟨w, a, evs, ⟨m', Function.update w.tasks t next⟩⟩)
    (hacts : Acts w a t os task) (hstep : TurnStep w.mgr os task m' next evs) :
    Accounted (E ++ evs) ⟨m', Function.update w.tasks t next⟩ := by
  have hcg : m'.cgroups = none := by
    have := hstep.cgroups_isSome
    rw [hA.cgroups] at this
    simpa using this
  refine ⟨inv_turn hA.inv h, hA.calm.turn h, hcg, ?_, ?_, fun t' pids ht' => hA.snapshot_turn hclear hacts hstep ht'⟩
  · intro id la hmem
    rcases hstep.launches with ⟨hch, hev⟩ | ⟨id', spec, l, hl⟩
    · rw [hch]
      rcases List.mem_append.mp hmem with hmem | hmem
      · exact hA.launched id la hmem
      · exact absurd hmem (hev id la)
    · rw [hl.children]
      rcases List.mem_append.mp hmem with hmem | hmem
      · obtain ⟨c, hc, hrest⟩ := hA.launched id la hmem
        exact ⟨c, by rw [List.getElem?_append_left (List.getElem?_eq_some_iff.mp hc).1]; exact hc, hrest⟩
      · obtain ⟨rfl, rfl⟩ := hl.event id la hmem
        exact ⟨⟨id, spec, la.pid, none⟩, by rw [hl.child]; simp, rfl, rfl⟩
  · intro n c hc
    rcases hstep.launches with ⟨hch, -⟩ | ⟨id, spec, l, hl⟩
    · rw [hch] at hc
      exact hA.child_turn hacts hstep hc
    · rw [hl.children] at hc
      rcases Nat.lt_or_ge n w.mgr.children.length with hlt | hge
      · rw [List.getElem?_append_left hlt] at hc
        exact hA.child_turn hacts hstep hc
      · -- the new child
        rw [List.getElem?_append_right hge, List.getElem?_singleton] at hc
        split_ifs at hc with hn
        obtain rfl := Option.some.inj hc
        obtain ⟨s, rfl, hpc, hid, hchild⟩ := hl.waits
        obtain ⟨e, he, hrun⟩ := hl.running
        refine .inr ⟨t, s, e, Function.update_self .., hpc, ?_, hid, he, hrun⟩
        rw [hchild, hl.child]
        lia

omit [Codec Record] in
theorem exitChild (hA : Accounted E w) {n : LaunchId} {code : Option ℤ} (hI' : Inv { w with mgr := w.mgr.exitChild n code }) :
    Accounted E { w with mgr := w.mgr.exitChild n code } := by
  -- launches keep their handle and pid
  have hback : ∀ (k : LaunchId) (c : Child), (w.mgr.exitChild n code).children[k]? = some c →
      ∃ c₀, w.mgr.children[k]? = some c₀ ∧ c₀.handle = c.handle ∧ c₀.pid = c.pid := by
    intro k c hc
    simp only [Manager.exitChild, List.getElem?_modify] at hc
    obtain ⟨c₀, hc₀, rfl⟩ := Option.map_eq_some_iff.mp hc
    refine ⟨c₀, hc₀, ?_, ?_⟩ <;> split_ifs <;> rfl
  refine ⟨hI', hA.calm, hA.cgroups, ?_, ?_, ?_⟩
  · intro id la hmem
    obtain ⟨c, hc, h₁, h₂⟩ := hA.launched id la hmem
    refine ⟨if n = la.child then { c with exit := some code } else c, ?_, ?_, ?_⟩
    · simp only [Manager.exitChild, List.getElem?_modify, hc]
      split_ifs <;> rfl
    · split_ifs <;> exact h₁
    · split_ifs <;> exact h₂
  · intro k c hc
    obtain ⟨c₀, hc₀, hh, -⟩ := hback k c hc
    rw [← hh]
    refine (hA.child k c₀ hc₀).imp_right ?_
    rintro ⟨t, s, e, ht, hpc, hk, hid, he, hrun⟩
    exact ⟨t, s, e, ht, hpc, hk, hid.trans hh, by rw [← hh]; exact he, hrun⟩
  · intro t pids ht
    obtain ⟨hsd, hpids⟩ := hA.snapshot t pids ht
    refine ⟨hsd, ?_⟩
    intro k c hc
    obtain ⟨c₀, hc₀, hh, hp⟩ := hback k c hc
    rw [← hh, ← hp]
    exact hpids k c₀ hc₀

/-- The account is kept by every turn. -/
theorem turn (hA : Accounted E w) (h : turn w a = some (w', evs))
    (hclear : GraceClear ⟨w, a, evs, w'⟩) : Accounted (E ++ evs) w' := by
  rcases turn_cases hA.calm h with ⟨t, os, task, m', next, hacts, hstep, rfl⟩ |
    ⟨n, code, c, -, -, -, rfl, rfl⟩
  · exact hA.turn_task h hclear hacts hstep
  · rw [List.append_nil]
    exact hA.exitChild (inv_exit hA.inv n code)

/-- When `kill_all` returns, the children that are not recorded are killed. -/
theorem returns (hA : Accounted E w) (h : MeshSupervisor.turn w a = some (w', evs))
    (hk : .killedAll ∈ evs) {n : LaunchId} {c : Child} (hc : w'.mgr.children[n]? = some c) :
    Recorded (E ++ evs) c.handle n ∨ .killGroup c.pid sigKill ∈ evs := by
  rcases turn_cases hA.calm h with ⟨t, os, task, m', next, hacts, hstep, rfl⟩ |
    ⟨_, _, _, _, _, _, rfl, _⟩
  · obtain ⟨pids, htask, hch, hkill⟩ := hstep.killedAll_mem hA.cgroups hk
    simp only at hc
    rw [hch] at hc
    have hcases : Recorded E c.handle n ∨ c.pid ∈ pids := by
      rcases htask with ⟨rfl, rfl⟩ | rfl
      · exact (hA.child n c hc).imp_right (fun hlive => hlive.mem_runningPids hA.inv hc)
      · exact (hA.snapshot t pids (hacts.of_await rfl)).2 n c hc
    exact hcases.imp Recorded.mono (hkill c.pid)
  · cases hk

end Accounted

/-- **Shutdown leaves no child behind, as long as nothing is spawned during the grace wait.** -/
theorem shutdown_leaves_none {w₀ : World} (h₀ : Initial w₀) (hcg : w₀.mgr.cgroups = none)
    {l : List (Lts.Tr World Turn Event)} (hr : Lts.Run turn w₀ l w)
    (hclear : ∀ tr ∈ l, GraceClear tr) : NoneLeft l := by
  have key : ∀ {l w}, Lts.Run turn w₀ l w → (∀ tr ∈ l, GraceClear tr) →
      Accounted (Lts.events l) w := by
    intro l w hr hclear
    induction hr with
    | nil =>
        refine ⟨inv_initial h₀, calm_initial h₀, hcg, by simp, ?_, ?_⟩
        · intro n c hc
          rw [h₀.idle.2.1] at hc
          cases hc
        · intro t pids ht
          rw [h₀.idle.1 t] at ht
          cases ht
    | @snoc l w₁ w₂ a evs hr hs ih =>
        have hA := ih (fun tr htr => hclear tr (List.mem_append_left _ htr))
        have := hA.turn hs (hclear ⟨w₁, a, evs, w₂⟩ (by simp))
        simpa using this
  rintro l₁ tr l₂ rfl hk id la hmem
  obtain ⟨hr₁, hv, -⟩ := hr.split rfl
  have hA := key hr₁ (fun tr htr => hclear tr (List.mem_append_left _ htr))
  have hA' := hA.turn hv (hclear tr (by simp))
  have hevs : Lts.events (l₁ ++ [tr]) = Lts.events l₁ ++ tr.evs := by simp
  rw [hevs] at hmem ⊢
  obtain ⟨c, hc, rfl, hpid⟩ := hA'.launched id la hmem
  rw [← hpid]
  exact hA.returns hv hk hc

end

def spawnless (tr : Lts.Tr World Turn Event) : Bool :=
  match tr.act with
  | .call _ (.spawn _) os => os.spawn.isNone
  | _ => true

/-- A child is spawned, then `kill_all` is called and returns when the grace period is over. -/
theorem shutdown_leaves_none_run : ∃ l w, Lts.Run (@turn recordCodec) (World.start .new) l w ∧
    .killGroup 100 sigKill ∈ Lts.events l ∧ NoneLeft l := by
  obtain ⟨l, w, hr, hp⟩ := Lts.run_of_exec (@turn recordCodec) (World.start .new)
    [.call 0 (.spawn { cmd := "a" }) { spawn := some 100 }, .call 1 .killAll {},
      .sched 1 { expired := true }]
    (fun p => decide (.killGroup 100 sigKill ∈ Lts.events p.1) && p.1.tail.all spawnless)
    (by decide)
  rw [Bool.and_eq_true, decide_eq_true_eq, List.all_eq_true] at hp
  refine ⟨l, w, hr, hp.1, @shutdown_leaves_none recordCodec _ _ (.inl rfl) rfl l hr ?_⟩
  intro tr htr t spec os t' pids hact ht'
  cases l with
  | nil => cases htr
  | cons tr₀ l =>
      rcases List.mem_cons.mp htr with rfl | htr
      · -- the first turn starts without tasks
        obtain ⟨h₀, -⟩ := hr.split (List.nil_append _).symm
        rw [h₀.eq_of_nil] at ht'
        cases ht'
      · have := hp.2 tr htr
        rw [spawnless, hact] at this
        simpa using this

/-- A child is spawned during the grace wait. -/
theorem spawn_escapes : ∃ l w, Lts.Run (@turn recordCodec) (World.start .new) l w ∧ ¬ NoneLeft l := by
  obtain ⟨l, w, hr, hp⟩ := Lts.run_of_exec (@turn recordCodec) (World.start .new)
    [.call 0 (.spawn { cmd := "a" }) { spawn := some 100 }, .call 1 .killAll {},
      .call 2 (.spawn { cmd := "b" }) { spawn := some 200 }, .sched 1 { expired := true }]
    (fun p =>
      match p.1.reverse with
      | [] => false
      | tr :: l => decide (.killedAll ∈ tr.evs) && decide (.killGroup 200 sigKill ∉ tr.evs) &&
          decide (.launchChild 3 (some ⟨1, 200, 1, 1⟩) ∈ Lts.events (l.reverse ++ [tr])) &&
          (Lts.events (l.reverse ++ [tr])).all (fun
            | .exitRecorded _ n _ => n != 1
            | _ => true)) (by decide)
  refine ⟨l, w, hr, ?_⟩
  cases hl : l.reverse with
  | nil => rw [hl] at hp; cases hp
  | cons tr l' =>
      rw [hl] at hp
      simp only [Bool.and_eq_true, decide_eq_true_eq, List.all_eq_true] at hp
      obtain ⟨⟨⟨hk, hno⟩, hlaunch⟩, hrec⟩ := hp
      intro hnone
      rcases hnone l'.reverse tr [] (by rw [← List.reverse_cons, ← hl, List.reverse_reverse]) hk
        3 ⟨1, 200, 1, 1⟩ hlaunch with ⟨code, hc⟩ | hkill
      · exact absurd (hrec _ hc) (by simp)
      · exact hno hkill

end MeshSupervisor
