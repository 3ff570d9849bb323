import MeshSupervisor.Turns

/-! # Where signals go

A pid is read from the table at one moment and signalled later: by the `terminate` task
that `stop` starts, after the stop deadline, or after the grace wait of `kill_all`.
`Held` says what is known of the pids that are kept in between.

`signals_running`: along every run at await points, every signal goes to the pid of an
entry that is running at that moment, provided that no exit is recorded for a handle whose
`terminate` task has not started, nor (without cgroups) for a pid in the snapshot of a
`kill_all` in its grace wait (`ExitClear`).  `signal_late` is a run in which both senders
come too late. -/

namespace MeshSupervisor

open Wire (Codec)

/-- `pid` is the pid of a running entry. -/
def ToRunning (m : Manager) (pid : Pid) : Prop :=
  ∃ h e, m.procs.lookup h = some e ∧ e.status = .running ∧ e.pid = pid

/-- Every signal of the run goes to the pid of an entry that is running.  The turns that send
signals leave the table as it is, so the entry is looked up before the turn. -/
def SignalsRunning (l : List (Lts.Tr World Turn Event)) : Prop :=
  ∀ tr ∈ l, ∀ pid sig, (.kill pid sig ∈ tr.evs ∨ .killGroup pid sig ∈ tr.evs) →
    ToRunning tr.pre.mgr pid

/-- No exit is recorded for a handle whose `terminate` task has not started, nor, without
cgroups, for a pid in the snapshot of a `kill_all` in its grace wait. -/
def ExitClear (tr : Lts.Tr World Turn Event) : Prop :=
  ∀ t os s e, tr.act = .sched t os → tr.pre.tasks t = some (.supervise s) → s.pc = .wait →
    tr.pre.mgr.procs.lookup s.id = some e →
    (∀ t' pid, tr.pre.tasks t' ≠ some (.terminate s.id pid)) ∧
    (tr.pre.mgr.cgroups = none → ∀ t' pids, tr.pre.tasks t' = some (.killAllPoll true pids) →
      e.pid ∉ pids)

/-- What is known of the pids that tasks keep. -/
structure Held (w : World) : Prop where
  inv : Inv w
  calm : Calm w
  starting : ∀ t id pid, w.tasks t = some (.terminate id pid) →
    ∃ e, w.mgr.procs.lookup id = some e ∧ e.status = .running ∧ e.pid = pid ∧ e.armed = false
  sleeping : ∀ t id pid, w.tasks t = some (.terminateSleep id pid) → id ≤ w.mgr.next ∧
    ∀ e, w.mgr.procs.lookup id = some e → e.armed = false ∧ (e.status = .running → e.pid = pid)
  polling : ∀ t pids, w.tasks t = some (.killAllPoll true pids) → w.mgr.cgroups = none →
    ∀ pid ∈ pids, ToRunning w.mgr pid

section
variable [Codec Record] {w w' : World} {a : Turn} {evs : List Event} {t : ℕ} {os : Os} {task : Task}
  {m m' : Manager} {next : Option Task}

/-! ### Where the tasks that keep a pid come from -/

theorem TurnStep.terminate_next {id : Handle} {pid : Pid} (hstep : TurnStep m os task m' next evs)
    (hn : next = some (.terminate id pid)) : task = .stop id ∧ m.disarm id = .ok (m', some pid) := by
  cases hstep with
  | stopRunning _ _ _ hd => cases hn; exact ⟨rfl, hd⟩
  | _ => cases hn

theorem TurnStep.sleep_next {id : Handle} {pid : Pid} (hstep : TurnStep m os task m' next evs)
    (hn : next = some (.terminateSleep id pid)) : task = .terminate id pid ∧ m' = m := by
  cases hstep with
  | terminate _ _ => cases hn; exact ⟨rfl, rfl⟩
  | _ => cases hn

theorem TurnStep.next_le (hstep : TurnStep m os task m' next evs) : m.next ≤ m'.next := by
  cases hstep with
  | spawnFails _ _ hl | spawns _ _ _ hl =>
      have heq := (Manager.launchChild_frame hl).2.1
      exact le_trans (Nat.le_succ _) heq.ge
  | relaunchFails _ _ _ _ hl | relaunches _ _ _ _ _ _ _ hl => exact (Manager.launchChild_frame hl).2.1.ge
  | stopIdle id _ hd | stopRunning id _ _ hd =>
      obtain ⟨_, _, rfl, _⟩ := Manager.disarm_ok hd; exact le_rfl
  | forgets id _ hr => obtain ⟨_, _, _, rfl⟩ := Manager.removeEntry_ok hr; exact le_rfl
  | killAllReturns _ | pollReturns _ _ => unfold Manager.force; split <;> exact le_rfl
  | _ => exact le_rfl

/-- The five ways to send a signal. -/
theorem TurnStep.kill_mem {pid : Pid} {sig : ℤ} (hstep : TurnStep m os task m' next evs)
    (hk : .kill pid sig ∈ evs ∨ .killGroup pid sig ∈ evs) :
    (∃ id, m.signalPid id = .ok pid) ∨ (∃ id, task = .terminate id pid) ∨
    (∃ id, task = .terminateSleep id pid ∧ m.isRunning id = true) ∨ pid ∈ m.runningPids ∨
    (∃ pids, task = .killAllPoll true pids ∧ pid ∈ pids ∧ m.cgroups = none) := by
  cases hstep with
  | signals id sig₀ sig' pid₀ hs _ =>
      simp only [List.mem_cons, Event.kill.injEq, reduceCtorEq, List.not_mem_nil, or_false] at hk
      exact .inl ⟨id, by rw [hk.1]; exact hs⟩
  | terminate id pid₀ =>
      simp only [List.mem_cons, Event.kill.injEq, reduceCtorEq, List.not_mem_nil, or_false] at hk
      exact .inr (.inl ⟨id, by rw [hk.1]⟩)
  | terminateForces id pid₀ hr =>
      split_ifs at hk with hcg
      · simp at hk
      · simp only [List.mem_cons, Event.killGroup.injEq, reduceCtorEq, List.not_mem_nil, or_false,
          false_or] at hk
        exact .inr (.inr (.inl ⟨id, by rw [hk.1], hr⟩))
  | killAllWaits _ =>
      simp only [List.mem_map, Event.kill.injEq, reduceCtorEq, and_false, exists_false, or_false] at hk
      obtain ⟨pid₀, hp, rfl, -⟩ := hk
      exact .inr (.inr (.inr (.inl hp)))
  | killAllReturns _ =>
      cases hcg : m.cgroups <;>
        simp only [Manager.force, hcg, List.mem_append, List.mem_map, Event.kill.injEq,
          Event.killGroup.injEq, List.mem_cons, List.not_mem_nil, reduceCtorEq, and_false,
          exists_false, or_false, false_or] at hk
      · rcases hk with ⟨pid₀, hp, rfl, -⟩ | ⟨pid₀, hp, rfl, -⟩ <;> exact .inr (.inr (.inr (.inl hp)))
      · obtain ⟨pid₀, hp, rfl, -⟩ := hk
        exact .inr (.inr (.inr (.inl hp)))
  | pollReturns pids _ =>
      cases hcg : m.cgroups <;>
        simp only [Manager.force, hcg, List.mem_append, List.mem_map, Event.killGroup.injEq,
          List.mem_cons, List.not_mem_nil, reduceCtorEq, and_false, exists_false, or_false,
          false_or] at hk
      obtain ⟨pid₀, hp, rfl, -⟩ := hk
      exact .inr (.inr (.inr (.inr ⟨pids, rfl, hp, rfl⟩)))
  | exitEnds s code evs' _ _ hevs =>
      unfold exitEvents at hk
      rcases hevs with rfl | rfl <;> split_ifs at hk <;> simp at hk
  | exitBacksOff s code attempt =>
      unfold exitEvents at hk
      split_ifs at hk <;> simp at hk
  | _ => simp at hk

theorem running_stays (hI : Inv w) (hcalm : Calm w) (hacts : Acts w a t os task)
    (hstep : TurnStep w.mgr os task m' next evs) {h : Handle} {e : ProcEntry}
    (he : w.mgr.procs.lookup h = some e) (hr : e.status = .running)
    (hno : ∀ s, task = .supervise s → s.pc = .wait → s.id ≠ h) :
    ∃ e', m'.procs.lookup h = some e' ∧ e'.status = .running ∧ e'.pid = e.pid ∧
      (e.armed = false → e'.armed = false) := by
  refine hstep.running_other hI he hr ?_
  intro spec ho
  have ht := hacts.of_owner ho
  -- a task that owns a running entry is waiting for its child
  have hA := hI.agrees t task ht
  have hcalm' := hcalm t task ht
  cases task with
  | supervise s =>
      obtain ⟨rfl, -⟩ := Prod.mk.inj (Option.some.inj ho)
      rcases hA.pc_of_running he hr with hpc | ⟨l, hpc⟩
      · exact hno s rfl hpc rfl
      · simp [Task.atAwait, hpc] at hcalm'
  | _ => first | cases ho; done | cases hcalm'

theorem disarmed_stays (hstep : TurnStep w.mgr os task m' next evs) {h : Handle}
    {pid : Pid} (hle : h ≤ w.mgr.next)
    (hk : ∀ e, w.mgr.procs.lookup h = some e → e.armed = false ∧ (e.status = .running → e.pid = pid)) :
    ∀ e, m'.procs.lookup h = some e → e.armed = false ∧ (e.status = .running → e.pid = pid) := by
  intro e' he'
  have hentry := hstep.entry h
  rw [he'] at hentry
  generalize hx : w.mgr.procs.lookup h = x at hentry hk
  cases hentry with
  | same => exact hk e' rfl
  | insert spec l _ hn => exact absurd hle (by lia)
  | exit s code e => exact ⟨(hk e rfl).1, fun hs => by cases hs⟩
  | relaunch s code l e _ _ harm => rw [(hk e rfl).1] at harm; cases harm
  | disarm e => exact ⟨rfl, (hk e rfl).2⟩

/-! ### Turns keep it -/

namespace Held

theorem turn_task (hH : Held w) (hI' : Inv ⟨m', Function.update w.tasks t next⟩)
    (hcalm' : Calm ⟨m', Function.update w.tasks t next⟩) {w' : World}
    (hclear : ExitClear ⟨w, a, evs, w'⟩) (hacts : Acts w a t os task)
    (hstep : TurnStep w.mgr os task m' next evs) : Held ⟨m', Function.update w.tasks t next⟩ := by
  -- the guard, at the acting task
  have hguard : ∀ s e, task = .supervise s → s.pc = .wait → w.mgr.procs.lookup s.id = some e →
      (∀ t' pid, w.tasks t' ≠ some (.terminate s.id pid)) ∧
      (w.mgr.cgroups = none → ∀ t' pids, w.tasks t' = some (.killAllPoll true pids) → e.pid ∉ pids) := by
    rintro s e rfl hpc he
    rcases hacts with ⟨ha, ht⟩ | ⟨op, -, -, hop⟩
    · exact hclear t os s e ha ht hpc he
    · cases op <;> cases hop
  refine ⟨hI', hcalm', ?_, ?_, ?_⟩
  · intro t' id pid ht'
    rcases tasks_update ht' with ⟨-, hn⟩ | ⟨-, ht⟩
    · obtain ⟨rfl, hd⟩ := hstep.terminate_next hn
      obtain ⟨e, he, rfl, hpid⟩ := Manager.disarm_ok hd
      split_ifs at hpid with hrun
      obtain rfl := Option.some.inj hpid
      refine ⟨{ e with armed := false }, ?_, by simpa using hrun, rfl, rfl⟩
      simp only [Table.lookup_modify, if_true, he, Option.map_some]
    · obtain ⟨e, he, hrun, hpid, harm⟩ := hH.starting t' id pid ht
      obtain ⟨e', he', hrun', hpid', harm'⟩ := running_stays hH.inv hH.calm hacts hstep he hrun (by
        rintro s rfl hpc rfl
        exact (hguard s e rfl hpc he).1 t' pid ht)
      exact ⟨e', he', hrun', hpid'.trans hpid, harm' harm⟩
  · intro t' id pid ht'
    rcases tasks_update ht' with ⟨-, hn⟩ | ⟨-, ht⟩
    · obtain ⟨rfl, rfl⟩ := hstep.sleep_next hn
      obtain ⟨e, he, hrun, hpid, harm⟩ := hH.starting t id pid (hacts.of_await rfl)
      refine ⟨hH.inv.key_le id e he, ?_⟩
      intro e' he'
      obtain rfl := Option.some.inj (he.symm.trans he')
      exact ⟨harm, fun _ => hpid⟩
    · obtain ⟨hle, hk⟩ := hH.sleeping t' id pid ht
      exact ⟨le_trans hle hstep.next_le, disarmed_stays hstep hle hk⟩
  · intro t' pids ht' hcg pid hpid
    have hcg₀ : w.mgr.cgroups = none := by
      have := hstep.cgroups_isSome
      rw [show m'.cgroups = none from hcg] at this
      simpa using this.symm
    have hold : ∀ t', w.tasks t' = some (.killAllPoll true pids) → ToRunning m' pid := by
      intro t' ht
      obtain ⟨h, e, he, hrun, hp⟩ := hH.polling t' pids ht hcg₀ pid hpid
      obtain ⟨e', he', hrun', hpid', -⟩ := running_stays hH.inv hH.calm hacts hstep he hrun (by
        rintro s rfl hpc rfl
        exact (hguard s e rfl hpc he).2 hcg₀ t' pids ht (by rw [hp]; exact hpid))
      exact ⟨h, e', he', hrun', hpid'.trans hp⟩
    rcases tasks_update ht' with ⟨-, hn⟩ | ⟨-, ht⟩
    · rcases hstep.poll_next hn with ⟨rfl, rfl, rfl⟩ | ⟨rfl, -⟩
      · exact Manager.mem_runningPids.mp hpid
      · exact hold t (hacts.of_await rfl)
    · exact hold t' ht

theorem turn (hH : Held w) (h : turn w a = some (w', evs)) (hclear : ExitClear ⟨w, a, evs, w'⟩) :
    Held w' := by
  have hcalm' := hH.calm.turn h
  rcases turn_cases hH.calm h with ⟨t, os, task, m', next, hacts, hstep, rfl⟩ |
    ⟨n, code, c, -, -, -, rfl, rfl⟩
  · exact hH.turn_task (inv_turn hH.inv h) hcalm' hclear hacts hstep
  · exact ⟨inv_exit hH.inv n code, hcalm', hH.starting, hH.sleeping, hH.polling⟩

theorem signals (hH : Held w) (hacts : Acts w a t os task)
    (hstep : TurnStep w.mgr os task m' next evs) {pid : Pid} {sig : ℤ}
    (hk : .kill pid sig ∈ evs ∨ .killGroup pid sig ∈ evs) : ToRunning w.mgr pid := by
  rcases hstep.kill_mem hk with ⟨id, hs⟩ | ⟨id, rfl⟩ | ⟨id, rfl, hr⟩ | hmem | ⟨pids, rfl, hp, hcg⟩
  · obtain ⟨e, he, hrun, hpid⟩ := Manager.signalPid_ok hs
    exact ⟨id, e, he, hrun, hpid⟩
  · obtain ⟨e, he, hrun, hpid, -⟩ := hH.starting t id pid (hacts.of_await rfl)
    exact ⟨id, e, he, hrun, hpid⟩
  · obtain ⟨e, he, hrun⟩ := Manager.isRunning_iff.mp hr
    obtain ⟨-, hk⟩ := hH.sleeping t id pid (hacts.of_await rfl)
    exact ⟨id, e, he, hrun, (hk e he).2 hrun⟩
  · exact Manager.mem_runningPids.mp hmem
  · exact hH.polling t pids (hacts.of_await rfl) hcg pid hp

end Held

/-- **Signals go to running entries, as long as no exit overtakes a signal on its way.** -/
theorem signals_running {w₀ : World} (h₀ : Initial w₀) {l : List (Lts.Tr World Turn Event)}
    (hr : Lts.Run turn w₀ l w) (hclear : ∀ tr ∈ l, ExitClear tr) : SignalsRunning l := by
  have hheld₀ : Held w₀ := by
    have hno := h₀.idle.1
    refine ⟨inv_initial h₀, calm_initial h₀, ?_, ?_, ?_⟩
    · intro t id pid ht; rw [hno t] at ht; cases ht
    · intro t id pid ht; rw [hno t] at ht; cases ht
    · intro t pids ht; rw [hno t] at ht; cases ht
  obtain ⟨-, hheld⟩ := hr.guarded hheld₀ hclear (fun tr hv hH hc => hH.turn hv hc)
  intro tr htr pid sig hk
  obtain ⟨_, _, -, -, hv, -⟩ := hr.mem_split htr
  have hH := hheld tr htr
  rcases turn_cases hH.calm hv with ⟨t, os, task, m', next, hacts, hstep, -⟩ |
    ⟨_, _, _, _, _, _, hnil, _⟩
  · exact hH.signals hacts hstep hk
  · rw [hnil] at hk
    rcases hk with hk | hk <;> cases hk

end

def exitless (tr : Lts.Tr World Turn Event) : Bool :=
  match tr.act with
  | .sched t _ =>
      match tr.pre.tasks t with
      | some (.supervise _) => false
      | _ => true
  | _ => true

/-- A running child is stopped, ignores SIGTERM and is killed. -/
theorem signals_running_stop : ∃ l w, Lts.Run (@turn recordCodec) (World.start .new) l w ∧
    .kill 100 sigTerm ∈ Lts.events l ∧ .killGroup 100 sigKill ∈ Lts.events l ∧ SignalsRunning l := by
  obtain ⟨l, w, hr, hp⟩ := Lts.run_of_exec (@turn recordCodec) (World.start .new)
    [.call 0 (.spawn { cmd := "a" }) { spawn := some 100 }, .call 1 (.stop 2) {},
      .sched 1 {}, .sched 1 {}]
    (fun p => decide (.kill 100 sigTerm ∈ Lts.events p.1 ∧
      .killGroup 100 sigKill ∈ Lts.events p.1) && p.1.all exitless) (by decide)
  rw [Bool.and_eq_true, decide_eq_true_eq, List.all_eq_true] at hp
  refine ⟨l, w, hr, hp.1.1, hp.1.2, @signals_running recordCodec _ _ (.inl rfl) l hr ?_⟩
  intro tr htr t os s e ha ht
  have := hp.2 tr htr
  rw [exitless, ha] at this
  simp only [ht] at this
  cases this

/-- The first child exits between its `stop` and the start of the `terminate` task; the
second exits during the grace wait of `kill_all`. -/
theorem signal_late : ∃ l w, Lts.Run (@turn recordCodec) (World.start .new) l w ∧
    (∃ tr ∈ l, .kill 100 sigTerm ∈ tr.evs ∧ ¬ ToRunning tr.pre.mgr 100) ∧
    (∃ tr ∈ l, .killGroup 200 sigKill ∈ tr.evs ∧ ¬ ToRunning tr.pre.mgr 200) ∧
    ¬ SignalsRunning l := by
  obtain ⟨l, w, hr, hp⟩ := Lts.run_of_exec (@turn recordCodec) (World.start .new)
    [.call 0 (.spawn { cmd := "a" }) { spawn := some 100 },
      .call 1 (.spawn { cmd := "b" }) { spawn := some 200 }, .call 2 (.stop 2) {}, .exit 0 (some 0),
      .sched 0 {}, .sched 2 {}, .call 3 .killAll {}, .exit 1 (some 0), .sched 1 {}, .sched 3 {}]
    (fun p =>
      p.1.any (fun tr => decide (.kill 100 sigTerm ∈ tr.evs ∧ 100 ∉ tr.pre.mgr.runningPids)) &&
      p.1.any (fun tr => decide (.killGroup 200 sigKill ∈ tr.evs ∧ 200 ∉ tr.pre.mgr.runningPids)))
    (by decide)
  simp only [Bool.and_eq_true, List.any_eq_true, decide_eq_true_eq, Manager.mem_runningPids] at hp
  obtain ⟨⟨tr, htr, hk, hno⟩, htr'⟩ := hp
  exact ⟨l, w, hr, ⟨tr, htr, hk, hno⟩, htr', fun hall => hno (hall tr htr 100 sigTerm (.inl hk))⟩

end MeshSupervisor
