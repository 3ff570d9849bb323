import MeshSupervisor.Lib.Lts
import MeshSupervisor.Process

/-! # Operations and background tasks as interleaved steps

Every call of a `ProcessManager` operation and every background task (`supervise`,
`terminate`) is a `Task`: its program counter together with its local variables.
`advance` executes one atomic step of a task — one critical section, one store
transaction, one flag access, one `launch_child`, one signal — and returns the task's next
state (`none` when it has returned) and the events an observer sees.

`step` schedules the tasks as the threads of a multi-threaded runtime do: any task may take
its next step at any moment, calls start at any moment, children exit at any moment.
(`Turns.lean` gives the coarser scheduling at await points.)

A call and the background task it starts share one slot of the task table: `spawn` goes on
as `supervise` and `stop` as `terminate` when the call returns. -/

namespace MeshSupervisor

open Wire (Codec)

/-! ### Tasks and events -/

/-- Where a `supervise` task stands; `code` is the exit status of the current round. -/
inductive SupPc where
  /-- `child.wait().await`, then the table section that records the exit. -/
  | wait
  | saveExit (code : Option ℤ)
  | removeLeaf (code : Option ℤ)
  | readArmed (code : Option ℤ)
  | readShutdown (code : Option ℤ) (armed : Bool)
  /-- The backoff sleep, then `armed` read again under the lock. -/
  | backoff (code : Option ℤ)
  | rereadShutdown (code : Option ℤ) (armed : Bool)
  | relaunch (code : Option ℤ)
  | applyLaunch (code : Option ℤ) (l : Launched)
  | saveLaunch (l : Launched)
deriving DecidableEq

structure Sup where
  id : Handle
  spec : Spec
  child : LaunchId
  /-- Consecutive fast restarts. -/
  attempt : ℕ
  pc : SupPc
deriving DecidableEq

inductive Task where
  | spawn (spec : Spec)
  | spawnLaunch (id : Handle) (spec : Spec)
  | spawnInsert (id : Handle) (spec : Spec) (l : Launched)
  | spawnSave (id : Handle) (spec : Spec) (l : Launched)
  | spawnReturn (id : Handle) (spec : Spec) (l : Launched)
  | supervise (s : Sup)
  | stop (id : Handle)
  | stopReturn (id : Handle) (pid : Option Pid)
  /-- `terminate`, not started yet. -/
  | terminate (id : Handle) (pid : Pid)
  | terminateSleep (id : Handle) (pid : Pid)
  | terminateForce (id : Handle) (pid : Pid)
  | signal (id : Handle) (sig : ℤ)
  | signalSend (id : Handle) (pid : Pid) (sig : ℤ)
  | forget (id : Handle)
  | forgetStore (id : Handle)
  | killAll
  | killAllSnapshot
  | killAllTerm (pids : List Pid)
  /-- The loop of the grace period: its condition is due, or the task is `asleep` before it. -/
  | killAllPoll (asleep : Bool) (pids : List Pid)
  | killAllForce (pids : List Pid)
deriving DecidableEq

/-- What an observer of the manager sees. -/
inductive Event where
  /-- `launch_child` was executed for `id`; `none`: it failed. -/
  | launchChild (id : Handle) (l : Option Launched)
  /-- The exit of launch `n` was recorded in the table. -/
  | exitRecorded (id : Handle) (n : LaunchId) (code : Option ℤ)
  | backoff (id : Handle) (delay : Duration)
  | capHit (id : Handle)
  | kill (pid : Pid) (sig : ℤ)
  /-- `kill(-pid, sig)`. -/
  | killGroup (pid : Pid) (sig : ℤ)
  | cgroupKill (id : Handle)
  | cgroupShutdown
  | spawned (id : Handle) (pid : Pid)
  | spawnFailed (id : Handle)
  | stopped (id : Handle) (result : Except ControlError Unit)
  | signalled (id : Handle) (sig : ℤ) (result : Except ControlError Unit)
  | forgotten (id : Handle) (result : Except ControlError Unit)
  | killedAll
deriving DecidableEq

/-- The operations a client of the manager calls. -/
inductive Call where
  | spawn (spec : Spec)
  | stop (id : Handle)
  | signal (id : Handle) (sig : ℤ)
  | forget (id : Handle)
  | killAll
deriving DecidableEq

def Call.task : Call → Task
  | .spawn spec => .spawn spec
  | .stop id => .stop id
  | .signal id sig => .signal id sig
  | .forget id => .forget id
  | .killAll => .killAll

/-! ### One atomic step of a task -/

/-- The result of a step: the manager, the task's next state, the events. -/
abbrev Advance := Manager × Option Task × List Event

section
variable [Codec Record]

/-- One step of `supervise`; it blocks in `wait` while the child is alive. -/
def Sup.advance (s : Sup) (m : Manager) (os : Os) : Option Advance :=
  match s.pc with
  | .wait =>
      match (m.children[s.child]?).bind Child.exit with
      | none => none
      | some code =>
          some (m.recordExit s.id code, some (.supervise { s with pc := .saveExit code }),
            if (m.procs.lookup s.id).isSome then [.exitRecorded s.id s.child code] else [])
  | .saveExit code =>
      some (m.saveExit s.id code, some (.supervise { s with pc := .removeLeaf code }), [])
  | .removeLeaf code =>
      some (m.removeLeaf s.id os, some (.supervise { s with pc := .readArmed code }), [])
  | .readArmed code =>
      some (m, some (.supervise { s with pc := .readShutdown code (m.isArmed s.id) }), [])
  | .readShutdown code armed =>
      if m.shutdown || !armed || !shouldRestart s.spec.policy code then some (m, none, [])
      else
        let attempt := nextAttempt s.attempt os.uptime
        if s.spec.maxRetries != 0 && decide (s.spec.maxRetries < attempt) then
          some (m, none, [.capHit s.id])
        else
          some (m, some (.supervise { s with attempt := attempt, pc := .backoff code }),
            [.backoff s.id (backoffDelay attempt)])
  | .backoff code =>
      some (m, some (.supervise { s with pc := .rereadShutdown code (m.isArmed s.id) }), [])
  | .rereadShutdown code armed =>
      if m.shutdown || !armed then some (m, none, [])
      else some (m, some (.supervise { s with pc := .relaunch code }), [])
  | .relaunch code =>
      match m.launchChild s.id s.spec os with
      | (m', none) => some (m', none, [.launchChild s.id none])
      | (m', some l) =>
          some (m', some (.supervise { s with pc := .applyLaunch code l }),
            [.launchChild s.id (some l)])
  | .applyLaunch _ l =>
      some (m.applyLaunch s.id l, some (.supervise { s with pc := .saveLaunch l }), [])
  | .saveLaunch l =>
      some (m.persist s.id s.spec l.pid .running,
        some (.supervise { s with child := l.child, pc := .wait }), [])

/-- One step of a task. -/
def advance (m : Manager) (os : Os) : Task → Option Advance
  | .spawn spec => some (m.fetchAdd.1, some (.spawnLaunch m.fetchAdd.2 spec), [])
  | .spawnLaunch id spec =>
      match m.launchChild id spec os with
      | (m', none) => some (m', none, [.launchChild id none, .spawnFailed id])
      | (m', some l) => some (m', some (.spawnInsert id spec l), [.launchChild id (some l)])
  | .spawnInsert id spec l => some (m.insertEntry id l, some (.spawnSave id spec l), [])
  | .spawnSave id spec l =>
      some (m.persist id spec l.pid .running, some (.spawnReturn id spec l), [])
  | .spawnReturn id spec l =>
      some (m, some (.supervise ⟨id, spec, l.child, 0, .wait⟩), [.spawned id l.pid])
  | .supervise s => s.advance m os
  | .stop id =>
      match m.disarm id with
      | .error e => some (m, none, [.stopped id (.error e)])
      | .ok (m', pid) => some (m', some (.stopReturn id pid), [])
  | .stopReturn id pid => some (m, pid.map (Task.terminate id), [.stopped id (.ok ())])
  | .terminate id pid => some (m, some (.terminateSleep id pid), [.kill pid sigTerm])
  | .terminateSleep id pid =>
      if m.isRunning id then some (m, some (.terminateForce id pid), []) else some (m, none, [])
  | .terminateForce id pid =>
      some (m, none, if m.cgroups.isSome then [.cgroupKill id] else [.killGroup pid sigKill])
  | .signal id sig =>
      match m.signalPid id with
      | .error e => some (m, none, [.signalled id sig (.error e)])
      | .ok pid => some (m, some (.signalSend id pid sig), [])
  | .signalSend id pid sig =>
      match Signal.tryFrom sig with
      | none => some (m, none, [.signalled id sig (.error (.badRequest s!"invalid signal {sig}"))])
      | some sig' =>
          some (m, none, [.kill pid sig', .signalled id sig
            (if os.killed then .ok () else .error (.badRequest "signal delivery failed"))])
  | .forget id =>
      match m.removeEntry id with
      | .error e => some (m, none, [.forgotten id (.error e)])
      | .ok m' => some (m', some (.forgetStore id), [])
  | .forgetStore id => some (m.removeRecord id, none, [.forgotten id (.ok ())])
  | .killAll => some ({ m with shutdown := true }, some .killAllSnapshot, [])
  | .killAllSnapshot => some (m, some (.killAllTerm m.runningPids), [])
  | .killAllTerm pids => some (m, some (.killAllPoll false pids), pids.map (Event.kill · sigTerm))
  | .killAllPoll _ pids =>
      if os.expired || !m.anyRunning then some (m, some (.killAllForce pids), [])
      else some (m, some (.killAllPoll true pids), [])
  | .killAllForce pids =>
      match m.cgroups with
      | some cg =>
          some ({ m with cgroups := some (cg.shutdown os.rmdir) }, none,
            [.cgroupShutdown, .killedAll])
      | none => some (m, none, pids.map (Event.killGroup · sigKill) ++ [.killedAll])

end

/-! ### Interleaving step by step -/

/-- The manager and the tasks in flight. -/
structure World where
  mgr : Manager
  tasks : ℕ → Option Task

/-- A choice of the scheduler or the environment. -/
inductive Action where
  /-- An operation is called; the call takes the free slot `t`. -/
  | call (t : ℕ) (op : Call)
  /-- Task `t` takes its next step, with these answers of the system. -/
  | sched (t : ℕ) (os : Os)
  /-- The child of launch `n` exits. -/
  | exit (n : LaunchId) (code : Option ℤ)

def World.commit (w : World) (t : ℕ) (r : Advance) : World × List Event :=
  (⟨r.1, Function.update w.tasks t r.2.1⟩, r.2.2)

/-- A child exits, once. -/
def World.exitChild (w : World) (n : LaunchId) (code : Option ℤ) : Option (World × List Event) :=
  match w.mgr.children[n]? with
  | none => none
  | some c => if c.alive then some ({ w with mgr := w.mgr.exitChild n code }, []) else none

/-- The world a manager starts in: no task. -/
def World.start (m : Manager) : World := ⟨m, fun _ => none⟩

section
variable [Codec Record]

/-- One atomic step of the system. -/
def step (w : World) : Action → Option (World × List Event)
  | .call t op =>
      if (w.tasks t).isNone then some (⟨w.mgr, Function.update w.tasks t (some op.task)⟩, [])
      else none
  | .sched t os =>
      match w.tasks t with
      | none => none
      | some task => (advance w.mgr os task).map (w.commit t)
  | .exit n code => w.exitChild n code

/-! ### What a step can do -/

theorem step_sched {w : World} {t : ℕ} {task : Task} (os : Os) (r : Advance)
    (ht : w.tasks t = some task) (ha : advance w.mgr os task = some r) :
    step w (.sched t os) = some (w.commit t r) := by
  simp only [step, ht, ha, Option.map_some]

def actor (tr : Lts.Tr World Action Event) : Option Task :=
  match tr.act with
  | .sched t _ => tr.pre.tasks t
  | _ => none

theorem step_cases {w w' : World} {a : Action} {evs : List Event}
    (h : step w a = some (w', evs)) :
    (∃ t op, a = .call t op ∧ w.tasks t = none ∧ evs = [] ∧
      w' = ⟨w.mgr, Function.update w.tasks t (some op.task)⟩) ∨
    (∃ t os task m' next, a = .sched t os ∧ w.tasks t = some task ∧
      advance w.mgr os task = some (m', next, evs) ∧ w' = ⟨m', Function.update w.tasks t next⟩) ∨
    (∃ n code c, a = .exit n code ∧ w.mgr.children[n]? = some c ∧ c.alive = true ∧ evs = [] ∧
      w' = { w with mgr := w.mgr.exitChild n code }) := by
  cases a with
  | call t op =>
      simp only [step] at h
      split_ifs at h with hn
      obtain ⟨rfl, rfl⟩ := Prod.mk.inj (Option.some.inj h)
      exact .inl ⟨t, op, rfl, Option.isNone_iff_eq_none.mp hn, rfl, rfl⟩
  | sched t os =>
      simp only [step] at h
      cases ht : w.tasks t with
      | none => rw [ht] at h; cases h
      | some task =>
          rw [ht] at h
          obtain ⟨⟨m', next, evs'⟩, ha, hc⟩ := Option.map_eq_some_iff.mp h
          obtain ⟨rfl, rfl⟩ := Prod.mk.inj hc
          exact .inr (.inl ⟨t, os, task, m', next, rfl, ht, ha, rfl⟩)
  | exit n code =>
      simp only [step, World.exitChild] at h
      cases hc : w.mgr.children[n]? with
      | none => rw [hc] at h; cases h
      | some c =>
          rw [hc] at h
          dsimp only at h
          split_ifs at h with halive
          obtain ⟨rfl, rfl⟩ := Prod.mk.inj (Option.some.inj h)
          exact .inr (.inr ⟨n, code, c, rfl, hc, halive, rfl, rfl⟩)

omit [Codec Record] in
theorem tasks_update {w : World} {t t' : ℕ} {next : Option Task} {task' : Task}
    (h : Function.update w.tasks t next t' = some task') :
    (t' = t ∧ next = some task') ∨ (t' ≠ t ∧ w.tasks t' = some task') := by
  rw [Function.update_apply] at h
  split_ifs at h with heq
  · exact .inl ⟨heq, h⟩
  · exact .inr ⟨heq, h⟩

/-- The steps of a task, one constructor for each branch of `advance`. -/
inductive Moves (m : Manager) (os : Os) : Task → Manager → Option Task → List Event → Prop
  | spawn (spec : Spec) :
      Moves m os (.spawn spec) { m with next := m.next + 1 }
        (some (.spawnLaunch (m.next + 1) spec)) []
  | spawnFails (id : Handle) (spec : Spec) (m' : Manager) :
      m.launchChild id spec os = (m', none) →
      Moves m os (.spawnLaunch id spec) m' none [.launchChild id none, .spawnFailed id]
  | spawnLaunches (id : Handle) (spec : Spec) (m' : Manager) (l : Launched) :
      m.launchChild id spec os = (m', some l) →
      Moves m os (.spawnLaunch id spec) m' (some (.spawnInsert id spec l))
        [.launchChild id (some l)]
  | spawnInsert (id : Handle) (spec : Spec) (l : Launched) :
      Moves m os (.spawnInsert id spec l) (m.insertEntry id l) (some (.spawnSave id spec l)) []
  | spawnSave (id : Handle) (spec : Spec) (l : Launched) :
      Moves m os (.spawnSave id spec l) (m.persist id spec l.pid .running)
        (some (.spawnReturn id spec l)) []
  | spawnReturn (id : Handle) (spec : Spec) (l : Launched) :
      Moves m os (.spawnReturn id spec l) m (some (.supervise ⟨id, spec, l.child, 0, .wait⟩))
        [.spawned id l.pid]
  | wait (s : Sup) (code : Option ℤ) : s.pc = .wait →
      (m.children[s.child]?).bind Child.exit = some code →
      Moves m os (.supervise s) (m.recordExit s.id code)
        (some (.supervise { s with pc := .saveExit code }))
        (if (m.procs.lookup s.id).isSome then [.exitRecorded s.id s.child code] else [])
  | saveExit (s : Sup) (code : Option ℤ) : s.pc = .saveExit code →
      Moves m os (.supervise s) (m.saveExit s.id code)
        (some (.supervise { s with pc := .removeLeaf code })) []
  | removeLeaf (s : Sup) (code : Option ℤ) : s.pc = .removeLeaf code →
      Moves m os (.supervise s) (m.removeLeaf s.id os)
        (some (.supervise { s with pc := .readArmed code })) []
  | readArmed (s : Sup) (code : Option ℤ) : s.pc = .readArmed code →
      Moves m os (.supervise s) m
        (some (.supervise { s with pc := .readShutdown code (m.isArmed s.id) })) []
  | finished (s : Sup) (code : Option ℤ) (armed : Bool) : s.pc = .readShutdown code armed →
      (m.shutdown || !armed || !shouldRestart s.spec.policy code) = true →
      Moves m os (.supervise s) m none []
  | capHit (s : Sup) (code : Option ℤ) : s.pc = .readShutdown code true →
      m.shutdown = false → shouldRestart s.spec.policy code = true →
      s.spec.maxRetries ≠ 0 → s.spec.maxRetries < nextAttempt s.attempt os.uptime →
      Moves m os (.supervise s) m none [.capHit s.id]
  | toBackoff (s : Sup) (code : Option ℤ) : s.pc = .readShutdown code true →
      m.shutdown = false → shouldRestart s.spec.policy code = true →
      (s.spec.maxRetries = 0 ∨ nextAttempt s.attempt os.uptime ≤ s.spec.maxRetries) →
      Moves m os (.supervise s) m (some (.supervise { s with
          attempt := nextAttempt s.attempt os.uptime, pc := .backoff code }))
        [.backoff s.id (backoffDelay (nextAttempt s.attempt os.uptime))]
  | backoff (s : Sup) (code : Option ℤ) : s.pc = .backoff code →
      Moves m os (.supervise s) m
        (some (.supervise { s with pc := .rereadShutdown code (m.isArmed s.id) })) []
  | dropped (s : Sup) (code : Option ℤ) (armed : Bool) : s.pc = .rereadShutdown code armed →
      (m.shutdown || !armed) = true →
      Moves m os (.supervise s) m none []
  | toRelaunch (s : Sup) (code : Option ℤ) : s.pc = .rereadShutdown code true →
      m.shutdown = false →
      Moves m os (.supervise s) m (some (.supervise { s with pc := .relaunch code })) []
  | relaunchFails (s : Sup) (code : Option ℤ) (m' : Manager) : s.pc = .relaunch code →
      m.launchChild s.id s.spec os = (m', none) →
      Moves m os (.supervise s) m' none [.launchChild s.id none]
  | relaunches (s : Sup) (code : Option ℤ) (m' : Manager) (l : Launched) :
      s.pc = .relaunch code → m.launchChild s.id s.spec os = (m', some l) →
      Moves m os (.supervise s) m' (some (.supervise { s with pc := .applyLaunch code l }))
        [.launchChild s.id (some l)]
  | applyLaunch (s : Sup) (code : Option ℤ) (l : Launched) : s.pc = .applyLaunch code l →
      Moves m os (.supervise s) (m.applyLaunch s.id l)
        (some (.supervise { s with pc := .saveLaunch l })) []
  | saveLaunch (s : Sup) (l : Launched) : s.pc = .saveLaunch l →
      Moves m os (.supervise s) (m.persist s.id s.spec l.pid .running)
        (some (.supervise { s with child := l.child, pc := .wait })) []
  | stopFails (id : Handle) (e : ControlError) : m.disarm id = .error e →
      Moves m os (.stop id) m none [.stopped id (.error e)]
  | stop (id : Handle) (m' : Manager) (pid : Option Pid) : m.disarm id = .ok (m', pid) →
      Moves m os (.stop id) m' (some (.stopReturn id pid)) []
  | stopIdle (id : Handle) : Moves m os (.stopReturn id none) m none [.stopped id (.ok ())]
  | stopRunning (id : Handle) (pid : Pid) :
      Moves m os (.stopReturn id (some pid)) m (some (.terminate id pid)) [.stopped id (.ok ())]
  | terminate (id : Handle) (pid : Pid) :
      Moves m os (.terminate id pid) m (some (.terminateSleep id pid)) [.kill pid sigTerm]
  | terminateForces (id : Handle) (pid : Pid) : m.isRunning id = true →
      Moves m os (.terminateSleep id pid) m (some (.terminateForce id pid)) []
  | terminateEnds (id : Handle) (pid : Pid) : m.isRunning id = false →
      Moves m os (.terminateSleep id pid) m none []
  | terminateForce (id : Handle) (pid : Pid) :
      Moves m os (.terminateForce id pid) m none
        (if m.cgroups.isSome then [.cgroupKill id] else [.killGroup pid sigKill])
  | signalFails (id : Handle) (sig : ℤ) (e : ControlError) : m.signalPid id = .error e →
      Moves m os (.signal id sig) m none [.signalled id sig (.error e)]
  | signal (id : Handle) (sig : ℤ) (pid : Pid) : m.signalPid id = .ok pid →
      Moves m os (.signal id sig) m (some (.signalSend id pid sig)) []
  | signalInvalid (id : Handle) (pid : Pid) (sig : ℤ) : Signal.tryFrom sig = none →
      Moves m os (.signalSend id pid sig) m none
        [.signalled id sig (.error (.badRequest s!"invalid signal {sig}"))]
  | signalSend (id : Handle) (pid : Pid) (sig sig' : ℤ) : Signal.tryFrom sig = some sig' →
      Moves m os (.signalSend id pid sig) m none [.kill pid sig', .signalled id sig
        (if os.killed then .ok () else .error (.badRequest "signal delivery failed"))]
  | forgetFails (id : Handle) (e : ControlError) : m.removeEntry id = .error e →
      Moves m os (.forget id) m none [.forgotten id (.error e)]
  | forget (id : Handle) (m' : Manager) : m.removeEntry id = .ok m' →
      Moves m os (.forget id) m' (some (.forgetStore id)) []
  | forgetStore (id : Handle) :
      Moves m os (.forgetStore id) (m.removeRecord id) none [.forgotten id (.ok ())]
  | killAll : Moves m os .killAll { m with shutdown := true } (some .killAllSnapshot) []
  | killAllSnapshot : Moves m os .killAllSnapshot m (some (.killAllTerm m.runningPids)) []
  | killAllTerm (pids : List Pid) :
      Moves m os (.killAllTerm pids) m (some (.killAllPoll false pids))
        (pids.map (Event.kill · sigTerm))
  | killAllWaits (asleep : Bool) (pids : List Pid) : (os.expired || !m.anyRunning) = false →
      Moves m os (.killAllPoll asleep pids) m (some (.killAllPoll true pids)) []
  | killAllForces (asleep : Bool) (pids : List Pid) : (os.expired || !m.anyRunning) = true →
      Moves m os (.killAllPoll asleep pids) m (some (.killAllForce pids)) []
  | killAllCgroups (pids : List Pid) (cg : Cgroups) : m.cgroups = some cg →
      Moves m os (.killAllForce pids) { m with cgroups := some (cg.shutdown os.rmdir) } none
        [.cgroupShutdown, .killedAll]
  | killAllForce (pids : List Pid) : m.cgroups = none →
      Moves m os (.killAllForce pids) m none (pids.map (Event.killGroup · sigKill) ++ [.killedAll])

theorem Sup.advance_moves {s : Sup} {m m' : Manager} {os : Os} {next : Option Task}
    {evs : List Event} (h : s.advance m os = some (m', next, evs)) :
    Moves m os (.supervise s) m' next evs := by
  unfold Sup.advance at h
  cases hpc : s.pc with
  | wait =>
      rw [hpc] at h
      dsimp only at h
      cases hx : (m.children[s.child]?).bind Child.exit with
      | none => rw [hx] at h; cases h
      | some code => rw [hx] at h; cases h; exact .wait s code hpc hx
  | saveExit code => rw [hpc] at h; cases h; exact .saveExit s code hpc
  | removeLeaf code => rw [hpc] at h; cases h; exact .removeLeaf s code hpc
  | readArmed code => rw [hpc] at h; cases h; exact .readArmed s code hpc
  | readShutdown code armed =>
      rw [hpc] at h
      dsimp only at h
      split_ifs at h with h1 h2
      · cases h; exact .finished s code armed hpc h1
      all_goals
        simp only [Bool.or_eq_true, Bool.not_eq_true', not_or, Bool.not_eq_false,
          Bool.not_eq_true] at h1
        obtain ⟨⟨hs, rfl⟩, hr⟩ := h1
        cases h
        simp only [Bool.and_eq_true, bne_iff_ne, ne_eq, decide_eq_true_eq, not_and, not_lt] at h2
      · exact .capHit s code hpc hs hr h2.1 h2.2
      · exact .toBackoff s code hpc hs hr (or_iff_not_imp_left.mpr h2)
  | backoff code => rw [hpc] at h; cases h; exact .backoff s code hpc
  | rereadShutdown code armed =>
      rw [hpc] at h
      dsimp only at h
      split_ifs at h with h1
      · cases h; exact .dropped s code armed hpc h1
      · cases h
        simp only [Bool.or_eq_true, Bool.not_eq_true', not_or, Bool.not_eq_false] at h1
        obtain ⟨hs, rfl⟩ := h1
        exact .toRelaunch s code hpc (by simpa using hs)
  | relaunch code =>
      rw [hpc] at h
      dsimp only at h
      split at h
      · rename_i _ hl; cases h; exact .relaunchFails s code m' hpc hl
      · rename_i _ l hl; cases h; exact .relaunches s code m' l hpc hl
  | applyLaunch code l => rw [hpc] at h; cases h; exact .applyLaunch s code l hpc
  | saveLaunch l => rw [hpc] at h; cases h; exact .saveLaunch s l hpc

theorem advance_moves {m m' : Manager} {os : Os} {task : Task} {next : Option Task}
    {evs : List Event} (h : advance m os task = some (m', next, evs)) :
    Moves m os task m' next evs := by
  cases task with
  | spawn spec => cases h; exact .spawn spec
  | spawnLaunch id spec =>
      simp only [advance] at h
      split at h
      · rename_i _ hl; cases h; exact .spawnFails id spec m' hl
      · rename_i _ l hl; cases h; exact .spawnLaunches id spec m' l hl
  | spawnInsert id spec l => cases h; exact .spawnInsert id spec l
  | spawnSave id spec l => cases h; exact .spawnSave id spec l
  | spawnReturn id spec l => cases h; exact .spawnReturn id spec l
  | supervise s => exact Sup.advance_moves h
  | stop id =>
      simp only [advance] at h
      split at h
      · rename_i e hd; cases h; exact .stopFails id e hd
      · rename_i _ pid hd; cases h; exact .stop id m' pid hd
  | stopReturn id pid =>
      cases pid with
      | none => cases h; exact .stopIdle id
      | some pid => cases h; exact .stopRunning id pid
  | terminate id pid => cases h; exact .terminate id pid
  | terminateSleep id pid =>
      simp only [advance] at h
      split_ifs at h with hr
      · cases h; exact .terminateForces id pid hr
      · cases h; exact .terminateEnds id pid (by simpa using hr)
  | terminateForce id pid => cases h; exact .terminateForce id pid
  | signal id sig =>
      simp only [advance] at h
      split at h
      · rename_i e hd; cases h; exact .signalFails id sig e hd
      · rename_i pid hd; cases h; exact .signal id sig pid hd
  | signalSend id pid sig =>
      simp only [advance] at h
      split at h
      · rename_i hs; cases h; exact .signalInvalid id pid sig hs
      · rename_i sig' hs; cases h; exact .signalSend id pid sig sig' hs
  | forget id =>
      simp only [advance] at h
      split at h
      · rename_i e hd; cases h; exact .forgetFails id e hd
      · rename_i _ hd; cases h; exact .forget id m' hd
  | forgetStore id => cases h; exact .forgetStore id
  | killAll => cases h; exact .killAll
  | killAllSnapshot => cases h; exact .killAllSnapshot
  | killAllTerm pids => cases h; exact .killAllTerm pids
  | killAllPoll asleep pids =>
      simp only [advance] at h
      split_ifs at h with hx
      · cases h; exact .killAllForces asleep pids hx
      · cases h; exact .killAllWaits asleep pids (by simpa using hx)
  | killAllForce pids =>
      simp only [advance] at h
      split at h
      · rename_i cg hc; cases h; exact .killAllCgroups pids cg hc
      · rename_i hc; cases h; exact .killAllForce pids hc

theorem step_moves {w w' : World} {a : Action} {evs : List Event}
    (h : step w a = some (w', evs)) :
    (∃ t op, a = .call t op ∧ w.tasks t = none ∧ evs = [] ∧
      w' = ⟨w.mgr, Function.update w.tasks t (some op.task)⟩) ∨
    (∃ t os task m' next, a = .sched t os ∧ w.tasks t = some task ∧
      Moves w.mgr os task m' next evs ∧ w' = ⟨m', Function.update w.tasks t next⟩) ∨
    (∃ n code c, a = .exit n code ∧ w.mgr.children[n]? = some c ∧ c.alive = true ∧ evs = [] ∧
      w' = { w with mgr := w.mgr.exitChild n code }) := by
  rcases step_cases h with h | ⟨t, os, task, m', next, ha, ht, hadv, hw⟩ | h
  · exact .inl h
  · exact .inr (.inl ⟨t, os, task, m', next, ha, ht, advance_moves hadv, hw⟩)
  · exact .inr (.inr h)

theorem step_of_actor {w w' : World} {a : Action} {evs : List Event} {task : Task}
    (h : step w a = some (w', evs)) (hact : actor ⟨w, a, evs, w'⟩ = some task) :
    ∃ t os m' next, a = .sched t os ∧ w.tasks t = some task ∧ Moves w.mgr os task m' next evs ∧
      w' = ⟨m', Function.update w.tasks t next⟩ := by
  rcases step_moves h with ⟨t, op, rfl, -, -, -⟩ | ⟨t, os, task', m', next, rfl, ht, hm, hw⟩ |
    ⟨n, code, c, rfl, -, -, -, -⟩
  · cases hact
  · obtain rfl := Option.some.inj (ht.symm.trans hact)
    exact ⟨t, os, m', next, rfl, ht, hm, hw⟩
  · cases hact

theorem step_of_task {w w' : World} {t : ℕ} {os : Os} {evs : List Event} {task : Task}
    (h : step w (.sched t os) = some (w', evs)) (ht : w.tasks t = some task) :
    ∃ m' next, Moves w.mgr os task m' next evs ∧ w' = ⟨m', Function.update w.tasks t next⟩ := by
  obtain ⟨t', os', m', next, hx, -, hm, hw⟩ := step_of_actor h (show actor _ = some task from ht)
  cases hx
  exact ⟨m', next, hm, hw⟩

theorem step_tasks {w w' : World} {a : Action} {evs : List Event} {t : ℕ} {task : Task}
    (h : step w a = some (w', evs)) (ht : w.tasks t = some task) :
    w'.tasks t = some task ∨ ∃ os, a = .sched t os := by
  rcases step_cases h with ⟨t', op, -, hnone, -, rfl⟩ | ⟨t', os, -, -, -, rfl, -, -, rfl⟩ |
    ⟨-, -, -, -, -, -, -, rfl⟩
  · left
    have hne : t ≠ t' := by
      rintro rfl
      rw [ht] at hnone
      cases hnone
    exact (Function.update_of_ne hne _ _).trans ht
  · by_cases hne : t = t'
    · exact .inr ⟨os, by rw [hne]⟩
    · exact .inl ((Function.update_of_ne hne _ _).trans ht)
  · exact .inl ht

end

/-- What one step of a task may do to the table entry of `h`. -/
inductive EntryStep (h : Handle) : Task → Option ProcEntry → Option ProcEntry → Prop
  | same (task : Task) (e : Option ProcEntry) : EntryStep h task e e
  | insert (spec : Spec) (l : Launched) (e : Option ProcEntry) :
      EntryStep h (.spawnInsert h spec l) e
        (some ⟨l.pid, .running, some l.stdin, some l.stdout, 0, true⟩)
  | exit (s : Sup) (code : Option ℤ) (e : ProcEntry) : s.id = h → s.pc = .wait →
      EntryStep h (.supervise s) (some e) (some { e with status := .exited code })
  | relaunch (s : Sup) (code : Option ℤ) (l : Launched) (e : ProcEntry) : s.id = h →
      s.pc = .applyLaunch code l →
      EntryStep h (.supervise s) (some e) (some { e with
        pid := l.pid
        status := .running
        stdin := some l.stdin
        stdout := some l.stdout
        restarts := e.restarts + 1 })
  | disarm (e : ProcEntry) : EntryStep h (.stop h) (some e) (some { e with armed := false })
  | forget (e : ProcEntry) : e.status ≠ .running → EntryStep h (.forget h) (some e) none

namespace Moves

variable [Codec Record] {m m' : Manager} {os : Os} {task : Task} {next : Option Task}
  {evs : List Event}

theorem entry (hm : Moves m os task m' next evs) (h : Handle) :
    EntryStep h task (m.procs.lookup h) (m'.procs.lookup h) := by
  cases hm with
  | spawnFails _ _ _ hl | spawnLaunches _ _ _ _ hl | relaunchFails _ _ _ _ hl
  | relaunches _ _ _ _ _ hl =>
      rw [(Manager.launchChild_frame hl).1]
      exact .same _ _
  | spawnInsert id spec l =>
      rw [Manager.lookup_insertEntry]
      split_ifs with hid
      · subst hid; exact .insert spec l _
      · exact .same _ _
  | wait s code hpc hx =>
      rw [Manager.lookup_recordExit]
      split_ifs with hid
      · subst hid
        cases m.procs.lookup s.id with
        | none => exact .same _ _
        | some e => exact .exit s code e rfl hpc
      · exact .same _ _
  | applyLaunch s code l hpc =>
      rw [Manager.lookup_applyLaunch]
      split_ifs with hid
      · subst hid
        cases m.procs.lookup s.id with
        | none => exact .same _ _
        | some e => exact .relaunch s code l e rfl hpc
      · exact .same _ _
  | stop id _ pid hd =>
      obtain ⟨e, he, rfl, -⟩ := Manager.disarm_ok hd
      simp only [Table.lookup_modify]
      split_ifs with hid
      · subst hid; rw [he]; exact .disarm e
      · exact .same _ _
  | forget id _ hr =>
      obtain ⟨e, he, hrun, rfl⟩ := Manager.removeEntry_ok hr
      simp only [Table.lookup_erase_if]
      split_ifs with hid
      · subst hid; rw [he]; exact .forget e hrun
      · exact .same _ _
  | _ => exact .same _ _

theorem next_eq (hm : Moves m os task m' next evs) :
    m'.next = m.next ∨ (∃ spec, task = .spawn spec) ∧ m'.next = m.next + 1 := by
  cases hm with
  | spawn spec => exact .inr ⟨⟨spec, rfl⟩, rfl⟩
  | spawnFails _ _ _ hl | spawnLaunches _ _ _ _ hl | relaunchFails _ _ _ _ hl
  | relaunches _ _ _ _ _ hl =>
      exact .inl (Manager.launchChild_frame hl).2.1
  | stop id _ pid hd => obtain ⟨_, _, rfl, _⟩ := Manager.disarm_ok hd; exact .inl rfl
  | forget id _ hr => obtain ⟨_, _, _, rfl⟩ := Manager.removeEntry_ok hr; exact .inl rfl
  | _ => exact .inl rfl

theorem next_le (hm : Moves m os task m' next evs) : m.next ≤ m'.next := by
  rcases hm.next_eq with h | ⟨-, h⟩ <;> lia

theorem shutdown_mono (hm : Moves m os task m' next evs) (h : m.shutdown = true) :
    m'.shutdown = true := by
  cases hm with
  | spawnFails _ _ _ hl | spawnLaunches _ _ _ _ hl | relaunchFails _ _ _ _ hl
  | relaunches _ _ _ _ _ hl =>
      rw [(Manager.launchChild_frame hl).2.2.2, h]
  | stop id _ pid hd => obtain ⟨_, _, rfl, _⟩ := Manager.disarm_ok hd; exact h
  | forget id _ hr => obtain ⟨_, _, _, rfl⟩ := Manager.removeEntry_ok hr; exact h
  | killAll => rfl
  | _ => exact h

theorem children_eq (hm : Moves m os task m' next evs) :
    m'.children = m.children ∨
      ∃ id spec pid l, m'.children = m.children ++ [⟨id, spec, pid, none⟩] ∧
        l.child = m.children.length ∧ l.pid = pid ∧
        ((task = .spawnLaunch id spec ∧ next = some (.spawnInsert id spec l)) ∨
          ∃ s code, task = .supervise s ∧ s.pc = .relaunch code ∧ s.id = id ∧ s.spec = spec ∧
            next = some (.supervise { s with pc := .applyLaunch code l })) := by
  cases hm with
  | spawnFails id spec _ hl => exact .inl (Manager.launchChild_none hl)
  | spawnLaunches id spec _ l hl =>
      obtain ⟨h1, h2⟩ := Manager.launchChild_some hl
      exact .inr ⟨id, spec, l.pid, l, h2, by rw [h1], rfl, .inl ⟨rfl, rfl⟩⟩
  | relaunchFails s _ _ _ hl => exact .inl (Manager.launchChild_none hl)
  | relaunches s code _ l hpc hl =>
      obtain ⟨h1, h2⟩ := Manager.launchChild_some hl
      exact .inr ⟨s.id, s.spec, l.pid, l, h2, by rw [h1], rfl, .inr ⟨s, code, rfl, hpc, rfl, rfl, rfl⟩⟩
  | stop id _ pid hd => obtain ⟨_, _, rfl, _⟩ := Manager.disarm_ok hd; exact .inl rfl
  | forget id _ hr => obtain ⟨_, _, _, rfl⟩ := Manager.removeEntry_ok hr; exact .inl rfl
  | _ => exact .inl rfl

theorem children_get (hm : Moves m os task m' next evs) {n : LaunchId} {c : Child}
    (hc : m.children[n]? = some c) : m'.children[n]? = some c := by
  rcases hm.children_eq with heq | ⟨id, spec, pid, l, heq, -⟩
  · rw [heq]; exact hc
  · rw [heq, List.getElem?_append_left (List.getElem?_eq_some_iff.mp hc).1]
    exact hc

theorem store_eq (hm : Moves m os task m' next evs) :
    m'.store = m.store ∨
    (∃ id spec pid, m'.store = m.store.map (·.put id ⟨spec.cmd, spec.args, spec.env, pid, .running⟩) ∧
      ((∃ l, task = .spawnSave id spec l ∧ l.pid = pid) ∨
        ∃ s l, task = .supervise s ∧ s.pc = .saveLaunch l ∧ s.id = id ∧ s.spec = spec ∧
          l.pid = pid)) ∨
    (∃ s code, task = .supervise s ∧ s.pc = .saveExit code ∧
      m'.store = (m.saveExit s.id code).store) ∨
    (∃ id, task = .forgetStore id ∧ m'.store = m.store.map (·.remove id)) := by
  cases hm with
  | spawnFails _ _ _ hl | spawnLaunches _ _ _ _ hl | relaunchFails _ _ _ _ hl
  | relaunches _ _ _ _ _ hl =>
      exact .inl (Manager.launchChild_frame hl).2.2.1
  | stop id _ pid hd => obtain ⟨_, _, rfl, _⟩ := Manager.disarm_ok hd; exact .inl rfl
  | forget id _ hr => obtain ⟨_, _, _, rfl⟩ := Manager.removeEntry_ok hr; exact .inl rfl
  | spawnSave id spec l => exact .inr (.inl ⟨id, spec, l.pid, rfl, .inl ⟨l, rfl, rfl⟩⟩)
  | saveLaunch s l hpc =>
      exact .inr (.inl ⟨s.id, s.spec, l.pid, rfl, .inr ⟨s, l, rfl, hpc, rfl, rfl, rfl⟩⟩)
  | saveExit s code hpc => exact .inr (.inr (.inl ⟨s, code, rfl, hpc, rfl⟩))
  | forgetStore id => exact .inr (.inr (.inr ⟨id, rfl, rfl⟩))
  | _ => exact .inl rfl

/-! ### Who emits what -/

theorem launchChild_mem (hm : Moves m os task m' next evs) {id : Handle} {r : Option Launched}
    (h : .launchChild id r ∈ evs) : (∃ spec, task = .spawnLaunch id spec) ∨
      ∃ s code, task = .supervise s ∧ s.id = id ∧ s.pc = .relaunch code := by
  cases hm with
  | spawnFails _ spec | spawnLaunches _ spec =>
      simp only [List.mem_cons, List.not_mem_nil, Event.launchChild.injEq, reduceCtorEq,
        or_false] at h
      exact .inl ⟨spec, by rw [h.1]⟩
  | relaunchFails s code _ hpc | relaunches s code _ _ hpc =>
      simp only [List.mem_cons, List.not_mem_nil, Event.launchChild.injEq, or_false] at h
      exact .inr ⟨s, code, rfl, h.1.symm, hpc⟩
  | wait s code hpc hx => split_ifs at h <;> simp at h
  | terminateForce id pid => split_ifs at h <;> simp at h
  | _ => simp at h

theorem stopped_mem (hm : Moves m os task m' next evs) {id : Handle}
    (h : .stopped id (.ok ()) ∈ evs) : ∃ pid, task = .stopReturn id pid := by
  cases hm with
  | stopIdle | stopRunning =>
      simp only [List.mem_singleton, Event.stopped.injEq, and_true] at h
      exact ⟨_, by rw [h]⟩
  | wait s code hpc hx => split_ifs at h <;> simp at h
  | terminateForce id pid => split_ifs at h <;> simp at h
  | _ => simp at h

theorem forgotten_mem (hm : Moves m os task m' next evs) {id : Handle}
    (h : .forgotten id (.ok ()) ∈ evs) : task = .forgetStore id := by
  cases hm with
  | forgetStore _ =>
      simp only [List.mem_singleton, Event.forgotten.injEq, and_true] at h
      rw [h]
  | wait s code hpc hx => split_ifs at h <;> simp at h
  | terminateForce id pid => split_ifs at h <;> simp at h
  | _ => simp at h

end Moves

/-! ### What a transition can do -/

section
variable [Codec Record] {w w' : World} {a : Action} {evs : List Event}

theorem task_origin (h : step w a = some (w', evs)) {t : ℕ} {task' : Task}
    (ht : w'.tasks t = some task') :
    w.tasks t = some task' ∨ (∃ op : Call, task' = op.task) ∨
      ∃ os task, a = .sched t os ∧ w.tasks t = some task ∧
        Moves w.mgr os task w'.mgr (some task') evs ∧
        w' = ⟨w'.mgr, Function.update w.tasks t (some task')⟩ := by
  rcases step_moves h with ⟨t₀, op, -, -, -, rfl⟩ | ⟨t₀, os, task, m', next, rfl, ht₀, hm, rfl⟩ |
    ⟨n, code, c, -, -, -, -, rfl⟩
  · rcases tasks_update ht with ⟨-, hn⟩ | ⟨-, ht⟩
    · exact .inr (.inl ⟨op, (Option.some.inj hn).symm⟩)
    · exact .inl ht
  · rcases tasks_update ht with ⟨rfl, rfl⟩ | ⟨-, ht⟩
    · exact .inr (.inr ⟨os, task, rfl, ht₀, hm, rfl⟩)
    · exact .inl ht
  · exact .inl ht

/-- Every transition but a step of a task leaves the table, the counter, the store and the
shutdown flag alone, and emits nothing. -/
theorem step_acts (h : step w a = some (w', evs)) :
    (∃ t os task next, a = .sched t os ∧ w.tasks t = some task ∧
      Moves w.mgr os task w'.mgr next evs) ∨
    (w'.mgr.procs = w.mgr.procs ∧ w'.mgr.next = w.mgr.next ∧ w'.mgr.store = w.mgr.store ∧
      w'.mgr.shutdown = w.mgr.shutdown ∧ evs = []) := by
  rcases step_moves h with ⟨t, op, -, -, rfl, rfl⟩ | ⟨t, os, task, m', next, rfl, ht, hm, rfl⟩ |
    ⟨n, code, c, -, -, -, rfl, rfl⟩
  · exact .inr ⟨rfl, rfl, rfl, rfl, rfl⟩
  · exact .inl ⟨t, os, task, next, rfl, ht, hm⟩
  · exact .inr ⟨rfl, rfl, rfl, rfl, rfl⟩

theorem step_next_le (h : step w a = some (w', evs)) : w.mgr.next ≤ w'.mgr.next := by
  rcases step_acts h with ⟨t, os, task, next, -, -, hm⟩ | ⟨-, hn, -⟩
  · exact hm.next_le
  · exact hn.ge

theorem step_shutdown_mono (h : step w a = some (w', evs)) (hs : w.mgr.shutdown = true) :
    w'.mgr.shutdown = true := by
  rcases step_acts h with ⟨t, os, task, next, -, -, hm⟩ | ⟨-, -, -, hx, -⟩
  · exact hm.shutdown_mono hs
  · rw [hx, hs]

theorem step_entry (h : step w a = some (w', evs)) (id : Handle) :
    w'.mgr.procs.lookup id = w.mgr.procs.lookup id ∨
      ∃ t os task, a = .sched t os ∧ w.tasks t = some task ∧
        EntryStep id task (w.mgr.procs.lookup id) (w'.mgr.procs.lookup id) := by
  rcases step_acts h with ⟨t, os, task, next, ha, ht, hm⟩ | ⟨hp, -⟩
  · exact .inr ⟨t, os, task, ha, ht, hm.entry id⟩
  · exact .inl (by rw [hp])

/-- A child keeps its launch, and once exited it stays so. -/
theorem step_child (h : step w a = some (w', evs)) {n : LaunchId} {c : Child}
    (hc : w.mgr.children[n]? = some c) :
    ∃ c', w'.mgr.children[n]? = some c' ∧ c'.handle = c.handle ∧ c'.spec = c.spec ∧
      c'.pid = c.pid ∧ (c.alive = false → c'.exit = c.exit) := by
  rcases step_moves h with ⟨t, op, -, -, -, rfl⟩ | ⟨t, os, task, m', next, -, -, hm, rfl⟩ |
    ⟨k, code, c₀, -, hk, halive, -, rfl⟩
  · exact ⟨c, hc, rfl, rfl, rfl, fun _ => rfl⟩
  · exact ⟨c, hm.children_get hc, rfl, rfl, rfl, fun _ => rfl⟩
  · simp only [Manager.exitChild, List.getElem?_modify]
    by_cases hkn : k = n
    · subst hkn
      obtain rfl := Option.some.inj (hk.symm.trans hc)
      refine ⟨{ c₀ with exit := some code }, by rw [hc]; simp, rfl, rfl, rfl, ?_⟩
      intro hd
      rw [hd] at halive
      cases halive
    · exact ⟨c, by rw [hc]; simp [hkn], rfl, rfl, rfl, fun _ => rfl⟩

end

end MeshSupervisor
