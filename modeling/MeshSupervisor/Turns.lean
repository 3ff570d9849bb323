import MeshSupervisor.Ownership

/-! # Scheduling at await points

On a runtime that switches tasks only at await points and task starts, a task runs from
one such point to the next without interruption: one *turn*.  `runTurn` iterates `advance`
up to the next await point, `turn` is the transition system of whole turns.  The
operations `spawn`, `stop`, `signal` and `forget` have no await point: a call of one is a
single turn.

* `TurnStep` lists what a turn can do, one constructor for each path from an await point to
  the next; `turn_cases` is the inversion lemma.
* `turn_run`: a turn is a run of atomic steps, so every invariant of the step-by-step
  interleaving holds along runs of turns (`inv_turns`). -/

namespace MeshSupervisor

open Wire (Codec)

/-- The task is suspended: at an await point, or not started yet. -/
def Task.atAwait : Task → Bool
  | .supervise s =>
      match s.pc with
      | .wait | .backoff _ => true
      | _ => false
  | .terminate _ _ | .terminateSleep _ _ | .killAllPoll true _ => true
  | _ => false

/-- A choice of the scheduler or the environment. -/
inductive Turn where
  /-- An operation is called and runs to its return or its first await point. -/
  | call (t : ℕ) (op : Call) (os : Os)
  /-- Task `t` runs to its next await point. -/
  | sched (t : ℕ) (os : Os)
  | exit (n : LaunchId) (code : Option ℤ)

section
variable [Codec Record]

/-- Run a task up to its next await point; no path is longer than five steps. -/
def runTurn (os : Os) : ℕ → Manager → Task → Option Advance
  | 0, m, task => some (m, some task, [])
  | n + 1, m, task =>
      match advance m os task with
      | none => none
      | some (m', none, evs) => some (m', none, evs)
      | some (m', some task', evs) =>
          if task'.atAwait then some (m', some task', evs)
          else
            match runTurn os n m' task' with
            | none => none
            | some (m'', next, evs') => some (m'', next, evs ++ evs')

/-- One turn of the system. -/
def turn (w : World) : Turn → Option (World × List Event)
  | .call t op os =>
      if (w.tasks t).isNone then (runTurn os 5 w.mgr op.task).map (w.commit t) else none
  | .sched t os =>
      match w.tasks t with
      | none => none
      | some task => (runTurn os 5 w.mgr task).map (w.commit t)
  | .exit n code => w.exitChild n code

/-! ### What a turn can do -/

/-- The last step of `kill_all`. -/
def Manager.force (m : Manager) (os : Os) (pids : List Pid) : Manager × List Event :=
  match m.cgroups with
  | some cg => ({ m with cgroups := some (cg.shutdown os.rmdir) }, [.cgroupShutdown, .killedAll])
  | none => (m, pids.map (Event.killGroup · sigKill) ++ [.killedAll])

/-- The manager after `supervise` has recorded an exit. -/
def Manager.exitTurn (m : Manager) (id : Handle) (code : Option ℤ) (os : Os) : Manager :=
  ((m.recordExit id code).saveExit id code).removeLeaf id os

/-- The event of a recorded exit. -/
def exitEvents (m : Manager) (s : Sup) (code : Option ℤ) : List Event :=
  if (m.procs.lookup s.id).isSome then [.exitRecorded s.id s.child code] else []

/-- The turns of a task, one constructor for each path to the next await point. -/
inductive TurnStep (m : Manager) (os : Os) : Task → Manager → Option Task → List Event → Prop
  | spawnFails (spec : Spec) (m' : Manager) :
      Manager.launchChild { m with next := m.next + 1 } (m.next + 1) spec os = (m', none) →
      TurnStep m os (.spawn spec) m' none
        [.launchChild (m.next + 1) none, .spawnFailed (m.next + 1)]
  | spawns (spec : Spec) (m' : Manager) (l : Launched) :
      Manager.launchChild { m with next := m.next + 1 } (m.next + 1) spec os = (m', some l) →
      TurnStep m os (.spawn spec)
        ((m'.insertEntry (m.next + 1) l).persist (m.next + 1) spec l.pid .running)
        (some (.supervise ⟨m.next + 1, spec, l.child, 0, .wait⟩))
        [.launchChild (m.next + 1) (some l), .spawned (m.next + 1) l.pid]
  | stopFails (id : Handle) (e : ControlError) : m.disarm id = .error e →
      TurnStep m os (.stop id) m none [.stopped id (.error e)]
  | stopIdle (id : Handle) (m' : Manager) : m.disarm id = .ok (m', none) →
      TurnStep m os (.stop id) m' none [.stopped id (.ok ())]
  | stopRunning (id : Handle) (m' : Manager) (pid : Pid) : m.disarm id = .ok (m', some pid) →
      TurnStep m os (.stop id) m' (some (.terminate id pid)) [.stopped id (.ok ())]
  | signalFails (id : Handle) (sig : ℤ) (e : ControlError) : m.signalPid id = .error e →
      TurnStep m os (.signal id sig) m none [.signalled id sig (.error e)]
  | signalInvalid (id : Handle) (sig : ℤ) (pid : Pid) : m.signalPid id = .ok pid →
      Signal.tryFrom sig = none → TurnStep m os (.signal id sig) m none
        [.signalled id sig (.error (.badRequest s!"invalid signal {sig}"))]
  | signals (id : Handle) (sig sig' : ℤ) (pid : Pid) : m.signalPid id = .ok pid →
      Signal.tryFrom sig = some sig' →
      TurnStep m os (.signal id sig) m none [.kill pid sig', .signalled id sig
        (if os.killed then .ok () else .error (.badRequest "signal delivery failed"))]
  | forgetFails (id : Handle) (e : ControlError) : m.removeEntry id = .error e →
      TurnStep m os (.forget id) m none [.forgotten id (.error e)]
  | forgets (id : Handle) (m' : Manager) : m.removeEntry id = .ok m' →
      TurnStep m os (.forget id) (m'.removeRecord id) none [.forgotten id (.ok ())]
  | killAllWaits : (os.expired || !m.anyRunning) = false →
      TurnStep m os .killAll { m with shutdown := true } (some (.killAllPoll true m.runningPids))
        (m.runningPids.map (Event.kill · sigTerm))
  | killAllReturns : (os.expired || !m.anyRunning) = true →
      TurnStep m os .killAll (Manager.force { m with shutdown := true } os m.runningPids).1 none
        (m.runningPids.map (Event.kill · sigTerm) ++
          (Manager.force { m with shutdown := true } os m.runningPids).2)
  | pollWaits (pids : List Pid) : (os.expired || !m.anyRunning) = false →
      TurnStep m os (.killAllPoll true pids) m (some (.killAllPoll true pids)) []
  | pollReturns (pids : List Pid) : (os.expired || !m.anyRunning) = true →
      TurnStep m os (.killAllPoll true pids) (m.force os pids).1 none (m.force os pids).2
  | exitEnds (s : Sup) (code : Option ℤ) (evs : List Event) : s.pc = .wait →
      (m.children[s.child]?).bind Child.exit = some code → (evs = [] ∨ evs = [.capHit s.id]) →
      TurnStep m os (.supervise s) (m.exitTurn s.id code os) none (exitEvents m s code ++ evs)
  | exitBacksOff (s : Sup) (code : Option ℤ) (attempt : ℕ) : s.pc = .wait →
      (m.children[s.child]?).bind Child.exit = some code →
      shouldRestart s.spec.policy code = true →
      TurnStep m os (.supervise s) (m.exitTurn s.id code os)
        (some (.supervise { s with attempt := attempt, pc := .backoff code }))
        (exitEvents m s code ++ [.backoff s.id (backoffDelay attempt)])
  | dropped (s : Sup) (code : Option ℤ) : s.pc = .backoff code →
      (m.shutdown || !m.isArmed s.id) = true → TurnStep m os (.supervise s) m none []
  | relaunchFails (s : Sup) (code : Option ℤ) (m' : Manager) : s.pc = .backoff code →
      m.launchChild s.id s.spec os = (m', none) →
      TurnStep m os (.supervise s) m' none [.launchChild s.id none]
  | relaunches (s : Sup) (code : Option ℤ) (m' : Manager) (l : Launched) : s.pc = .backoff code →
      m.isArmed s.id = true → m.shutdown = false →
      m.launchChild s.id s.spec os = (m', some l) →
      TurnStep m os (.supervise s) ((m'.applyLaunch s.id l).persist s.id s.spec l.pid .running)
        (some (.supervise { s with child := l.child, pc := .wait }))
        [.launchChild s.id (some l)]
  | terminate (id : Handle) (pid : Pid) :
      TurnStep m os (.terminate id pid) m (some (.terminateSleep id pid)) [.kill pid sigTerm]
  | terminateEnds (id : Handle) (pid : Pid) : m.isRunning id = false →
      TurnStep m os (.terminateSleep id pid) m none []
  | terminateForces (id : Handle) (pid : Pid) : m.isRunning id = true →
      TurnStep m os (.terminateSleep id pid) m none
        (if m.cgroups.isSome then [.cgroupKill id] else [.killGroup pid sigKill])

section
variable {m m' : Manager} {os : Os} {next : Option Task} {evs : List Event}

theorem runTurn_step {task task₁ : Task} {m₁ : Manager} {evs₁ : List Event} (n : ℕ)
    (ha : advance m os task = some (m₁, some task₁, evs₁)) (hw : task₁.atAwait = false) :
    runTurn os (n + 1) m task =
      (runTurn os n m₁ task₁).map (fun r => (r.1, r.2.1, evs₁ ++ r.2.2)) := by
  simp only [runTurn, ha, hw]
  cases runTurn os n m₁ task₁ <;> rfl

theorem runTurn_await {task task₁ : Task} {m₁ : Manager} {evs₁ : List Event} (n : ℕ)
    (ha : advance m os task = some (m₁, some task₁, evs₁)) (hw : task₁.atAwait = true) :
    runTurn os (n + 1) m task = some (m₁, some task₁, evs₁) := by
  simp only [runTurn, ha, hw, if_true]

theorem runTurn_return {task : Task} {m₁ : Manager} {evs₁ : List Event} (n : ℕ)
    (ha : advance m os task = some (m₁, none, evs₁)) :
    runTurn os (n + 1) m task = some (m₁, none, evs₁) := by
  simp only [runTurn, ha]

/-- The turn of `supervise` after an exit, up to its decision. -/
theorem runTurn_wait {s : Sup} {code : Option ℤ} (hpc : s.pc = .wait)
    (hx : (m.children[s.child]?).bind Child.exit = some code) :
    runTurn os 5 m (.supervise s) =
      (runTurn os 1 (m.exitTurn s.id code os) (.supervise { s with
        pc := .readShutdown code ((m.exitTurn s.id code os).isArmed s.id) })).map
        (fun r => (r.1, r.2.1, exitEvents m s code ++ r.2.2)) := by
  rw [runTurn_step 4 (by simp only [advance, Sup.advance, hpc, hx]; rfl) rfl,
    runTurn_step 3 rfl rfl, runTurn_step 2 rfl rfl, runTurn_step 1 rfl rfl]
  simp only [Option.map_map]
  rfl

theorem turnStep_wait {s : Sup} {code : Option ℤ} (hpc : s.pc = .wait)
    (hx : (m.children[s.child]?).bind Child.exit = some code)
    (h : runTurn os 5 m (.supervise s) = some (m', next, evs)) :
    TurnStep m os (.supervise s) m' next evs := by
  rw [runTurn_wait hpc hx] at h
  by_cases hend : ((m.exitTurn s.id code os).shutdown ||
      !(m.exitTurn s.id code os).isArmed s.id || !shouldRestart s.spec.policy code) = true
  · rw [runTurn_return 0 (by simp only [advance, Sup.advance, if_pos hend]; rfl)] at h
    cases h
    exact .exitEnds s code [] hpc hx (.inl rfl)
  · by_cases hcap : (s.spec.maxRetries != 0 &&
        decide (s.spec.maxRetries < nextAttempt s.attempt os.uptime)) = true
    · rw [runTurn_return 0 (by simp only [advance, Sup.advance, if_neg hend, if_pos hcap]; rfl)] at h
      cases h
      exact .exitEnds s code _ hpc hx (.inr rfl)
    · rw [runTurn_await 0 (by simp only [advance, Sup.advance, if_neg hend, if_neg hcap]; rfl) rfl] at h
      cases h
      simp only [Bool.or_eq_true, Bool.not_eq_true', not_or, Bool.not_eq_false] at hend
      exact .exitBacksOff s code _ hpc hx hend.2

theorem turnStep_backoff {s : Sup} {code : Option ℤ} (hpc : s.pc = .backoff code)
    (h : runTurn os 5 m (.supervise s) = some (m', next, evs)) :
    TurnStep m os (.supervise s) m' next evs := by
  rw [runTurn_step 4 (by simp only [advance, Sup.advance, hpc]; rfl) rfl] at h
  by_cases hdrop : (m.shutdown || !m.isArmed s.id) = true
  · rw [runTurn_return 3 (by simp only [advance, Sup.advance, if_pos hdrop]; rfl)] at h
    cases h
    exact .dropped s code hpc hdrop
  · rw [runTurn_step 3 (by simp only [advance, Sup.advance, if_neg hdrop]; rfl) rfl] at h
    simp only [Bool.or_eq_true, Bool.not_eq_true', not_or, Bool.not_eq_false, Bool.not_eq_true] at hdrop
    cases hl : m.launchChild s.id s.spec os with
    | mk m₁ r =>
        cases r with
        | none =>
            rw [runTurn_return 2 (by simp only [advance, Sup.advance, hl]; rfl)] at h
            cases h
            exact .relaunchFails s code m₁ hpc hl
        | some l =>
            rw [runTurn_step 2 (by simp only [advance, Sup.advance, hl]; rfl) rfl,
              runTurn_step 1 rfl rfl, runTurn_await 0 rfl rfl] at h
            cases h
            exact .relaunches s code m₁ l hpc hdrop.2 hdrop.1 hl

theorem runTurn_force (n : ℕ) (m : Manager) (pids : List Pid) :
    runTurn os (n + 1) m (.killAllForce pids) = some ((m.force os pids).1, none, (m.force os pids).2) := by
  cases hc : m.cgroups with
  | none => rw [runTurn_return n (by simp only [advance, hc]; rfl)]; simp only [Manager.force, hc]
  | some cg => rw [runTurn_return n (by simp only [advance, hc]; rfl)]; simp only [Manager.force, hc]

theorem turnStep {task : Task} (ht : task.atAwait = true ∨ ∃ op : Call, task = op.task)
    (h : runTurn os 5 m task = some (m', next, evs)) : TurnStep m os task m' next evs := by
  cases task with
  | spawn spec =>
      rw [runTurn_step 4 rfl rfl] at h
      cases hl : Manager.launchChild { m with next := m.next + 1 } (m.next + 1) spec os with
      | mk m₁ r =>
          cases r with
          | none =>
              rw [runTurn_return 3 (by simp only [advance, Manager.fetchAdd, hl]; rfl)] at h
              cases h
              exact .spawnFails spec m₁ hl
          | some l =>
              rw [runTurn_step 3 (by simp only [advance, Manager.fetchAdd, hl]; rfl) rfl,
                runTurn_step 2 rfl rfl, runTurn_step 1 rfl rfl, runTurn_await 0 rfl rfl] at h
              cases h
              exact .spawns spec m₁ l hl
  | stop id =>
      cases hd : m.disarm id with
      | error e =>
          rw [runTurn_return 4 (by simp only [advance, hd]; rfl)] at h
          cases h
          exact .stopFails id e hd
      | ok r =>
          obtain ⟨m₁, pid⟩ := r
          rw [runTurn_step 4 (by simp only [advance, hd]; rfl) rfl] at h
          cases pid with
          | none =>
              rw [runTurn_return 3 rfl] at h
              cases h
              exact .stopIdle id m₁ hd
          | some pid =>
              rw [runTurn_await 3 rfl rfl] at h
              cases h
              exact .stopRunning id m₁ pid hd
  | signal id sig =>
      cases hd : m.signalPid id with
      | error e =>
          rw [runTurn_return 4 (by simp only [advance, hd]; rfl)] at h
          cases h
          exact .signalFails id sig e hd
      | ok pid =>
          rw [runTurn_step 4 (by simp only [advance, hd]; rfl) rfl] at h
          cases hs : Signal.tryFrom sig with
          | none =>
              rw [runTurn_return 3 (by simp only [advance, hs]; rfl)] at h
              cases h
              exact .signalInvalid id sig pid hd hs
          | some sig' =>
              rw [runTurn_return 3 (by simp only [advance, hs]; rfl)] at h
              cases h
              exact .signals id sig sig' pid hd hs
  | forget id =>
      cases hr : m.removeEntry id with
      | error e =>
          rw [runTurn_return 4 (by simp only [advance, hr]; rfl)] at h
          cases h
          exact .forgetFails id e hr
      | ok m₁ =>
          rw [runTurn_step 4 (by simp only [advance, hr]; rfl) rfl, runTurn_return 3 rfl] at h
          cases h
          exact .forgets id m₁ hr
  | killAll =>
      rw [runTurn_step 4 rfl rfl, runTurn_step 3 rfl rfl, runTurn_step 2 rfl rfl] at h
      cases hx : (os.expired || !m.anyRunning) with
      | false =>
          rw [runTurn_await 1 (by simp only [advance]; exact if_neg (by rw [Bool.not_eq_true]; exact hx)) rfl] at h
          cases h
          show TurnStep m os .killAll _ _ (m.runningPids.map (Event.kill · sigTerm) ++ [])
          rw [List.append_nil]
          exact .killAllWaits hx
      | true =>
          rw [runTurn_step 1 (by simp only [advance]; exact if_pos hx) rfl, runTurn_force] at h
          cases h
          exact .killAllReturns hx
  | killAllPoll asleep pids =>
      cases asleep with
      | false => rcases ht with ht | ⟨op, hop⟩ <;> [cases ht; (cases op <;> cases hop)]
      | true =>
          cases hx : (os.expired || !m.anyRunning) with
          | false =>
              rw [runTurn_await 4 (by simp only [advance]; exact if_neg (by rw [Bool.not_eq_true]; exact hx)) rfl] at h
              cases h
              exact .pollWaits pids hx
          | true =>
              rw [runTurn_step 4 (by simp only [advance]; exact if_pos hx) rfl, runTurn_force] at h
              cases h
              exact .pollReturns pids hx
  | supervise s =>
      cases hpc : s.pc with
      | wait =>
          cases hx : (m.children[s.child]?).bind Child.exit with
          | none => simp only [runTurn, advance, Sup.advance, hpc, hx] at h; cases h
          | some code => exact turnStep_wait hpc hx h
      | backoff code => exact turnStep_backoff hpc h
      | _ =>
          rcases ht with ht | ⟨op, hop⟩
          · simp [Task.atAwait, hpc] at ht
          · cases op <;> cases hop
  | terminate id pid =>
      rw [runTurn_await 4 rfl rfl] at h
      cases h
      exact .terminate id pid
  | terminateSleep id pid =>
      cases hr : m.isRunning id with
      | false =>
          rw [runTurn_return 4 (by simp only [advance, hr]; rfl)] at h
          cases h
          exact .terminateEnds id pid hr
      | true =>
          rw [runTurn_step 4 (by simp only [advance, hr]; rfl) rfl, runTurn_return 3 rfl] at h
          cases h
          exact .terminateForces id pid hr
  | _ =>
      rcases ht with ht | ⟨op, hop⟩
      · cases ht
      · cases op <;> cases hop

omit [Codec Record] in
theorem exitEvents_mem {s : Sup} {code : Option ℤ} {ev : Event}
    (h : ev ∈ exitEvents m s code) : ev = .exitRecorded s.id s.child code := by
  unfold exitEvents at h
  split_ifs at h
  · exact List.mem_singleton.mp h
  · cases h

omit [Codec Record] in
theorem exitEnds_mem {s : Sup} {code : Option ℤ} {evs' : List Event} {ev : Event}
    (hevs : evs' = [] ∨ evs' = [.capHit s.id]) (h : ev ∈ exitEvents m s code ++ evs') :
    ev = .exitRecorded s.id s.child code ∨ ev = .capHit s.id := by
  apply (List.mem_append.mp h).imp exitEvents_mem
  intro hev
  rcases hevs with rfl | rfl
  · cases hev
  · exact List.mem_singleton.mp hev

omit [Codec Record] in
theorem exitBacksOff_mem {s : Sup} {code : Option ℤ} {d : Duration} {ev : Event}
    (h : ev ∈ exitEvents m s code ++ [.backoff s.id d]) :
    ev = .exitRecorded s.id s.child code ∨ ev = .backoff s.id d :=
  (List.mem_append.mp h).imp exitEvents_mem List.mem_singleton.mp

/-- What one turn of a task may do to the table entry of `h`. -/
inductive TurnEntry (m : Manager) (h : Handle) : Task → Option ProcEntry → Option ProcEntry → Prop
  | same (task : Task) (e : Option ProcEntry) : TurnEntry m h task e e
  | insert (spec : Spec) (l : Launched) (e : Option ProcEntry) : h = m.next + 1 →
      TurnEntry m h (.spawn spec) e (some ⟨l.pid, .running, some l.stdin, some l.stdout, 0, true⟩)
  | exit (s : Sup) (code : Option ℤ) (e : ProcEntry) : s.id = h → s.pc = .wait →
      TurnEntry m h (.supervise s) (some e) (some { e with status := .exited code })
  | relaunch (s : Sup) (code : Option ℤ) (l : Launched) (e : ProcEntry) : s.id = h →
      s.pc = .backoff code → e.armed = true → m.shutdown = false →
      TurnEntry m h (.supervise s) (some e) (some { e with
        pid := l.pid
        status := .running
        stdin := some l.stdin
        stdout := some l.stdout
        restarts := e.restarts + 1 })
  | disarm (e : ProcEntry) : TurnEntry m h (.stop h) (some e) (some { e with armed := false })
  | forget (e : ProcEntry) : e.status ≠ .running → TurnEntry m h (.forget h) (some e) none

omit [Codec Record] in
theorem Manager.force_frame (m : Manager) (os : Os) (pids : List Pid) :
    (m.force os pids).1.store = m.store ∧ (m.force os pids).1.procs = m.procs ∧
      (m.force os pids).1.children = m.children ∧
      (m.force os pids).1.cgroups.isSome = m.cgroups.isSome ∧
      (m.force os pids).1.shutdown = m.shutdown := by
  unfold Manager.force
  cases hc : m.cgroups <;> exact ⟨rfl, rfl, rfl, by simp [hc], rfl⟩

theorem TurnStep.entry {task : Task} (hstep : TurnStep m os task m' next evs) (h : Handle) :
    TurnEntry m h task (m.procs.lookup h) (m'.procs.lookup h) := by
  cases hstep with
  | spawnFails _ _ hl | relaunchFails _ _ _ _ hl =>
      rw [(Manager.launchChild_frame hl).1]
      exact .same _ _
  | spawns spec m₁ l hl =>
      have hlook := m₁.lookup_insertEntry (m.next + 1) h l
      rw [(Manager.launchChild_frame hl).1] at hlook
      show TurnEntry m h _ _ ((m₁.insertEntry (m.next + 1) l).procs.lookup h)
      rw [hlook]
      split_ifs with hid
      · exact .insert spec l _ hid
      · exact .same _ _
  | relaunches s code m₁ l hpc harm hsd hl =>
      have hlook := m₁.lookup_applyLaunch s.id h l
      rw [(Manager.launchChild_frame hl).1] at hlook
      show TurnEntry m h _ _ ((m₁.applyLaunch s.id l).procs.lookup h)
      rw [hlook]
      split_ifs with hid
      · subst hid
        obtain ⟨e, he, ha⟩ := Manager.isArmed_iff.mp harm
        rw [he]
        exact .relaunch s code l e rfl hpc ha hsd
      · exact .same _ _
  | exitEnds s code _ hpc hx | exitBacksOff s code _ hpc hx =>
      show TurnEntry m h _ _ ((m.recordExit s.id code).procs.lookup h)
      rw [Manager.lookup_recordExit]
      split_ifs with hid
      · subst hid
        cases m.procs.lookup s.id with
        | none => exact .same _ _
        | some e => exact .exit s code e rfl hpc
      · exact .same _ _
  | stopIdle id _ hd | stopRunning id _ _ hd =>
      obtain ⟨e, he, rfl, -⟩ := Manager.disarm_ok hd
      simp only [Table.lookup_modify]
      split_ifs with hid
      · subst hid; rw [he]; exact .disarm e
      · exact .same _ _
  | forgets id _ hr =>
      obtain ⟨e, he, hrun, rfl⟩ := Manager.removeEntry_ok hr
      show TurnEntry m h _ _ (AList.lookup h (AList.erase id m.procs))
      rw [Table.lookup_erase_if]
      split_ifs with hid
      · subst hid; rw [he]; exact .forget e hrun
      · exact .same _ _
  | killAllReturns _ | pollReturns _ _ =>
      rw [(Manager.force_frame _ os _).2.1]
      exact .same _ _
  | _ => exact .same _ _

/-- The turn launches `l` for `id` and goes on waiting for it. -/
structure Launches (m : Manager) (os : Os) (task : Task) (m' : Manager) (next : Option Task)
    (evs : List Event) (id : Handle) (spec : Spec) (l : Launched) : Prop where
  children : m'.children = m.children ++ [⟨id, spec, l.pid, none⟩]
  child : l.child = m.children.length
  event : ∀ id' la, .launchChild id' (some la) ∈ evs → id' = id ∧ la = l
  waits : ∃ s, next = some (.supervise s) ∧ s.pc = .wait ∧ s.id = id ∧ s.child = l.child
  running : ∃ e, m'.procs.lookup id = some e ∧ e.status = .running
  /-- A `spawn`, or a relaunch before the shutdown. -/
  who : (task = .spawn spec ∧ os.spawn = some l.pid) ∨ ∃ s, task = .supervise s ∧ m.shutdown = false

theorem TurnStep.launches {task : Task} (hstep : TurnStep m os task m' next evs) :
    (m'.children = m.children ∧ ∀ id la, .launchChild id (some la) ∉ evs) ∨
      ∃ id spec l, Launches m os task m' next evs id spec l := by
  cases hstep with
  | spawnFails _ _ hl | relaunchFails _ _ _ _ hl =>
      have heq := Manager.launchChild_none hl
      exact .inl ⟨heq, by simp⟩
  | spawns spec m₁ l hl =>
      obtain ⟨h₁, h₂⟩ := Manager.launchChild_some hl
      refine .inr ⟨m.next + 1, spec, l, h₂, by rw [h₁], by simp, ⟨_, rfl, rfl, rfl, rfl⟩, ?_,
        .inl ⟨rfl, Manager.launchChild_pid hl⟩⟩
      exact ⟨_, (m₁.lookup_insertEntry (m.next + 1) (m.next + 1) l).trans (if_pos rfl), rfl⟩
  | relaunches s code m₁ l hpc harm hsd hl =>
      obtain ⟨h₁, h₂⟩ := Manager.launchChild_some hl
      refine .inr ⟨s.id, s.spec, l, h₂, by rw [h₁], by simp, ⟨_, rfl, rfl, rfl, rfl⟩, ?_,
        .inr ⟨s, rfl, hsd⟩⟩
      obtain ⟨e, he, -⟩ := Manager.isArmed_iff.mp harm
      have hlook := m₁.lookup_applyLaunch s.id s.id l
      rw [if_pos rfl, (Manager.launchChild_frame hl).1, he] at hlook
      exact ⟨_, hlook, rfl⟩
  | stopIdle id _ hd | stopRunning id _ _ hd =>
      obtain ⟨_, _, rfl, _⟩ := Manager.disarm_ok hd; exact .inl ⟨rfl, by simp⟩
  | forgets id _ hr => obtain ⟨_, _, _, rfl⟩ := Manager.removeEntry_ok hr; exact .inl ⟨rfl, by simp⟩
  | killAllReturns _ | pollReturns _ _ =>
      refine .inl ⟨(Manager.force_frame _ os _).2.2.1, ?_⟩
      intro id la hmem
      unfold Manager.force at hmem
      split at hmem <;> simp at hmem
  | exitEnds s code evs' _ _ hevs =>
      refine .inl ⟨rfl, ?_⟩
      intro id la hmem
      rcases exitEnds_mem hevs hmem with he | he <;> cases he
  | exitBacksOff s code attempt =>
      refine .inl ⟨rfl, ?_⟩
      intro id la hmem
      rcases exitBacksOff_mem hmem with he | he <;> cases he
  | terminateForces id pid _ =>
      refine .inl ⟨rfl, ?_⟩
      intro id la hmem
      split_ifs at hmem <;> simp at hmem
  | _ => exact .inl ⟨rfl, by simp⟩

theorem TurnStep.cgroups_isSome {task : Task} (hstep : TurnStep m os task m' next evs) :
    m'.cgroups.isSome = m.cgroups.isSome := by
  cases hstep with
  | spawnFails _ _ hl | relaunchFails _ _ _ _ hl | spawns _ _ _ hl | relaunches _ _ _ _ _ _ _ hl =>
      have heq := Manager.launchChild_cgroups hl
      exact heq
  | stopIdle id _ hd | stopRunning id _ _ hd =>
      obtain ⟨_, _, rfl, _⟩ := Manager.disarm_ok hd; rfl
  | forgets id _ hr => obtain ⟨_, _, _, rfl⟩ := Manager.removeEntry_ok hr; rfl
  | exitEnds s code _ hpc hx | exitBacksOff s code _ hpc hx =>
      simp only [Manager.exitTurn, Manager.removeLeaf, Manager.saveExit, Manager.recordExit,
        Option.isSome_map]
  | killAllReturns _ | pollReturns _ _ => exact (Manager.force_frame _ os _).2.2.2.1
  | _ => rfl

theorem TurnStep.shutdown_mono {task : Task} (hstep : TurnStep m os task m' next evs)
    (h : m.shutdown = true) : m'.shutdown = true := by
  cases hstep with
  | spawnFails _ _ hl | relaunchFails _ _ _ _ hl | spawns _ _ _ hl | relaunches _ _ _ _ _ _ _ hl =>
      have heq := (Manager.launchChild_frame hl).2.2.2
      exact heq.trans h
  | stopIdle id _ hd | stopRunning id _ _ hd =>
      obtain ⟨_, _, rfl, _⟩ := Manager.disarm_ok hd; exact h
  | forgets id _ hr => obtain ⟨_, _, _, rfl⟩ := Manager.removeEntry_ok hr; exact h
  | killAllReturns _ => exact (Manager.force_frame _ os _).2.2.2.2
  | pollReturns _ _ => exact (Manager.force_frame _ os _).2.2.2.2.trans h
  | killAllWaits _ => rfl
  | _ => exact h

/-- A turn ends at an await point. -/
theorem TurnStep.atAwait {task task' : Task} (h : TurnStep m os task m' next evs)
    (hn : next = some task') : task'.atAwait = true := by
  cases h <;> first | cases hn; done | (cases hn; rfl)

end

/-! ### Turns of the system -/

/-- Every task is suspended. -/
def Calm (w : World) : Prop := ∀ t task, w.tasks t = some task → task.atAwait = true

def Acts (w : World) (a : Turn) (t : ℕ) (os : Os) (task : Task) : Prop :=
  (a = .sched t os ∧ w.tasks t = some task) ∨
    ∃ op : Call, a = .call t op os ∧ w.tasks t = none ∧ task = op.task

section
variable {w w' : World} {a : Turn} {evs : List Event} {t : ℕ} {os : Os} {task : Task}
  {m' : Manager} {next : Option Task}

theorem turn_cases (hcalm : Calm w) (h : turn w a = some (w', evs)) :
    (∃ t os task m' next, Acts w a t os task ∧ TurnStep w.mgr os task m' next evs ∧
      w' = ⟨m', Function.update w.tasks t next⟩) ∨
    (∃ n code c, a = .exit n code ∧ w.mgr.children[n]? = some c ∧ c.alive = true ∧ evs = [] ∧
      w' = { w with mgr := w.mgr.exitChild n code }) := by
  cases a with
  | call t op os =>
      simp only [turn] at h
      split_ifs at h with hn
      obtain ⟨⟨m', next, evs'⟩, hr, hc⟩ := Option.map_eq_some_iff.mp h
      cases hc
      exact .inl ⟨t, os, op.task, m', next,
        .inr ⟨op, rfl, Option.isNone_iff_eq_none.mp hn, rfl⟩, turnStep (.inr ⟨op, rfl⟩) hr, rfl⟩
  | sched t os =>
      simp only [turn] at h
      cases ht : w.tasks t with
      | none => rw [ht] at h; cases h
      | some task =>
          rw [ht] at h
          obtain ⟨⟨m', next, evs'⟩, hr, hc⟩ := Option.map_eq_some_iff.mp h
          cases hc
          exact .inl ⟨t, os, task, m', next, .inl ⟨rfl, ht⟩,
            turnStep (.inl (hcalm t task ht)) hr, rfl⟩
  | exit n code =>
      rcases step_cases (a := .exit n code) h with ⟨_, _, hx, _⟩ | ⟨_, _, _, _, _, hx, _⟩ |
        ⟨n', code', c, hx, hrest⟩
      · cases hx
      · cases hx
      · cases hx
        exact .inr ⟨n, code, c, rfl, hrest⟩

omit [Codec Record] in
theorem Acts.of_owner (h : Acts w a t os task) {o : Handle × Spec} (ho : task.owner = some o) :
    w.tasks t = some task := by
  rcases h with ⟨-, ht⟩ | ⟨op, -, -, rfl⟩
  · exact ht
  · rw [op.task_owner] at ho; cases ho

omit [Codec Record] in
/-- A suspended task that acts was in its slot. -/
theorem Acts.of_await (h : Acts w a t os task) (hw : task.atAwait = true) :
    w.tasks t = some task := by
  rcases h with ⟨-, ht⟩ | ⟨op, -, -, rfl⟩
  · exact ht
  · cases op <;> cases hw

/-- A running entry stays as it is, up to `armed`, in a turn of a task that does not own it. -/
theorem TurnStep.running_other (hstep : TurnStep w.mgr os task m' next evs) (hI : Inv w)
    {h : Handle} {e : ProcEntry} (he : w.mgr.procs.lookup h = some e) (hr : e.status = .running)
    (hne : ∀ spec, task.owner ≠ some (h, spec)) :
    ∃ e', m'.procs.lookup h = some e' ∧ e'.status = .running ∧ e'.pid = e.pid ∧
      (e.armed = false → e'.armed = false) := by
  have hentry := hstep.entry h
  rw [he] at hentry
  generalize hy : m'.procs.lookup h = y at hentry
  cases hentry with
  | same => exact ⟨e, rfl, hr, rfl, id⟩
  | insert spec l _ hn => exact absurd (hI.key_le h e he) (by lia)
  | exit s code _ hid => exact absurd (by rw [← hid]; rfl) (hne s.spec)
  | relaunch s code l _ hid => exact absurd (by rw [← hid]; rfl) (hne s.spec)
  | disarm => exact ⟨_, rfl, hr, rfl, fun _ => rfl⟩
  | forget _ hrun => exact absurd hr hrun

theorem TurnStep.poll_next {m : Manager} {pids : List Pid} (hstep : TurnStep m os task m' next evs)
    (hn : next = some (.killAllPoll true pids)) :
    (task = .killAll ∧ pids = m.runningPids ∧ m' = { m with shutdown := true }) ∨
      (task = .killAllPoll true pids ∧ m' = m) := by
  cases hstep with
  | killAllWaits _ =>
      cases hn
      exact .inl ⟨rfl, rfl, rfl⟩
  | pollWaits _ _ =>
      cases hn
      exact .inr ⟨rfl, rfl⟩
  | _ => cases hn

theorem Calm.turn (hcalm : Calm w) (h : turn w a = some (w', evs)) : Calm w' := by
  intro t' task' ht'
  rcases turn_cases hcalm h with ⟨t, os, task, m', next, -, hstep, rfl⟩ |
    ⟨_, _, _, _, _, _, _, rfl⟩
  · rcases tasks_update ht' with ⟨-, hn⟩ | ⟨-, ht⟩
    · exact hstep.atAwait hn
    · exact hcalm t' task' ht
  · exact hcalm t' task' ht'

/-! ### A turn is a run of steps -/

theorem runTurn_run {n : ℕ} {t : ℕ} {os : Os} {task : Task} {r : Advance}
    (ht : w.tasks t = some task) (h : runTurn os n w.mgr task = some r) :
    ∃ l, Lts.Run step w l (w.commit t r).1 ∧ Lts.events l = r.2.2 := by
  induction n generalizing w task r with
  | zero =>
      obtain rfl := Option.some.inj h
      refine ⟨[], ?_, rfl⟩
      have hw : (w.commit t (w.mgr, some task, [])).1 = w := by
        simp only [World.commit, ← ht, Function.update_eq_self]
      rw [hw]
      exact .nil
  | succ n ih =>
      cases ha : advance w.mgr os task with
      | none => simp only [runTurn, ha] at h; cases h
      | some r₁ =>
          obtain ⟨m₁, next₁, evs₁⟩ := r₁
          have hstep := step_sched os _ ht ha
          cases next₁ with
          | none =>
              rw [runTurn_return n ha] at h
              obtain rfl := Option.some.inj h
              exact ⟨_, Lts.Run.single hstep, by simp⟩
          | some task₁ =>
              cases hw : task₁.atAwait with
              | true =>
                  rw [runTurn_await n ha hw] at h
                  obtain rfl := Option.some.inj h
                  exact ⟨_, Lts.Run.single hstep, by simp⟩
              | false =>
                  rw [runTurn_step n ha hw] at h
                  obtain ⟨r₂, hr₂, rfl⟩ := Option.map_eq_some_iff.mp h
                  obtain ⟨l, hl, he⟩ := ih (w := ⟨m₁, Function.update w.tasks t (some task₁)⟩)
                    (Function.update_self ..) hr₂
                  simp only [World.commit, Function.update_idem] at hl
                  exact ⟨_, Lts.Run.cons hstep hl, by simp [he]⟩

theorem turn_run (h : turn w a = some (w', evs)) :
    ∃ l, Lts.Run step w l w' ∧ Lts.events l = evs := by
  cases a with
  | call t op os =>
      simp only [turn] at h
      split_ifs at h with hn
      obtain ⟨r, hr, hc⟩ := Option.map_eq_some_iff.mp h
      have hcall : step w (.call t op) =
          some (⟨w.mgr, Function.update w.tasks t (some op.task)⟩, []) := by
        simp only [step, if_pos hn]
      obtain ⟨l, hl, he⟩ := runTurn_run (w := ⟨w.mgr, Function.update w.tasks t (some op.task)⟩)
        (Function.update_self ..) hr
      simp only [World.commit, Function.update_idem] at hl
      obtain ⟨rfl, rfl⟩ := Prod.mk.inj hc
      exact ⟨_, Lts.Run.cons hcall hl, by simp [he]⟩
  | sched t os =>
      simp only [turn] at h
      cases ht : w.tasks t with
      | none => rw [ht] at h; cases h
      | some task =>
          rw [ht] at h
          obtain ⟨r, hr, hc⟩ := Option.map_eq_some_iff.mp h
          obtain ⟨l, hl, he⟩ := runTurn_run ht hr
          obtain ⟨rfl, rfl⟩ := Prod.mk.inj hc
          exact ⟨l, hl, he⟩
  | exit n code => exact ⟨_, Lts.Run.single (a := Action.exit n code) h, by simp⟩

/-- **A run of turns is a run of steps.** -/
theorem turns_run {w₀ : World} {l : List (Lts.Tr World Turn Event)} (hr : Lts.Run turn w₀ l w) :
    ∃ l', Lts.Run step w₀ l' w ∧ Lts.events l' = Lts.events l := by
  induction hr with
  | nil => exact ⟨[], .nil, rfl⟩
  | snoc _ hs ih =>
      obtain ⟨l₁, hl₁, he₁⟩ := ih
      obtain ⟨l₂, hl₂, he₂⟩ := turn_run hs
      exact ⟨l₁ ++ l₂, hl₁.append hl₂, by simp [he₁, he₂]⟩

theorem calm_initial {w₀ : World} (h₀ : Initial w₀) : Calm w₀ := by
  intro t task ht
  rw [h₀.idle.1 t] at ht
  cases ht

theorem inv_turn (hI : Inv w) (h : turn w a = some (w', evs)) : Inv w' := by
  obtain ⟨l, hl, -⟩ := turn_run h
  exact (hl.invariant hI (fun _ hv hI => inv_step hv hI)).1

/-- The invariants of the steps hold between turns, and every task is suspended. -/
theorem inv_turns {w₀ : World} {l : List (Lts.Tr World Turn Event)} (h₀ : Initial w₀)
    (hr : Lts.Run turn w₀ l w) : Inv w ∧ Calm w := by
  obtain ⟨l', hl', -⟩ := turns_run hr
  exact ⟨(inv_run h₀ hl').1, (hr.invariant (calm_initial h₀) (fun _ hv hc => hc.turn hv)).1⟩

end

end

end MeshSupervisor
