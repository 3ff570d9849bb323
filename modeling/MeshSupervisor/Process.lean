import MeshSupervisor.Cgroup
import MeshSupervisor.Store

/-! # The process manager: its state and its critical sections

`Manager` is the shared state of `process.rs` (`Inner`): the process table, the handle
counter, the store, the cgroups and the shutdown flag, together with the children the
operating system runs for it.  Each definition below is one mutex-guarded section, one
store transaction, one flag access or one `launch_child` call of the source; `Tasks.lean`
strings them together into the operations and the background tasks.

The answers of the operating system are collected in `Os`, the argument of every step
that asks it something. -/

namespace MeshSupervisor

open Wire (Codec)

/-! ### Constants and pure functions -/

/-- A span of time, in nanoseconds. -/
abbrev Duration := ℕ

def Duration.fromSecs (n : ℕ) : Duration := n * 1000000000

def restartBase : Duration := .fromSecs 1
def restartMax : Duration := .fromSecs 30
def stableReset : Duration := .fromSecs 10

/-- On reload a running child is actually dead. -/
def reloaded : ProcState → ProcState
  | .running => .stale
  | other => other

/-- Whether an exit with `code` (`none` is a death by signal) warrants a relaunch. -/
def shouldRestart : RestartPolicy → Option ℤ → Bool
  | .never, _ => false
  | .always, _ => true
  | .onFailure, code => code != some 0

/-- The counter of consecutive fast restarts after one more exit. -/
def nextAttempt (attempt : ℕ) (uptime : Duration) : ℕ :=
  if stableReset ≤ uptime then 1 else attempt + 1

/-- Exponential backoff, with the shift and the product capped. -/
def backoffDelay (attempt : ℕ) : Duration :=
  min (restartBase * 2 ^ min (attempt - 1) 5) restartMax

/-- The signal numbers `Signal::try_from` knows. -/
def Signal.tryFrom (sig : ℤ) : Option ℤ := if 1 ≤ sig ∧ sig ≤ 31 then some sig else none

def sigKill : ℤ := 9
def sigTerm : ℤ := 15

/-! ### Children and table entries -/

/-- A child process: the handle and specification it was launched for, its pid, and its
exit status once it has exited. -/
structure Child where
  handle : Handle
  spec : Spec
  pid : Pid
  exit : Option (Option ℤ)
deriving DecidableEq

def Child.alive (c : Child) : Bool := c.exit.isNone

/-- A freshly launched child; `stdin` and `stdout` name the pipe and the broadcast channel
of that launch. -/
structure Launched where
  child : LaunchId
  pid : Pid
  stdin : LaunchId
  stdout : LaunchId
deriving DecidableEq

/-- An entry of the process table. -/
structure ProcEntry where
  pid : Pid
  status : ProcState
  /-- `none`: closed, as in a reloaded tombstone. -/
  stdin : Option LaunchId
  /-- `none`: closed and empty. -/
  stdout : Option LaunchId
  restarts : ℕ
  armed : Bool
deriving DecidableEq

/-- A reloaded tombstone. -/
def ProcEntry.stale (r : Record) : ProcEntry where
  pid := r.pid
  status := reloaded r.status
  stdin := none
  stdout := none
  restarts := 0
  armed := false

/-- A bare snapshot, without live usage. -/
def ProcEntry.info (e : ProcEntry) (handle : Handle) : ProcInfo where
  handle := handle
  pid := e.pid
  state := e.status
  usage := none
  restarts := e.restarts

/-- The shared state of the process manager. -/
structure Manager where
  procs : Table Handle ProcEntry
  next : Handle
  store : Option Store
  cgroups : Option Cgroups
  shutdown : Bool
  /-- The children launched in this lifetime, by `LaunchId`. -/
  children : List Child

/-- What the operating system and the clock answer within one step. -/
structure Os where
  leaf : LeafOutcome := .opened
  /-- The pid of the new child; `none`: `command.spawn()` fails. -/
  spawn : Option Pid := none
  rmdir : Bool := true
  /-- `started.elapsed()` when a child has exited. -/
  uptime : Duration := 0
  /-- The shutdown grace period is over. -/
  expired : Bool := false
  /-- `kill(2)` succeeds. -/
  killed : Bool := true

namespace Manager

/-- `ProcessManager::new`. -/
def new : Manager where
  procs := ∅
  next := 1
  store := none
  cgroups := none
  shutdown := false
  children := []

/-- `ProcessManager::with_store`: reload tombstones and continue the handle counter. -/
def withStore (store : Store) (loaded : Loaded) (cgroups : Option Cgroups) : Manager where
  procs := (loaded.records.map
    (fun x => (⟨x.1, ProcEntry.stale x.2⟩ : Σ _ : Handle, ProcEntry))).toAList
  next := loaded.nextHandle
  store := some store
  cgroups := cgroups
  shutdown := false
  children := []

/-! ### Sections of `spawn` and `supervise` -/

/-- `next.fetch_add(1) + 1`. -/
def fetchAdd (m : Manager) : Manager × Handle := ({ m with next := m.next + 1 }, m.next + 1)

/-- `launch_child`: create the leaf, start the child, which joins the leaf if its
`cgroup.procs` could be opened; undo the leaf when the child cannot be started. -/
def launchChild (m : Manager) (id : Handle) (spec : Spec) (os : Os) : Manager × Option Launched :=
  let leaf := m.cgroups.map (fun cg => cg.createLeaf id os.leaf)
  match os.spawn with
  | none => ({ m with cgroups := leaf.map (fun p => p.1.remove id os.rmdir) }, none)
  | some pid =>
      let n := m.children.length
      ({ m with
          cgroups := leaf.map (fun p => if p.2 then p.1.join id n else p.1)
          children := m.children ++ [⟨id, spec, pid, none⟩] },
        some ⟨n, pid, n, n⟩)

/-- The table section of `spawn`. -/
def insertEntry (m : Manager) (id : Handle) (l : Launched) : Manager :=
  { m with procs := AList.insert id ⟨l.pid, .running, some l.stdin, some l.stdout, 0, true⟩ m.procs }

/-- The exit recording of `supervise`, table side. -/
def recordExit (m : Manager) (id : Handle) (code : Option ℤ) : Manager :=
  { m with procs := Table.modify m.procs id (fun e => { e with status := .exited code }) }

/-- The cleanup of the leaf after an exit. -/
def removeLeaf (m : Manager) (id : Handle) (os : Os) : Manager :=
  { m with cgroups := m.cgroups.map (fun cg => cg.remove id os.rmdir) }

/-- `procs.lock().get(&id).is_some_and(|e| e.armed)`. -/
def isArmed (m : Manager) (id : Handle) : Bool := (m.procs.lookup id).any ProcEntry.armed

/-- The table section of a relaunch. -/
def applyLaunch (m : Manager) (id : Handle) (l : Launched) : Manager :=
  { m with procs := Table.modify m.procs id (fun e =>
      { e with
        pid := l.pid
        status := .running
        stdin := some l.stdin
        stdout := some l.stdout
        restarts := e.restarts + 1 }) }

section
variable [Codec Record]

/-- Persist a spawn or relaunch record. -/
def persist (m : Manager) (id : Handle) (spec : Spec) (pid : Pid) (status : ProcState) : Manager :=
  { m with store := m.store.map (fun st => st.put id ⟨spec.cmd, spec.args, spec.env, pid, status⟩) }

/-- The exit recording of `supervise`, store side; an error is logged and changes nothing. -/
def saveExit (m : Manager) (id : Handle) (code : Option ℤ) : Manager :=
  { m with store := m.store.map (fun st =>
      match st.setStatus id (.exited code) with
      | .ok st' => st'
      | .error _ => st) }

end

/-! ### Sections of the other operations -/

/-- The table section of `stop`: disarm, and the pid if the child is running. -/
def disarm (m : Manager) (id : Handle) : Except ControlError (Manager × Option Pid) :=
  match m.procs.lookup id with
  | none => .error (.notFound id)
  | some e =>
      .ok ({ m with procs := Table.modify m.procs id (fun e => { e with armed := false }) },
        if e.status.isRunning then some e.pid else none)

/-- The check of `terminate` after the deadline. -/
def isRunning (m : Manager) (id : Handle) : Bool := (m.procs.lookup id).any (·.status.isRunning)

/-- The table section of `signal`. -/
def signalPid (m : Manager) (id : Handle) : Except ControlError Pid :=
  match m.procs.lookup id with
  | none => .error (.notFound id)
  | some e =>
      if e.status.isRunning then .ok e.pid else .error (.badRequest "process is not running")

/-- The table section of `forget`. -/
def removeEntry (m : Manager) (id : Handle) : Except ControlError Manager :=
  match m.procs.lookup id with
  | none => .error (.notFound id)
  | some e =>
      if e.status.isRunning then .error (.badRequest "cannot forget a running process")
      else .ok { m with procs := AList.erase id m.procs }

/-- The store side of `forget`. -/
def removeRecord (m : Manager) (id : Handle) : Manager :=
  { m with store := m.store.map (fun st => st.remove id) }

/-- `fill_usage`: a running child's cgroup counters, as the file system has them. -/
def fillUsage (m : Manager) (usage : Handle → Option Usage) (info : ProcInfo) : ProcInfo :=
  if info.state.isRunning && m.cgroups.isSome then { info with usage := usage info.handle } else info

/-- Snapshot of every tracked process, ascending by handle. -/
def snapshot (m : Manager) (usage : Handle → Option Usage) : List ProcInfo :=
  (Table.sortKeys (· ≤ ·) m.procs.entries).map (fun x => m.fillUsage usage (x.2.info x.1))

def query (m : Manager) (usage : Handle → Option Usage) (id : Handle) :
    Except ControlError ProcInfo :=
  match m.procs.lookup id with
  | none => .error (.notFound id)
  | some e => .ok (m.fillUsage usage (e.info id))

/-- The stdin slot `pipe_stdin` resolves. -/
def stdinSlot (m : Manager) (id : Handle) : Except ControlError (Option LaunchId) :=
  match m.procs.lookup id with
  | none => .error (.notFound id)
  | some e => .ok e.stdin

/-- The stdout channel `subscribe` resolves. -/
def subscribe (m : Manager) (id : Handle) : Except ControlError (Option LaunchId) :=
  match m.procs.lookup id with
  | none => .error (.notFound id)
  | some e => .ok e.stdout

/-- The pids `kill_all` snapshots. -/
def runningPids (m : Manager) : List Pid :=
  ((Table.values m.procs).filter (·.status.isRunning)).map ProcEntry.pid

/-- `any_running`. -/
def anyRunning (m : Manager) : Bool := (Table.values m.procs).any (·.status.isRunning)

/-- The child of launch `n` exits. -/
def exitChild (m : Manager) (n : LaunchId) (code : Option ℤ) : Manager :=
  { m with children := m.children.modify n (fun c => { c with exit := some code }) }

/-! ### What each section does to the table -/

@[simp] theorem lookup_insertEntry (m : Manager) (id h : Handle) (l : Launched) :
    (m.insertEntry id l).procs.lookup h =
      if h = id then some ⟨l.pid, .running, some l.stdin, some l.stdout, 0, true⟩
      else m.procs.lookup h := Table.lookup_insert_if _ _ _ _

@[simp] theorem lookup_recordExit (m : Manager) (id h : Handle) (code : Option ℤ) :
    (m.recordExit id code).procs.lookup h =
      if h = id then (m.procs.lookup id).map (fun e => { e with status := .exited code })
      else m.procs.lookup h := Table.lookup_modify _ _ _ _

@[simp] theorem lookup_applyLaunch (m : Manager) (id h : Handle) (l : Launched) :
    (m.applyLaunch id l).procs.lookup h =
      if h = id then (m.procs.lookup id).map (fun e =>
        { e with
          pid := l.pid
          status := .running
          stdin := some l.stdin
          stdout := some l.stdout
          restarts := e.restarts + 1 })
      else m.procs.lookup h := Table.lookup_modify _ _ _ _

theorem disarm_ok {m m' : Manager} {id : Handle} {pid : Option Pid}
    (h : m.disarm id = .ok (m', pid)) : ∃ e, m.procs.lookup id = some e ∧
      m' = { m with procs := Table.modify m.procs id (fun e => { e with armed := false }) } ∧
      pid = if e.status.isRunning then some e.pid else none := by
  unfold disarm at h
  cases hl : m.procs.lookup id with
  | none => rw [hl] at h; cases h
  | some e =>
      rw [hl] at h
      obtain ⟨rfl, rfl⟩ := Prod.mk.inj (Except.ok.inj h)
      exact ⟨e, rfl, rfl, rfl⟩

theorem removeEntry_ok {m m' : Manager} {id : Handle} (h : m.removeEntry id = .ok m') :
    ∃ e, m.procs.lookup id = some e ∧ e.status ≠ .running ∧
      m' = { m with procs := AList.erase id m.procs } := by
  unfold removeEntry at h
  cases hl : m.procs.lookup id with
  | none => rw [hl] at h; cases h
  | some e =>
      rw [hl] at h
      dsimp only at h
      split_ifs at h with hr
      obtain rfl := Except.ok.inj h
      exact ⟨e, rfl, by simpa using hr, rfl⟩

theorem signalPid_ok {m : Manager} {id : Handle} {pid : Pid} (h : m.signalPid id = .ok pid) :
    ∃ e, m.procs.lookup id = some e ∧ e.status = .running ∧ e.pid = pid := by
  unfold signalPid at h
  cases hl : m.procs.lookup id with
  | none => rw [hl] at h; cases h
  | some e =>
      rw [hl] at h
      dsimp only at h
      split_ifs at h with hr
      exact ⟨e, rfl, by simpa using hr, Except.ok.inj h⟩

theorem isArmed_iff {m : Manager} {id : Handle} :
    m.isArmed id = true ↔ ∃ e, m.procs.lookup id = some e ∧ e.armed = true := by
  unfold isArmed
  cases m.procs.lookup id <;> simp

theorem isRunning_iff {m : Manager} {id : Handle} :
    m.isRunning id = true ↔ ∃ e, m.procs.lookup id = some e ∧ e.status = .running := by
  unfold isRunning
  cases m.procs.lookup id <;> simp

theorem mem_runningPids {m : Manager} {pid : Pid} : pid ∈ m.runningPids ↔
    ∃ h e, m.procs.lookup h = some e ∧ e.status = .running ∧ e.pid = pid := by
  simp only [runningPids, List.mem_map, List.mem_filter, Table.mem_values,
    ProcState.isRunning_iff]
  constructor
  · rintro ⟨e, ⟨⟨h, he⟩, hr⟩, rfl⟩
    exact ⟨h, e, he, hr, rfl⟩
  · rintro ⟨h, e, he, hr, rfl⟩
    exact ⟨e, ⟨⟨h, he⟩, hr⟩, rfl⟩

/-! ### What `launchChild` does -/

theorem launchChild_frame {m m' : Manager} {id : Handle} {spec : Spec} {os : Os}
    {r : Option Launched} (h : m.launchChild id spec os = (m', r)) :
    m'.procs = m.procs ∧ m'.next = m.next ∧ m'.store = m.store ∧ m'.shutdown = m.shutdown := by
  unfold launchChild at h
  cases hs : os.spawn with
  | none =>
      rw [hs] at h
      obtain ⟨rfl, -⟩ := Prod.mk.inj h
      exact ⟨rfl, rfl, rfl, rfl⟩
  | some pid =>
      rw [hs] at h
      obtain ⟨rfl, -⟩ := Prod.mk.inj h
      exact ⟨rfl, rfl, rfl, rfl⟩

theorem launchChild_none {m m' : Manager} {id : Handle} {spec : Spec} {os : Os}
    (h : m.launchChild id spec os = (m', none)) : m'.children = m.children := by
  unfold launchChild at h
  cases hs : os.spawn with
  | none =>
      rw [hs] at h
      obtain ⟨rfl, -⟩ := Prod.mk.inj h
      rfl
  | some pid => rw [hs] at h; cases h

theorem launchChild_some {m m' : Manager} {id : Handle} {spec : Spec} {os : Os} {l : Launched}
    (h : m.launchChild id spec os = (m', some l)) :
    l = ⟨m.children.length, l.pid, m.children.length, m.children.length⟩ ∧
      m'.children = m.children ++ [⟨id, spec, l.pid, none⟩] := by
  unfold launchChild at h
  cases hs : os.spawn with
  | none => rw [hs] at h; cases h
  | some pid =>
      rw [hs] at h
      obtain ⟨rfl, hl⟩ := Prod.mk.inj h
      obtain rfl := Option.some.inj hl
      exact ⟨rfl, rfl⟩

theorem launchChild_pid {m m' : Manager} {id : Handle} {spec : Spec} {os : Os} {l : Launched}
    (h : m.launchChild id spec os = (m', some l)) : os.spawn = some l.pid := by
  unfold launchChild at h
  cases hs : os.spawn with
  | none => rw [hs] at h; cases h
  | some pid =>
      rw [hs] at h
      obtain rfl := Option.some.inj (Prod.mk.inj h).2
      rfl

theorem launchChild_cgroups {m m' : Manager} {id : Handle} {spec : Spec} {os : Os}
    {r : Option Launched} (h : m.launchChild id spec os = (m', r)) :
    m'.cgroups.isSome = m.cgroups.isSome := by
  unfold launchChild at h
  cases hs : os.spawn with
  | none =>
      rw [hs] at h
      obtain ⟨rfl, -⟩ := Prod.mk.inj h
      simp only [Option.isSome_map]
  | some pid =>
      rw [hs] at h
      obtain ⟨rfl, -⟩ := Prod.mk.inj h
      simp only [Option.isSome_map]

end Manager

end MeshSupervisor
