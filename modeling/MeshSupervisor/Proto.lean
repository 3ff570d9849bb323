import MeshSupervisor.Lib.Wire

/-! # The wire protocol's data types

The types of `proto.rs` under the source's names.  Handles and counters are natural
numbers (the source's `u64`/`u32`, never wrapping), exit codes are integers (`i32`). -/

namespace MeshSupervisor

abbrev Handle := ℕ

abbrev Pid := ℕ

/-- Per-process resource caps; `none` is unlimited. -/
structure Limits where
  memory : Option ℕ := none
  pids : Option ℕ := none
  cpu : Option ℕ := none
deriving DecidableEq, Repr

inductive RestartPolicy where
  | never
  | onFailure
  | always
deriving DecidableEq, Repr

structure Spec where
  cmd : String
  args : List String := []
  env : List (String × String) := []
  limits : Limits := {}
  policy : RestartPolicy := .never
  /-- Consecutive fast restarts allowed before giving up; `0` is unlimited. -/
  maxRetries : ℕ := 0
  isolate : Bool := false
deriving DecidableEq, Repr

inductive Request where
  | spawn (spec : Spec)
  | signal (id : Handle) (sig : ℤ)
  | stop (id : Handle)
  | stdinStream (id : Handle)
  | query (id : Handle)
  | subscribe (id : Handle)
  | forget (id : Handle)
  | list
deriving DecidableEq, Repr

/-- Read-only requests; the rest require control rights. -/
def Request.isReadOnly : Request → Bool
  | .list | .query _ | .subscribe _ => true
  | _ => false

/-- Lifecycle state of a tracked process; the exit code is `none` after a death by signal. -/
inductive ProcState where
  | running
  | exited (code : Option ℤ)
  | stale
deriving DecidableEq, Repr

/-- `matches!(state, ProcState::Running)`. -/
def ProcState.isRunning : ProcState → Bool
  | .running => true
  | _ => false

@[simp] theorem ProcState.isRunning_iff {s : ProcState} : s.isRunning = true ↔ s = .running := by
  cases s <;> simp [isRunning]

structure Usage where
  memBytes : ℕ
  cpuUsec : ℕ
deriving DecidableEq, Repr

structure ProcInfo where
  handle : Handle
  pid : Pid
  state : ProcState
  usage : Option Usage
  restarts : ℕ
deriving DecidableEq, Repr

inductive ControlError where
  | notFound (id : Handle)
  | denied
  | rateLimited
  | spawnFailed (msg : String)
  | badRequest (msg : String)
  | timeout
deriving DecidableEq, Repr

inductive Response where
  | spawned (id : Handle) (pid : Pid)
  | ack
  | status (info : ProcInfo)
  | list (infos : List ProcInfo)
  | error (e : ControlError)
deriving DecidableEq, Repr

end MeshSupervisor
