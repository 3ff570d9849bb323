import MeshSupervisor.SandboxRuns

/-! # The launch of a child

`launch_child`, over the calls that it makes on the file system and the one that starts the child:
the child forks off, makes itself its sandbox, and then runs the command, or the launch fails
(`LaunchStep`).  `launchCommand_env` says what the command finds in its environment. -/

namespace MeshSupervisor

open Prog

/-! ### The program -/

/-- A command; its input and output are piped, and it leads a process group of its own. -/
structure Command where
  program : String
  args : List String
  env : Table String String

/-- `DEFAULT_PATH`. -/
def defaultPath : String := "/usr/bin:/bin"

/-- The command for a specification: of the supervisor's environment it has nothing. -/
def launchCommand (spec : Spec) : Command where
  program := spec.cmd
  args := spec.args
  env := spec.env.foldl (fun env kv => AList.insert kv.1 kv.2 env)
    (AList.insert "PATH" defaultPath ∅)

/-- The calls of a launch; `canonicalize` is of the path of the store. -/
inductive LaunchCall where
  | fs (c : FsCall)
  | canonicalize
  | spawn (command : Command) (sandbox : Sandbox)

@[reducible] def LaunchCall.Answer : LaunchCall → Type
  | .fs c => c.Answer
  | .canonicalize => Option Path
  | .spawn _ _ => Except Errno Pid

abbrev LaunchProg := Prog LaunchCall.Answer

/-- A program on the file system, as a part of a launch. -/
def onFs {α : Type} (p : FsProg α) : LaunchProg α := p.hoist LaunchCall.fs fun _ r => r

/-- The path of the store's file, if it is to be hidden. -/
def canonicalStore (isolate hasStore : Bool) : LaunchProg (Option Path) :=
  if isolate && hasStore then ask LaunchCall.canonicalize else pure none

/-- Create the leaf, start the child in its sandbox, and undo the leaf if that fails. -/
def launchChild (cg : CgroupDir) (hasStore : Bool) (id : Handle) (spec : Spec) :
    LaunchProg (Except Errno Pid) := do
  let procs ← onFs (cg.createLeaf id spec.limits)
  let canonical ← canonicalStore spec.isolate hasStore
  let r ← ask (LaunchCall.spawn (launchCommand spec)
    (.new spec.limits spec.isolate procs canonical))
  match r with
  | .ok pid => pure (.ok pid)
  | .error e => do
      onFs (cg.remove id)
      pure (.error e)

/-! ### The kernel -/

/-- The host, where the supervisor is in it, and the processes that it has started: with what
command, and as what they were when they came to run it. -/
structure Kernel where
  host : Host
  root : Place String
  cwd : Place String
  /-- What `canonicalize` makes of the path of the store, if it succeeds. -/
  storePath : Option Path
  started : Table Pid (Command × ChildProc)

def Kernel.withFs (k : Kernel) (fs : CgroupFs) : Kernel := { k with host := { k.host with fs := fs } }

def Host.enter (h : Host) (pid : Pid) (dir : Path) : Host :=
  { h with fs := { h.fs with tree := { h.fs.tree with place := AList.insert pid dir h.fs.tree.place } } }

def Host.leave (h : Host) (pid : Pid) : Host :=
  { h with fs := { h.fs with tree := { h.fs.tree with place := AList.erase pid h.fs.tree.place } } }

/-- A new process: it is where its parent is, and nothing has been done to it yet. -/
structure Forked (k : Kernel) (c : ChildProc) (h : Host) : Prop where
  root : c.root = k.root
  cwd : c.cwd = k.cwd
  pdeathsig : c.pdeathsig = none
  ns : c.ns = none
  host : ∃ dir, (k.host.fs.tree.at? dir).isSome = true ∧ h = k.host.enter c.pid dir

/-- Others act on the file system by `E`; they leave the new process alone, and mount nothing. -/
def Aside (E : CgroupFs → CgroupFs → Prop) (pid : Pid) (h h' : Host) : Prop :=
  E h.fs h'.fs ∧ h'.fs.tree.place.lookup pid = h.fs.tree.place.lookup pid ∧
    h'.mounts = h.mounts ∧ h'.shared = h.shared

/-- A start succeeds when the child comes to run its command, and only then. -/
def Started (E : CgroupFs → CgroupFs → Prop) (k : Kernel) (command : Command) (sb : Sandbox) :
    Except Errno Pid → Kernel → Prop
  | .ok pid, k' => ∃ c h x', c.pid = pid ∧ Forked k c h ∧
      Runs (ChildStep (Aside E pid)) (h, c) sb.apply.run (.ok ()) x' ∧
      k' = { k with host := x'.1, started := AList.insert pid (command, x'.2) k.started }
  | .error _, k' => k' = k ∨ ∃ c h x' r, Forked k c h ∧
      Runs (ChildStep (Aside E c.pid)) (h, c) sb.apply.run r x' ∧
      k' = { k with host := x'.1.leave c.pid }

/-- A call in state `k` may be answered `r` and leave `k'`. -/
def LaunchStep (E : CgroupFs → CgroupFs → Prop) (k : Kernel) :
    (c : LaunchCall) → c.Answer → Kernel → Prop
  | .fs c, r, k' => ∃ fs, FsStep k.host.fs c r fs ∧ k' = k.withFs fs
  | .canonicalize, r, k' => r = k.storePath ∧ k' = k
  | .spawn command sb, r, k' => Started E k command sb r k'

/-- The calls of a launch, with others around. -/
def LaunchEnv (E : CgroupFs → CgroupFs → Prop) :
    Kernel → (c : LaunchCall) → c.Answer → Kernel → Prop :=
  interfere (fun k k' => ∃ fs, E k.host.fs fs ∧ k' = k.withFs fs) (LaunchStep E)

/-! ### The environment of the command -/

/-- A variable has the last value that the specification gives it; only `PATH` has one without. -/
theorem launchCommand_env (spec : Spec) (key : String) :
    (launchCommand spec).env.lookup key =
      ((spec.env.reverse.find? (fun kv => kv.1 = key)).map Prod.snd).or
        (if key = "PATH" then some defaultPath else none) := by
  have hgoal : ∀ (pairs : List (String × String)) (env : Table String String),
      (pairs.foldl (fun env kv => AList.insert kv.1 kv.2 env) env).lookup key =
        ((pairs.reverse.find? (fun kv => kv.1 = key)).map Prod.snd).or (env.lookup key) := by
    intro pairs
    induction pairs with
    | nil => simp
    | cons kv pairs ih =>
        intro env
        rw [List.foldl_cons, ih, Table.lookup_insert_if, List.reverse_cons, List.find?_append]
        cases hfind : pairs.reverse.find? (fun kv => kv.1 = key) with
        | some kv' => simp
        | none =>
            by_cases hk : kv.1 = key
            · simp [hk]
            · simp [hk, Ne.symm hk]
  unfold launchCommand
  rw [hgoal, Table.lookup_insert_if]
  simp

end MeshSupervisor
