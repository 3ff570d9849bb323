import MeshSupervisor.Lib.Table
import MeshSupervisor.Proto

/-! # cgroup leaves

The bookkeeping of `cgroup.rs`: one leaf directory per launched handle, which the child
joins before `exec`.  Every file-system answer is an argument: the directory may fail to
be created or removed, and `cgroup.procs` may fail to open. -/

namespace MeshSupervisor

/-- A launch, numbered in the order of the launches of one supervisor lifetime. -/
abbrev LaunchId := ℕ

/-- The leaves of the supervisor's group, each with the launches that joined it. -/
structure Cgroups where
  leaves : Table Handle (List LaunchId)

/-- How the file system answers the creation of a leaf. -/
inductive LeafOutcome where
  | mkdirFails
  | procsFails
  | opened
deriving DecidableEq, Repr

namespace Cgroups

/-- `Cgroups::detect`: a group of our own where one can be had, with no leaf in it; leftovers
that cannot be swept make its creation fail. -/
def detect (found : Bool) : Option Cgroups := if found then some ⟨∅⟩ else none

/-- Create a leaf for `handle`; the flag says whether `cgroup.procs` was opened, that is,
whether the child will join the leaf.  An existing leaf makes `create_dir` fail. -/
def createLeaf (cg : Cgroups) (handle : Handle) (outcome : LeafOutcome) : Cgroups × Bool :=
  if (cg.leaves.lookup handle).isSome then (cg, false)
  else
    match outcome with
    | .mkdirFails => (cg, false)
    | .procsFails => (⟨AList.insert handle [] cg.leaves⟩, false)
    | .opened => (⟨AList.insert handle [] cg.leaves⟩, true)

/-- The child of launch `n` writes its pid to the leaf's `cgroup.procs`. -/
def join (cg : Cgroups) (handle : Handle) (n : LaunchId) : Cgroups :=
  ⟨Table.modify cg.leaves handle (· ++ [n])⟩

/-- Kill the leaf's survivors and remove the directory; `rmdir` says whether the retries
succeeded. -/
def remove (cg : Cgroups) (handle : Handle) (rmdir : Bool) : Cgroups :=
  if rmdir then ⟨AList.erase handle cg.leaves⟩ else cg

/-- Kill all children and remove the whole group. -/
def shutdown (cg : Cgroups) (rmdir : Bool) : Cgroups := if rmdir then ⟨∅⟩ else cg

end Cgroups

end MeshSupervisor
