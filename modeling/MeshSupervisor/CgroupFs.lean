import MeshSupervisor.CgroupPath
import MeshSupervisor.Cgroup
import MeshSupervisor.Lib.Groups
import MeshSupervisor.Lib.Prog

/-! # The cgroup file system and what the supervisor does on it

`cgroup.rs` as programs over the calls it makes on the file system (`FsCall`), and what the calls do
to the kernel's tree of groups (`FsStep`).  Every call may fail for reasons of its own; one that
succeeds does what the kernel documents.  Only `exists` and `is_dir` tell the truth in `FsStep`: the
source takes an error of theirs for absence, and `rmdir_retry` would then return without a log entry.

`CgroupDir` is the source's `Cgroups`, the directory of our group; the `Cgroups` of `Cgroup.lean`
are the leaves in it. -/

namespace MeshSupervisor

open Prog

/-! ### Calls -/

/-- The calls on the file system.  A file is given by the directory of its cgroup and its name, the
time by milliseconds; `warn` is a log entry about a directory. -/
inductive FsCall where
  /-- `read_to_string("/proc/self/cgroup")`. -/
  | readSelf
  | readFile (dir : Path) (file : String)
  | writeFile (dir : Path) (file text : String)
  /-- Open `cgroup.procs` for writing. -/
  | openProcs (dir : Path)
  | createDir (dir : Path)
  | removeDir (dir : Path)
  | pathExists (dir : Path)
  /-- The names in a directory, files and directories. -/
  | readDir (dir : Path)
  | isDir (dir : Path)
  | sleep (millis : ℕ)
  | warn (dir : Path) (msg : String)
deriving DecidableEq

/-- The answer to a call; `false` and `none` are errors. -/
@[reducible] def FsCall.Answer : FsCall → Type
  | .readSelf | .readFile _ _ => Option (List Char)
  | .writeFile _ _ _ | .openProcs _ | .createDir _ | .removeDir _ | .pathExists _ | .isDir _ => Bool
  | .readDir _ => Option (List String)
  | .sleep _ | .warn _ _ => Unit

abbrev FsProg := Prog FsCall.Answer

section Calls

variable (dir : Path)

abbrev readSelf : FsProg (Option (List Char)) := ask FsCall.readSelf
abbrev readFile (file : String) : FsProg (Option (List Char)) := ask (FsCall.readFile dir file)
abbrev writeFile (file text : String) : FsProg Bool := ask (FsCall.writeFile dir file text)
abbrev openProcs : FsProg Bool := ask (FsCall.openProcs dir)
abbrev createDir : FsProg Bool := ask (FsCall.createDir dir)
abbrev removeDir : FsProg Bool := ask (FsCall.removeDir dir)
abbrev pathExists : FsProg Bool := ask (FsCall.pathExists dir)
abbrev readDir : FsProg (Option (List String)) := ask (FsCall.readDir dir)
abbrev isDir : FsProg Bool := ask (FsCall.isDir dir)
abbrev sleep (millis : ℕ) : FsProg Unit := ask (FsCall.sleep millis)
abbrev warn (msg : String) : FsProg Unit := ask (FsCall.warn dir msg)

end Calls

/-! ### The kernel -/

/-- The groups by their paths; the processes that were killed through `cgroup.kill`, each with the
group it was in; and what was logged, by directory. -/
structure CgroupFs where
  tree : Groups String String Pid
  killed : List (Path × Pid)
  warned : Path → List String

/-- The controllers that a write to `cgroup.subtree_control` asks for; we never take one away. -/
def requested (text : String) : Option (List String) :=
  ((splitWhitespace text.toList).mapM fun
    | '+' :: name => some (String.ofList name)
    | _ => none)

def limitFile : String → Option String
  | "memory.max" => some "memory"
  | "pids.max" => some "pids"
  | _ => none

/-- The processes of a group and below it, each with its own group. -/
def victims (t : Groups String String Pid) (dir : Path) : List (Path × Pid) :=
  (t.place.entries.filter (fun x => dir.isPrefixOf x.2)).map fun x => (x.2, x.1)

/-- What a write does when it succeeds. -/
def CgroupFs.written (s : CgroupFs) (dir : Path) (file text : String) : Option CgroupFs :=
  if file = "cgroup.subtree_control" then do
    let cs ← requested text
    let t ← s.tree.enable dir cs
    some { s with tree := t }
  else if file = "cgroup.kill" then
    if (s.tree.at? dir).isSome ∧ text = "1" then
      some { s with killed := s.killed ++ victims s.tree dir }
    else none
  else do
    let c ← limitFile file
    let n ← (u64FromStr text.toList).toOption
    let t ← s.tree.askLimit dir c n
    some { s with tree := t }

/-- A call in state `s` may be answered `r` and leave `s'`. -/
def FsStep (s : CgroupFs) : (c : FsCall) → c.Answer → CgroupFs → Prop
  | .readSelf, _, s' => s' = s
  | .readFile dir file, r, s' => s' = s ∧
      (file = "cgroup.subtree_control" → ∀ text, r = some text → ∃ g, s.tree.at? dir = some g ∧
        splitWhitespace text = g.control.map String.toList)
  | .writeFile dir file text, r, s' =>
      (r = true ∧ s.written dir file text = some s') ∨ (r = false ∧ s' = s)
  | .openProcs dir, r, s' => s' = s ∧ (r = true → (s.tree.at? dir).isSome)
  | .createDir dir, r, s' =>
      (r = true ∧ ∃ t, s.tree.create dir = some t ∧ s' = { s with tree := t }) ∨ (r = false ∧ s' = s)
  | .removeDir dir, r, s' =>
      (r = true ∧ ∃ t, s.tree.remove dir = some t ∧ s' = { s with tree := t }) ∨ (r = false ∧ s' = s)
  | .pathExists dir, r, s' => s' = s ∧ r = (s.tree.at? dir).isSome
  | .readDir dir, r, s' => s' = s ∧
      ∀ names, r = some names → ∀ k, (s.tree.at? (dir ++ [k])).isSome → k ∈ names
  | .isDir dir, r, s' => s' = s ∧ r = (s.tree.at? dir).isSome
  | .sleep _, _, s' => s' = s
  | .warn dir msg, _, s' =>
      s' = { s with warned := fun q => if q = dir then s.warned q ++ [msg] else s.warned q }

/-- A kernel that refuses nothing it need not; `self` is what `/proc/self/cgroup` says. -/
def obliging (self : List Char) (s : CgroupFs) : (c : FsCall) → c.Answer × CgroupFs
  | .readSelf => (some self, s)
  | .readFile dir file =>
      if file = "cgroup.subtree_control" then
        match s.tree.at? dir with
        | some g =>
            let text := List.intercalate [' '] (g.control.map String.toList)
            (if splitWhitespace text = g.control.map String.toList then some text else none, s)
        | none => (none, s)
      else (none, s)
  | .writeFile dir file text =>
      match s.written dir file text with
      | some s' => (true, s')
      | none => (false, s)
  | .openProcs dir => ((s.tree.at? dir).isSome, s)
  | .createDir dir =>
      match s.tree.create dir with
      | some t => (true, { s with tree := t })
      | none => (false, s)
  | .removeDir dir =>
      match s.tree.remove dir with
      | some t => (true, { s with tree := t })
      | none => (false, s)
  | .pathExists dir => ((s.tree.at? dir).isSome, s)
  | .readDir _ => (some (s.tree.groups.keys.filterMap List.getLast?), s)
  | .isDir dir => ((s.tree.at? dir).isSome, s)
  | .sleep _ => ((), s)
  | .warn dir msg =>
      ((), { s with warned := fun q => if q = dir then s.warned q ++ [msg] else s.warned q })

theorem obliging_step (self : List Char) (s : CgroupFs) (c : FsCall) :
    FsStep s c (obliging self s c).1 (obliging self s c).2 := by
  cases c with
  | readSelf | pathExists dir | isDir dir | sleep millis | warn dir msg =>
      simp [FsStep, obliging]
  | openProcs dir =>
      exact ⟨rfl, id⟩
  | readFile dir file =>
      unfold obliging
      dsimp only
      split_ifs with hfile
      · cases hg : s.tree.at? dir with
        | none =>
            refine ⟨rfl, ?_⟩
            rintro - text ⟨⟩
        | some g =>
            refine ⟨rfl, ?_⟩
            rintro - text htext
            dsimp only at htext
            split_ifs at htext with hsplit
            obtain rfl := Option.some.inj htext
            exact ⟨g, hg, hsplit⟩
      · refine ⟨rfl, ?_⟩
        rintro - text ⟨⟩
  | writeFile dir file text =>
      unfold obliging
      dsimp only
      cases hw : s.written dir file text with
      | none => exact .inr ⟨rfl, rfl⟩
      | some s' => exact .inl ⟨rfl, hw⟩
  | createDir dir =>
      unfold obliging
      dsimp only
      cases ht : s.tree.create dir with
      | none => exact .inr ⟨rfl, rfl⟩
      | some t => exact .inl ⟨rfl, t, ht, rfl⟩
  | removeDir dir =>
      unfold obliging
      dsimp only
      cases ht : s.tree.remove dir with
      | none => exact .inr ⟨rfl, rfl⟩
      | some t => exact .inl ⟨rfl, t, ht, rfl⟩
  | readDir dir =>
      refine ⟨rfl, ?_⟩
      intro names hnames k hk
      obtain rfl := Option.some.inj hnames
      rw [List.mem_filterMap]
      exact ⟨dir ++ [k], AList.lookup_isSome.mp hk, by simp⟩

/-! ### The supervisor's side -/

/-- `GROUP`. -/
def groupName : String := "mesh-supervisor"

def rmdirTries (dir : Path) : ℕ → FsProg Unit
  | 0 => warn dir "cgroup leftover could not be removed"
  | n + 1 => do
      let removed ← removeDir dir
      if removed then pure ()
      else
        let present ← pathExists dir
        if present then
          sleep 10
          rmdirTries dir n
        else pure ()

/-- Remove a cgroup, retrying while the kernel reaps killed processes. -/
def rmdirRetry (dir : Path) : FsProg Unit := rmdirTries dir 50

/-- Kill and remove one entry of the group, if it is a directory. -/
def sweepLeaf (parent : Path) (name : String) : FsProg Unit := do
  let dir ← isDir (parent ++ [name])
  if dir then
    let _ ← writeFile (parent ++ [name]) "cgroup.kill" "1"
    rmdirRetry (parent ++ [name])
  else pure ()

/-- Kill and remove every leaf, then the parent. -/
def removeGroup (parent : Path) : FsProg Unit := do
  let entries ← readDir parent
  each (sweepLeaf parent) (entries.getD [])
  rmdirRetry parent

/-- The ancestors of a directory, from the nearest; the argument is the directory, turned round. -/
def searchUp : List String → FsProg (Option Path)
  | [] => pure none
  | _ :: up => do
      if mount.isPrefixOf up.reverse then
        let sc ← readFile up.reverse "cgroup.subtree_control"
        if grants (sc.getD []) "memory" then pure (some up.reverse)
        else if up.reverse = mount then pure none
        else searchUp up
      else pure none

/-- The nearest ancestor of our own cgroup that grants the memory controller. -/
def parentWithMemory : FsProg (Option Path) := do
  let selfCg ← readSelf
  match selfCg.bind ownGroup with
  | some dir => searchUp dir.reverse
  | none => pure none

/-- The group under which each child gets a leaf. -/
structure CgroupDir where
  parent : Path
deriving DecidableEq

namespace CgroupDir

def detect : FsProg (Option CgroupDir) := do
  match ← parentWithMemory with
  | none => pure none
  | some host =>
      let parent := host ++ [groupName]
      removeGroup parent
      let created ← createDir parent
      if created then
        let delegated ← writeFile parent "cgroup.subtree_control" "+memory +pids"
        if delegated then pure (some ⟨parent⟩)
        else
          warn parent "cgroup controller delegation failed"
          let _ ← removeDir parent
          pure none
      else pure none

def leaf (cg : CgroupDir) (handle : Handle) : Path := cg.parent ++ [handle.repr]

def writeCap (dir : Path) (file : String) (cap : Option ℕ) (msg : String) : FsProg Unit :=
  match cap with
  | none => pure ()
  | some n => do
      let ok ← writeFile dir file n.repr
      if ok then pure () else warn dir msg

/-- Create a leaf with its caps; the result is its `cgroup.procs`, by the leaf's path. -/
def createLeaf (cg : CgroupDir) (handle : Handle) (limits : Limits) : FsProg (Option Path) := do
  let created ← createDir (cg.leaf handle)
  if created then
    writeCap (cg.leaf handle) "memory.max" limits.memory "cgroup memory.max failed"
    writeCap (cg.leaf handle) "pids.max" limits.pids "cgroup pids.max failed"
    let opened ← openProcs (cg.leaf handle)
    if opened then pure (some (cg.leaf handle))
    else
      warn (cg.leaf handle) "cgroup.procs open failed"
      pure none
  else
    warn (cg.leaf handle) "cgroup create failed"
    pure none

/-- Live usage from a leaf. -/
def usage (cg : CgroupDir) (handle : Handle) : FsProg (Option Usage) := do
  let mem ← readFile (cg.leaf handle) "memory.current"
  match mem.bind memCurrent with
  | none => pure none
  | some memBytes =>
      let stat ← readFile (cg.leaf handle) "cpu.stat"
      match stat.bind usageUsec with
      | none => pure none
      | some cpuUsec => pure (some ⟨memBytes, cpuUsec⟩)

/-- Kill every process in a leaf. -/
def kill (cg : CgroupDir) (handle : Handle) : FsProg Unit := do
  let _ ← writeFile (cg.leaf handle) "cgroup.kill" "1"
  pure ()

/-- Kill the survivors in a leaf and remove it. -/
def remove (cg : CgroupDir) (handle : Handle) : FsProg Unit := do
  let _ ← writeFile (cg.leaf handle) "cgroup.kill" "1"
  rmdirRetry (cg.leaf handle)

/-- Kill all children and remove the whole group. -/
def shutdown (cg : CgroupDir) : FsProg Unit := removeGroup cg.parent

end CgroupDir

end MeshSupervisor
