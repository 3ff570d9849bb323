import MeshSupervisor.CgroupFs
import MeshSupervisor.Process
import MeshSupervisor.Lib.Mounts
import Mathlib.Control.Monad.Basic
import Mathlib.Data.Nat.Digits.Defs

/-! # The sandbox of a child

`sandbox.rs`: what a child does to itself between `fork` and `exec`, as a program over the system
calls it makes (`SysCall`), and what these do to the child and to the host (`SysStep`).  Any of them
may be refused; `Sandbox.apply` then ends with the error number, and there is no `exec`. -/

namespace MeshSupervisor

open Prog

/-! ### System calls -/

abbrev Errno := ℕ

inductive Resource where
  | addressSpace
  | cpu
deriving DecidableEq

inductive CloneFlag where
  | newUser
  | newMount
  | newNet
  | newUts
  | newIpc
deriving DecidableEq

inductive MountFlag where
  | recursive
  | priv
deriving DecidableEq

/-- The system calls, with absolute paths by their components where they name a directory. -/
inductive SysCall where
  | setPdeathsig (sig : ℤ)
  | setrlimit (resource : Resource) (soft hard : ℕ)
  | getpid
  /-- Write a text to the `cgroup.procs` of a leaf, which is open. -/
  | writeProcs (leaf : Path) (text : List Char)
  | getuid
  | getgid
  | unshare (flags : List CloneFlag)
  /-- `open(path, O_WRONLY)`. -/
  | openFile (path : String)
  | write (fd : ℕ) (bytes : List Char)
  | close (fd : ℕ)
  | mount (src : String) (target : Path) (fstype : Option String) (flags : List MountFlag)
deriving DecidableEq

@[reducible] def SysCall.Answer : SysCall → Type
  | .getpid | .getuid | .getgid => ℕ
  | .openFile _ | .write _ _ => Except Errno ℕ
  | .setPdeathsig _ | .setrlimit _ _ _ | .writeProcs _ _ | .unshare _ | .close _
  | .mount _ _ _ _ => Except Errno Unit

/-- Programs of system calls that end early with an error number. -/
abbrev SysProg := ExceptT Errno (Prog SysCall.Answer)

/-! ### The kernel -/

structure Namespaces where
  flags : List CloneFlag
  setgroups : List Char
  uidMap : List Char
  gidMap : List Char
  mounts : Mounts String
  /-- No mount of the host is received any more. -/
  detached : Bool

/-- A child, as far as the sandbox shapes it. -/
structure ChildProc where
  pid : Pid
  uid : ℕ
  gid : ℕ
  uid_lt : uid < 2 ^ 32
  gid_lt : gid < 2 ^ 32
  pdeathsig : Option ℤ
  /-- The soft and the hard limit. -/
  rlimits : Resource → ℕ × ℕ
  /-- The paths of the files it has opened for writing. -/
  files : Table ℕ String
  root : Place String
  cwd : Place String
  /-- `none`: those of the host. -/
  ns : Option Namespaces

/-- What all processes share. -/
structure Host where
  fs : CgroupFs
  mounts : Mounts String
  /-- Mounts are passed on to other mount namespaces. -/
  shared : Bool

/-- What a write to one of the files in `/proc/self` does; the maps are written once, and only for
namespaces of one's own. -/
def Namespaces.written (ns : Namespaces) (path : String) (bytes : List Char) : Option Namespaces :=
  if path = "/proc/self/setgroups" then some { ns with setgroups := bytes }
  else if path = "/proc/self/uid_map" then
    if ns.uidMap = [] then some { ns with uidMap := bytes } else none
  else if path = "/proc/self/gid_map" then
    if ns.gidMap = [] then some { ns with gidMap := bytes } else none
  else none

/-- A call is refused and changes nothing, or it succeeds and does what it `does`. -/
def Tries {σ α : Type} (x x' : σ) (does : α → Prop) : Except Errno α → Prop
  | .ok a => does a
  | .error _ => x' = x

/-- A call of the child `x.2` may be answered `r` and leave `x'`. -/
def SysStep (x : Host × ChildProc) : (c : SysCall) → c.Answer → Host × ChildProc → Prop
  | .setPdeathsig sig, r, x' =>
      Tries x x' (fun _ => x' = (x.1, { x.2 with pdeathsig := some sig })) r
  | .setrlimit res soft hard, r, x' =>
      Tries x x' (fun _ => x' = (x.1, { x.2 with
        rlimits := fun res' => if res' = res then (soft, hard) else x.2.rlimits res' })) r
  | .getpid, r, x' => r = x.2.pid ∧ x' = x
  | .writeProcs leaf text, r, x' =>
      Tries x x' (fun _ => ∃ pid t, u64FromStr text = .ok pid ∧ x.1.fs.tree.attach leaf pid = some t ∧
        x' = ({ x.1 with fs := { x.1.fs with tree := t } }, x.2)) r
  -- in a user namespace without a map yet, nobody has an id
  | .getuid, r, x' => (x.2.ns = none → r = x.2.uid) ∧ x' = x
  | .getgid, r, x' => (x.2.ns = none → r = x.2.gid) ∧ x' = x
  | .unshare flags, r, x' =>
      Tries x x' (fun _ => x' = (x.1, { x.2 with ns := some ⟨flags, "allow".toList, [], [],
        (x.2.ns.map Namespaces.mounts).getD x.1.mounts, false⟩ })) r
  | .openFile path, r, x' =>
      Tries x x' (fun fd => x.2.files.lookup fd = none ∧
        x' = (x.1, { x.2 with files := AList.insert fd path x.2.files })) r
  | .write fd bytes, r, x' =>
      Tries x x' (fun _ => ∃ path ns ns', x.2.files.lookup fd = some path ∧ x.2.ns = some ns ∧
        ns.written path bytes = some ns' ∧ x' = (x.1, { x.2 with ns := some ns' })) r
  | .close fd, _, x' => x' = (x.1, { x.2 with files := AList.erase fd x.2.files })
  | .mount _ target fstype flags, r, x' =>
      Tries x x' (fun _ =>
        if .priv ∈ flags then
          match x.2.ns with
          | some ns => x' = (x.1, { x.2 with ns := some { ns with detached := true } })
          | none => x' = ({ x.1 with shared := false }, x.2)
        else if fstype = some "tmpfs" then
          match x.2.ns with
          | some ns => ∃ place, ns.mounts.Resolves x.2.root target place ∧
              x' = (x.1, { x.2 with ns := some { ns with mounts := ns.mounts.mountOn place } })
          | none => ∃ place, x.1.mounts.Resolves x.2.root target place ∧
              x' = ({ x.1 with mounts := x.1.mounts.mountOn place }, x.2)
        else True) r

/-- A kernel that refuses nothing it need not. -/
def obligingSys (x : Host × ChildProc) : (c : SysCall) → c.Answer × (Host × ChildProc)
  | .setPdeathsig sig => (.ok (), (x.1, { x.2 with pdeathsig := some sig }))
  | .setrlimit res soft hard =>
      (.ok (), (x.1, { x.2 with
        rlimits := fun res' => if res' = res then (soft, hard) else x.2.rlimits res' }))
  | .getpid => (x.2.pid, x)
  | .writeProcs leaf text =>
      match u64FromStr text with
      | .ok pid =>
          match x.1.fs.tree.attach leaf pid with
          | some t => (.ok (), ({ x.1 with fs := { x.1.fs with tree := t } }, x.2))
          | none => (.error 16, x)
      | .error _ => (.error 22, x)
  | .getuid => (x.2.uid, x)
  | .getgid => (x.2.gid, x)
  | .unshare flags => (.ok (), (x.1, { x.2 with ns := some ⟨flags, "allow".toList, [], [],
      (x.2.ns.map Namespaces.mounts).getD x.1.mounts, false⟩ }))
  | .openFile path =>
      let fd := x.2.files.keys.foldr max 2 + 1
      if x.2.files.lookup fd = none then
        (.ok fd, (x.1, { x.2 with files := AList.insert fd path x.2.files }))
      else (.error 24, x)
  | .write fd bytes =>
      match x.2.files.lookup fd, x.2.ns with
      | some path, some ns =>
          match ns.written path bytes with
          | some ns' => (.ok bytes.length, (x.1, { x.2 with ns := some ns' }))
          | none => (.error 1, x)
      | _, _ => (.error 9, x)
  | .close fd => (.ok (), (x.1, { x.2 with files := AList.erase fd x.2.files }))
  | .mount _ target fstype flags =>
      match x.2.ns with
      | some ns =>
          if .priv ∈ flags then (.ok (), (x.1, { x.2 with ns := some { ns with detached := true } }))
          else if fstype = some "tmpfs" then
            match ns.mounts.resolve? x.2.root target with
            | some place =>
                (.ok (), (x.1, { x.2 with ns := some { ns with mounts := ns.mounts.mountOn place } }))
            | none => (.error 2, x)
          else (.error 19, x)
      | none => (.error 1, x)

theorem obligingSys_step (x : Host × ChildProc) (c : SysCall) :
    SysStep x c (obligingSys x c).1 (obligingSys x c).2 := by
  cases c with
  | setPdeathsig sig | setrlimit res soft hard | unshare flags | close fd => exact rfl
  | getpid => exact ⟨rfl, rfl⟩
  | getuid | getgid => exact ⟨fun _ => rfl, rfl⟩
  | writeProcs leaf text =>
      unfold obligingSys
      dsimp only
      cases hread : u64FromStr text with
      | error e => exact rfl
      | ok pid =>
          dsimp only
          cases ht : x.1.fs.tree.attach leaf pid with
          | none => exact rfl
          | some t => exact ⟨pid, t, hread, ht, rfl⟩
  | openFile path =>
      unfold obligingSys
      dsimp only
      split_ifs with hfd
      · exact ⟨hfd, rfl⟩
      · exact rfl
  | write fd bytes =>
      unfold obligingSys
      dsimp only
      cases hfd : x.2.files.lookup fd with
      | none => exact rfl
      | some path =>
          cases hns : x.2.ns with
          | none => exact rfl
          | some ns =>
              dsimp only
              cases hwritten : ns.written path bytes with
              | none => exact rfl
              | some ns' => exact ⟨path, ns, ns', hfd, hns, hwritten, rfl⟩
  | mount src target fstype flags =>
      unfold obligingSys
      dsimp only
      cases hns : x.2.ns with
      | none => exact rfl
      | some ns =>
          dsimp only
          split_ifs with hpriv htmpfs
          · simp [SysStep, Tries, hpriv, hns]
          · cases hplace : ns.mounts.resolve? x.2.root target with
            | none => exact rfl
            | some place =>
                simp only [SysStep, Tries, hns, if_neg hpriv, if_pos htmpfs]
                exact ⟨place, Mounts.resolve?_resolves hplace, rfl⟩
          · exact rfl

/-! ### The child's side -/

section Calls

abbrev setPdeathsig (sig : ℤ) : SysProg Unit := ExceptT.mk (ask (SysCall.setPdeathsig sig))
abbrev setrlimit (res : Resource) (soft hard : ℕ) : SysProg Unit :=
  ExceptT.mk (ask (SysCall.setrlimit res soft hard))
abbrev getpid : SysProg Pid := ExceptT.lift (ask SysCall.getpid)
abbrev writeProcs (leaf : Path) (text : List Char) : SysProg Unit :=
  ExceptT.mk (ask (SysCall.writeProcs leaf text))
abbrev getuid : SysProg ℕ := ExceptT.lift (ask SysCall.getuid)
abbrev getgid : SysProg ℕ := ExceptT.lift (ask SysCall.getgid)
abbrev unshare (flags : List CloneFlag) : SysProg Unit := ExceptT.mk (ask (SysCall.unshare flags))
abbrev openFile (path : String) : SysProg ℕ := ExceptT.mk (ask (SysCall.openFile path))

end Calls

/-- A buffer of 32 bytes on the stack. -/
structure StackBuf where
  bytes : List Char
  fits : bytes.length ≤ 32

namespace StackBuf

def empty : StackBuf := ⟨[], by decide⟩

/-- `write_str`. -/
def writeStr (b : StackBuf) (s : List Char) : Option StackBuf :=
  if h : (b.bytes ++ s).length ≤ 32 then some ⟨b.bytes ++ s, h⟩ else none

/-- `write!` of these pieces; it stops at the first that does not fit. -/
def writeAll (b : StackBuf) : List (List Char) → StackBuf
  | [] => b
  | s :: rest =>
      match b.writeStr s with
      | some b' => b'.writeAll rest
      | none => b

end StackBuf

/-- The line that maps the root of a user namespace to `id`. -/
def mapText (id : ℕ) : List Char :=
  (StackBuf.empty.writeAll ["0 ".toList, id.repr.toList, " 1\n".toList]).bytes

/-- Open, write and close; the error number is that of the last call that failed. -/
def writeBytes (path : String) (bytes : List Char) : SysProg Unit := do
  let fd ← openFile path
  let written ← ExceptT.lift (ask (SysCall.write fd bytes))
  let closed ← ExceptT.lift (ask (SysCall.close fd))
  match written, closed with
  | .ok _, _ => pure ()
  | .error e, .ok _ => throw e
  | .error _, .error e => throw e

def writeMap (path : String) (id : ℕ) : SysProg Unit := writeBytes path (mapText id)

def mnt (src : String) (target : Path) (fstype : Option String) (flags : List MountFlag) :
    SysProg Unit := ExceptT.mk (ask (SysCall.mount src target fstype flags))

def isolation : List CloneFlag := [.newUser, .newMount, .newNet, .newUts, .newIpc]

/-- Enter fresh namespaces, and hide `storeDir`. -/
def enterNamespaces (storeDir : Option Path) : SysProg Unit := do
  let uid ← getuid
  let gid ← getgid
  unshare isolation
  writeBytes "/proc/self/setgroups" "deny".toList
  writeMap "/proc/self/uid_map" uid
  writeMap "/proc/self/gid_map" gid
  mnt "none" [] none [.recursive, .priv]
  match storeDir with
  | some dir => mnt "tmpfs" dir (some "tmpfs") []
  | none => pure ()

/-- Write the pid of the calling process into an open `cgroup.procs`. -/
def joinCgroup (leaf : Path) : SysProg Unit := do
  let pid ← getpid
  writeProcs leaf pid.repr.toList

structure Sandbox where
  memory : Option ℕ
  cpu : Option ℕ
  /-- The leaf whose `cgroup.procs` is open. -/
  cgroupProcs : Option Path
  isolate : Bool
  storeDir : Option Path
deriving DecidableEq

/-- The parent of the store's file; `canonical` is the answer of `canonicalize`. -/
def storeHideDir (canonical : Option Path) : Option Path :=
  canonical.bind fun p => if p = [] then none else some p.dropLast

namespace Sandbox

def new (limits : Limits) (isolate : Bool) (cgroupProcs : Option Path) (canonical : Option Path) :
    Sandbox where
  memory := limits.memory
  cpu := limits.cpu
  cgroupProcs := cgroupProcs
  isolate := isolate
  storeDir := if isolate then storeHideDir canonical else none

/-- A limit that is set if there is one. -/
def limit (res : Resource) : Option ℕ → SysProg Unit
  | some n => setrlimit res n n
  | none => pure ()

/-- Join the leaf, if there is one. -/
def join : Option Path → SysProg Unit
  | some leaf => joinCgroup leaf
  | none => pure ()

def apply (sb : Sandbox) : SysProg Unit := do
  setPdeathsig sigKill
  limit .addressSpace sb.memory
  limit .cpu sb.cpu
  join sb.cgroupProcs
  if sb.isolate then enterNamespaces sb.storeDir else pure ()

end Sandbox

/-! ### The line of a map -/

theorem StackBuf.writeAll_fits (b : StackBuf) (pieces : List (List Char))
    (h : (b.bytes ++ pieces.flatten).length ≤ 32) :
    (b.writeAll pieces).bytes = b.bytes ++ pieces.flatten := by
  induction pieces generalizing b with
  | nil => simp [writeAll]
  | cons s rest ih =>
      have hs : (b.bytes ++ s).length ≤ 32 := by
        simp only [List.flatten_cons, List.length_append] at h ⊢
        omega
      have hstr : b.writeStr s = some ⟨b.bytes ++ s, hs⟩ := dif_pos hs
      simp only [writeAll, hstr]
      rw [ih]
      · rw [List.flatten_cons, List.append_assoc]
      · rw [List.append_assoc]
        exact h

theorem mapText_eq {id : ℕ} (hid : id < 2 ^ 32) :
    mapText id = "0 ".toList ++ id.repr.toList ++ " 1\n".toList := by
  have hdigits : id.repr.toList.length ≤ 10 := by
    rw [Nat.toList_repr]
    exact Nat.toDigits_length 10 id 10 (by omega) (by omega)
  have hfits : ([] ++ ["0 ".toList, id.repr.toList, " 1\n".toList].flatten).length ≤ 32 := by
    have hhead : "0 ".toList.length = 2 := by decide
    have htail : " 1\n".toList.length = 3 := by decide
    simp only [List.nil_append, List.flatten_cons, List.flatten_nil, List.append_nil,
      List.length_append, hhead, htail]
    omega
  rw [mapText, StackBuf.writeAll_fits StackBuf.empty _ hfits]
  simp [StackBuf.empty]

end MeshSupervisor
