import MeshSupervisor.CgroupLeaves
import MeshSupervisor.Sandbox

/-! # What the sandbox of a child comes to

Others may act between any two system calls of the child; they do not move it to another group, and
they mount nothing meanwhile (`Besides`).

* `apply_inForce`: when `Sandbox.apply` ends without an error, all of the sandbox is in force; when
  it ends with one, `exec` is not reached.  In both cases the host has kept its mounts and its
  groups.
* `store_hidden`: which children can still open the store that the sandbox hides. -/

namespace MeshSupervisor

open Prog

/-- What others do while a child sets itself up. -/
structure Besides (ours : Path → Prop) (pid : Pid) (E : Host → Host → Prop) : Prop where
  same : ∀ {h h'}, E h h' → h.fs.tree.Sound mount → Same ours h.fs h'.fs
  place : ∀ {h h'}, E h h' → h'.fs.tree.place.lookup pid = h.fs.tree.place.lookup pid
  mounts : ∀ {h h'}, E h h' → h'.mounts = h.mounts
  shared : ∀ {h h'}, E h h' → h'.shared = h.shared

/-- All that others may do. -/
def alongside (ours : Path → Prop) (pid : Pid) (h h' : Host) : Prop :=
  (h.fs.tree.Sound mount → Same ours h.fs h'.fs) ∧
    h'.fs.tree.place.lookup pid = h.fs.tree.place.lookup pid ∧
    h'.mounts = h.mounts ∧ h'.shared = h.shared

theorem alongside_besides (ours : Path → Prop) (pid : Pid) : Besides ours pid (alongside ours pid) :=
  ⟨fun he => he.1, fun he => he.2.1, fun he => he.2.2.1, fun he => he.2.2.2⟩

/-- What the host keeps while the child `pid` sets itself up, in the leaf `leaf` once it has joined
one. -/
structure HostKept (ours : Path → Prop) (pid : Pid) (leaf : Option Path) (h h' : Host) : Prop where
  same : Same ours h.fs h'.fs
  mounts : h'.mounts = h.mounts
  shared : h'.shared = h.shared
  place : ∀ dir, leaf = some dir → h'.fs.tree.place.lookup pid = some dir

/-- The system calls of one child, with others around. -/
def ChildStep (E : Host → Host → Prop) :
    Host × ChildProc → (c : SysCall) → c.Answer → Host × ChildProc → Prop :=
  interfere (fun x x' => E x.1 x'.1 ∧ x'.2 = x.2) SysStep

section Calls

variable {ours : Path → Prop} {E : Host → Host → Prop} {h : Host} {leaf : Option Path}
  {pid : Pid} {x : Host × ChildProc}

theorem HostKept.forget (hx : HostKept ours pid leaf h x.1) : HostKept ours pid none h x.1 :=
  ⟨hx.same, hx.mounts, hx.shared, by rintro dir ⟨⟩⟩

theorem Besides.wp_ask (hE : Besides ours pid E) (hx : HostKept ours pid leaf h x.1) {c : SysCall}
    {Q : c.Answer → Host × ChildProc → Prop}
    (hQ : ∀ h₁ r x', HostKept ours pid leaf h h₁ → SysStep (h₁, x.2) c r x' → Q r x') :
    (ask c : Prog SysCall.Answer c.Answer).wp (ChildStep E) Q x := by
  rintro r x' ⟨⟨h₁, c₁⟩, ⟨he, rfl⟩, hstep⟩
  apply hQ h₁ r x' _ hstep
  constructor
  · exact hx.same.trans (hE.same he hx.same.sound)
  · exact (hE.mounts he).trans hx.mounts
  · exact (hE.shared he).trans hx.shared
  · exact fun dir hdir => (hE.place he).trans (hx.place dir hdir)

/-- The failure of a program: the host has kept what is its own. -/
abbrev Refused (ours : Path → Prop) (pid : Pid) (h : Host) (x : Host × ChildProc) : Prop :=
  HostKept ours pid none h x.1

theorem Tries.ends {α : Type} {x' : Host × ChildProc} {does : α → Prop} {r : Except Errno α}
    {Q : α → Host × ChildProc → Prop} (hr : Tries x x' does r) (hx : HostKept ours pid leaf h x.1)
    (hQ : ∀ a, does a → Q a x') : EndsIn (Refused ours pid h) Q r x' := by
  cases r with
  | ok a => exact hQ a hr
  | error e =>
      obtain rfl : x' = x := hr
      exact hx.forget

end Calls

/-! ### Limits and the leaf -/

/-- A limit in force, if there is one. -/
def ChildProc.limited (c : ChildProc) (res : Resource) : Option ℕ → ChildProc
  | some n => { c with rlimits := fun res' => if res' = res then (n, n) else c.rlimits res' }
  | none => c

section Limits

variable {ours : Path → Prop} {E : Host → Host → Prop} {h : Host} {leaf : Option Path}
  {pid : Pid} {x : Host × ChildProc} {c : ChildProc}

theorem setPdeathsig_ends (hE : Besides ours pid E) (hx : HostKept ours pid leaf h x.1) (sig : ℤ) :
    (setPdeathsig sig).run.wp (ChildStep E) (EndsIn (Refused ours pid h)
      fun _ x' => HostKept ours pid leaf h x'.1 ∧ x'.2 = { x.2 with pdeathsig := some sig }) x := by
  apply hE.wp_ask hx
  intro h₁ r x' hh hr
  apply Tries.ends hr hh
  rintro a rfl
  exact ⟨hh, rfl⟩

theorem limit_ends (hE : Besides ours pid E) (hx : HostKept ours pid leaf h x.1) (res : Resource)
    (n : Option ℕ) :
    (Sandbox.limit res n).run.wp (ChildStep E) (EndsIn (Refused ours pid h)
      fun _ x' => HostKept ours pid leaf h x'.1 ∧ x'.2 = x.2.limited res n) x := by
  cases n with
  | none => exact ⟨hx, rfl⟩
  | some n =>
      apply hE.wp_ask hx
      intro h₁ r x' hh hr
      apply Tries.ends hr hh
      rintro a rfl
      exact ⟨hh, rfl⟩

theorem joinCgroup_ends (hE : Besides ours pid E) (hx : HostKept ours pid none h x.1)
    (hpid : x.2.pid = pid) (dir : Path) :
    (joinCgroup dir).run.wp (ChildStep E) (EndsIn (Refused ours pid h)
      fun _ x' => HostKept ours pid (some dir) h x'.1 ∧ x'.2 = x.2) x := by
  unfold joinCgroup
  apply ends_bind (Q := fun r x' => r = pid ∧ HostKept ours pid none h x'.1 ∧ x'.2 = x.2)
  · apply ends_lift
    apply hE.wp_ask hx
    rintro h₁ r x' hh ⟨rfl, rfl⟩
    exact ⟨hpid, hh, rfl⟩
  rintro _ x₁ ⟨rfl, hx₁, hchild⟩
  apply hE.wp_ask hx₁
  intro h₁ r x' hh hr
  apply Tries.ends hr hh
  rintro a ⟨pid', t, hread, hattach, rfl⟩
  obtain ⟨rfl, -⟩ := (u64FromStr_repr _ _).mp hread
  obtain ⟨-, hgroups, hplace⟩ := Groups.attach_some hattach
  refine ⟨⟨⟨hh.same.sound.attach hattach, ?_⟩, hh.mounts, hh.shared, ?_⟩, hchild⟩
  · intro q hq
    rw [← hh.same.see q hq]
    unfold CgroupFs.see Groups.at?
    rw [hgroups]
  · intro dir' hdir'
    obtain rfl := Option.some.inj hdir'
    exact (hplace _).trans (if_pos rfl)

theorem join_ends (hE : Besides ours pid E) (hx : HostKept ours pid none h x.1)
    (hpid : x.2.pid = pid) (leaf : Option Path) :
    (Sandbox.join leaf).run.wp (ChildStep E) (EndsIn (Refused ours pid h)
      fun _ x' => HostKept ours pid leaf h x'.1 ∧ x'.2 = x.2) x := by
  cases leaf with
  | none => exact ⟨hx, rfl⟩
  | some dir => exact joinCgroup_ends hE hx hpid dir

end Limits

/-! ### Namespaces -/

/-- What the isolation of a child comes to, in a mount namespace that was the host's with `mounts`:
the directory `storeDir`, if there is one, is covered in it. -/
structure Namespaces.Isolates (ns : Namespaces) (c : ChildProc) (mounts : Mounts String)
    (storeDir : Option Path) : Prop where
  flags : ns.flags = isolation
  setgroups : ns.setgroups = "deny".toList
  uidMap : ns.uidMap = "0 ".toList ++ c.uid.repr.toList ++ " 1\n".toList
  gidMap : ns.gidMap = "0 ".toList ++ c.gid.repr.toList ++ " 1\n".toList
  detached : ns.detached = true
  hidden : match storeDir with
    | some dir => ∃ place, mounts.Resolves c.root dir place ∧ ns.mounts = mounts.mountOn place
    | none => ns.mounts = mounts

section Namespaces

variable {ours : Path → Prop} {E : Host → Host → Prop} {h : Host} {leaf : Option Path}
  {pid : Pid} {x : Host × ChildProc} {c : ChildProc}

/-- The child `c`, but for its namespaces and open files. -/
def ChildProc.In (c : ChildProc) (ns : Namespaces) (c' : ChildProc) : Prop :=
  ∃ files, c' = { c with ns := some ns, files := files }

theorem writeBytes_ends (hE : Besides ours pid E) {ns : Namespaces} (hx : HostKept ours pid leaf h x.1)
    (hin : c.In ns x.2) (path : String) (bytes : List Char) :
    (writeBytes path bytes).run.wp (ChildStep E) (EndsIn (Refused ours pid h)
      fun _ x' => HostKept ours pid leaf h x'.1 ∧
        ∃ ns', ns.written path bytes = some ns' ∧ c.In ns' x'.2) x := by
  obtain ⟨files, hchild⟩ := hin
  unfold writeBytes
  apply ends_bind (Q := fun fd x' => HostKept ours pid leaf h x'.1 ∧
    x'.2 = { c with ns := some ns, files := AList.insert fd path files })
  · apply hE.wp_ask hx
    intro h₁ r x' hh hr
    apply Tries.ends hr hh
    rintro fd ⟨-, rfl⟩
    refine ⟨hh, ?_⟩
    rw [hchild]
  rintro fd x₁ ⟨hx₁, hchild₁⟩
  apply ends_bind (Q := fun (r : Except Errno ℕ) x' => HostKept ours pid leaf h x'.1 ∧
    match r with
    | .ok _ => ∃ ns', ns.written path bytes = some ns' ∧ c.In ns' x'.2
    | .error _ => True)
  · apply ends_lift
    apply hE.wp_ask hx₁
    intro h₁ r x' hh hr
    cases r with
    | ok n =>
        obtain ⟨path', ns₀, ns', hfd, hns, hwritten, rfl⟩ := hr
        rw [hchild₁] at hfd hns
        have hpath : path' = path := by
          rw [AList.lookup_insert] at hfd
          exact (Option.some.inj hfd).symm
        obtain rfl := Option.some.inj hns
        subst hpath
        refine ⟨hh, ns', hwritten, AList.insert fd path' files, ?_⟩
        rw [hchild₁]
    | error e =>
        obtain rfl : x' = (h₁, x₁.2) := hr
        exact ⟨hh, trivial⟩
  rintro written x₂ ⟨hx₂, hwritten⟩
  apply ends_bind (Q := fun _ x' => HostKept ours pid leaf h x'.1 ∧
    match written with
    | .ok _ => ∃ ns', ns.written path bytes = some ns' ∧ c.In ns' x'.2
    | .error _ => True)
  · apply ends_lift
    apply hE.wp_ask hx₂
    rintro h₁ r x' hh rfl
    refine ⟨hh, ?_⟩
    cases written with
    | ok n =>
        obtain ⟨ns', hns', files', hfiles⟩ := hwritten
        refine ⟨ns', hns', AList.erase fd files', ?_⟩
        rw [hfiles]
    | error e => trivial
  rintro closed x₃ ⟨hx₃, hdone⟩
  cases written with
  | ok n => exact ⟨hx₃, hdone⟩
  | error e =>
      cases closed with
      | ok _ => exact hx₃.forget
      | error e' => exact hx₃.forget

theorem enterNamespaces_ends (hE : Besides ours pid E) (hx : HostKept ours pid leaf h x.1)
    (hns : x.2.ns = none) (storeDir : Option Path) :
    (enterNamespaces storeDir).run.wp (ChildStep E) (EndsIn (Refused ours pid h)
      fun _ x' => HostKept ours pid leaf h x'.1 ∧
        ∃ ns, x.2.In ns x'.2 ∧ ns.Isolates x.2 h.mounts storeDir) x := by
  unfold enterNamespaces
  apply ends_bind (Q := fun uid x' => uid = x.2.uid ∧ HostKept ours pid leaf h x'.1 ∧ x'.2 = x.2)
  · apply ends_lift
    apply hE.wp_ask hx
    rintro h₁ r x' hh ⟨huid, rfl⟩
    exact ⟨huid hns, hh, rfl⟩
  rintro _ x₁ ⟨rfl, hx₁, hchild₁⟩
  apply ends_bind (Q := fun gid x' => gid = x.2.gid ∧ HostKept ours pid leaf h x'.1 ∧ x'.2 = x.2)
  · apply ends_lift
    apply hE.wp_ask hx₁
    rintro h₁ r x' hh ⟨hgid, rfl⟩
    rw [hchild₁] at hgid ⊢
    exact ⟨hgid hns, hh, rfl⟩
  rintro _ x₂ ⟨rfl, hx₂, hchild₂⟩
  apply ends_bind (Q := fun _ x' => HostKept ours pid leaf h x'.1 ∧
    x.2.In ⟨isolation, "allow".toList, [], [], h.mounts, false⟩ x'.2)
  · apply hE.wp_ask hx₂
    intro h₁ r x' hh hr
    apply Tries.ends hr hh
    rintro a rfl
    refine ⟨hh, x.2.files, ?_⟩
    rw [hchild₂, hns, ← hh.mounts]
    rfl
  rintro _ x₃ ⟨hx₃, hin₃⟩
  apply ends_bind (writeBytes_ends hE hx₃ hin₃ _ _)
  rintro _ x₄ ⟨hx₄, ns₄, hns₄, hin₄⟩
  obtain rfl := Option.some.inj hns₄
  apply ends_bind (writeBytes_ends hE hx₄ hin₄ _ _)
  rintro _ x₅ ⟨hx₅, ns₅, hns₅, hin₅⟩
  obtain rfl := Option.some.inj hns₅
  apply ends_bind (writeBytes_ends hE hx₅ hin₅ _ _)
  rintro _ x₆ ⟨hx₆, ns₆, hns₆, hin₆⟩
  obtain rfl := Option.some.inj hns₆
  apply ends_bind (Q := fun _ x' => HostKept ours pid leaf h x'.1 ∧
    x.2.In ⟨isolation, "deny".toList, "0 ".toList ++ x.2.uid.repr.toList ++ " 1\n".toList,
      "0 ".toList ++ x.2.gid.repr.toList ++ " 1\n".toList, h.mounts, true⟩ x'.2)
  · obtain ⟨files, hchild₆⟩ := hin₆
    apply hE.wp_ask hx₆
    intro h₁ r x' hh hr
    apply Tries.ends hr hh
    intro a hmounted
    rw [if_pos (by simp), hchild₆] at hmounted
    obtain rfl := hmounted
    refine ⟨hh, files, ?_⟩
    rw [mapText_eq x.2.uid_lt, mapText_eq x.2.gid_lt]
  rintro _ x₇ ⟨hx₇, hin₇⟩
  cases storeDir with
  | none => exact ⟨hx₇, _, hin₇, rfl, rfl, rfl, rfl, rfl, rfl⟩
  | some dir =>
      obtain ⟨files, hchild₇⟩ := hin₇
      apply hE.wp_ask hx₇
      intro h₁ r x' hh hr
      apply Tries.ends hr hh
      intro a hmounted
      rw [if_neg (by simp), if_pos rfl, hchild₇] at hmounted
      obtain ⟨place, hplace, rfl⟩ := hmounted
      exact ⟨hh, _, ⟨files, rfl⟩, rfl, rfl, rfl, rfl, rfl, place, hplace, rfl⟩

end Namespaces

/-! ### The whole sandbox -/

def Sandbox.cap (sb : Sandbox) : Resource → Option ℕ
  | .addressSpace => sb.memory
  | .cpu => sb.cpu

/-- Everything that the sandbox is to do to the child `c` has been done, in namespaces with the mounts
`mounts` of the host. -/
structure Sandbox.InForce (sb : Sandbox) (c : ChildProc) (mounts : Mounts String) (c' : ChildProc) :
    Prop where
  root : c'.root = c.root
  cwd : c'.cwd = c.cwd
  deathsig : c'.pdeathsig = some sigKill
  rlimits : ∀ res, c'.rlimits res = match sb.cap res with
    | some n => (n, n)
    | none => c.rlimits res
  plain : sb.isolate = false → c'.ns = none
  isolated : sb.isolate = true → ∃ ns, c'.ns = some ns ∧ ns.Isolates c mounts sb.storeDir

section Apply

variable {ours : Path → Prop} {E : Host → Host → Prop} {h : Host} {c : ChildProc}

@[simp] theorem ChildProc.limited_rlimits (c : ChildProc) (res res' : Resource) (n : Option ℕ) :
    (c.limited res n).rlimits res' =
      if res' = res then n.elim (c.rlimits res') fun n => (n, n) else c.rlimits res' := by
  cases n with
  | none => simp [limited]
  | some n => rfl

@[simp] theorem ChildProc.limited_root (c : ChildProc) (res : Resource) (n : Option ℕ) :
    (c.limited res n).root = c.root := by
  cases n <;> rfl

@[simp] theorem ChildProc.limited_cwd (c : ChildProc) (res : Resource) (n : Option ℕ) :
    (c.limited res n).cwd = c.cwd := by
  cases n <;> rfl

@[simp] theorem ChildProc.limited_pid (c : ChildProc) (res : Resource) (n : Option ℕ) :
    (c.limited res n).pid = c.pid := by
  cases n <;> rfl

@[simp] theorem ChildProc.limited_uid (c : ChildProc) (res : Resource) (n : Option ℕ) :
    (c.limited res n).uid = c.uid := by
  cases n <;> rfl

@[simp] theorem ChildProc.limited_gid (c : ChildProc) (res : Resource) (n : Option ℕ) :
    (c.limited res n).gid = c.gid := by
  cases n <;> rfl

@[simp] theorem ChildProc.limited_ns (c : ChildProc) (res : Resource) (n : Option ℕ) :
    (c.limited res n).ns = c.ns := by
  cases n <;> rfl

/-- The child before it joins its leaf. -/
def Sandbox.limited (sb : Sandbox) (c : ChildProc) : ChildProc :=
  ({ c with pdeathsig := some sigKill }.limited .addressSpace sb.memory).limited .cpu sb.cpu

theorem Namespaces.Isolates.of_limited {ns : Namespaces} {sb : Sandbox} {mounts : Mounts String}
    {storeDir : Option Path} (hi : ns.Isolates (sb.limited c) mounts storeDir) :
    ns.Isolates c mounts storeDir := by
  have hroot : (sb.limited c).root = c.root := by simp [Sandbox.limited]
  constructor
  · exact hi.flags
  · exact hi.setgroups
  · simpa [Sandbox.limited] using hi.uidMap
  · simpa [Sandbox.limited] using hi.gidMap
  · exact hi.detached
  · rw [← hroot]
    exact hi.hidden

theorem Sandbox.inForce (sb : Sandbox) {c' : ChildProc} {ns : Option Namespaces}
    {files : Table ℕ String} (hc : c' = { sb.limited c with ns := ns, files := files })
    (hplain : sb.isolate = false → ns = none)
    (hisolated : sb.isolate = true →
      ∃ ns₁, ns = some ns₁ ∧ ns₁.Isolates c h.mounts sb.storeDir) :
    sb.InForce c h.mounts c' := by
  subst hc
  constructor
  · simp [Sandbox.limited]
  · simp [Sandbox.limited]
  · unfold Sandbox.limited ChildProc.limited
    cases sb.memory <;> cases sb.cpu <;> rfl
  · intro res
    cases res with
    | addressSpace =>
        simp only [Sandbox.limited, ChildProc.limited_rlimits, Sandbox.cap]
        cases sb.memory <;> rfl
    | cpu =>
        simp only [Sandbox.limited, ChildProc.limited_rlimits, Sandbox.cap]
        cases sb.cpu <;> rfl
  · exact hplain
  · exact hisolated

theorem apply_ends (hE : Besides ours c.pid E) (hs : h.fs.tree.Sound mount) (hns : c.ns = none)
    (sb : Sandbox) :
    sb.apply.run.wp (ChildStep E) (EndsIn (Refused ours c.pid h)
      fun _ x' => HostKept ours c.pid sb.cgroupProcs h x'.1 ∧ sb.InForce c h.mounts x'.2) (h, c) := by
  have hx : HostKept ours c.pid none h h := ⟨.refl hs, rfl, rfl, by rintro dir ⟨⟩⟩
  unfold Sandbox.apply
  apply ends_bind (setPdeathsig_ends hE hx _)
  rintro _ x₁ ⟨hx₁, hc₁⟩
  apply ends_bind (limit_ends hE hx₁ _ _)
  rintro _ x₂ ⟨hx₂, hc₂⟩
  apply ends_bind (limit_ends hE hx₂ _ _)
  rintro _ x₃ ⟨hx₃, hc₃⟩
  have hchild₃ : x₃.2 = sb.limited c := by
    rw [hc₃, hc₂, hc₁]
    rfl
  have hpid : x₃.2.pid = c.pid := by
    simp [hchild₃, Sandbox.limited]
  apply ends_bind (join_ends hE hx₃ hpid sb.cgroupProcs)
  rintro _ x₄ ⟨hx₄, hchild₄⟩
  rw [hchild₃] at hchild₄
  have hns₄ : (sb.limited c).ns = none := by
    simp [Sandbox.limited, hns]
  split_ifs with hisolate
  · apply ends_mono (enterNamespaces_ends hE hx₄ (hchild₄ ▸ hns₄) sb.storeDir)
    rintro _ x' ⟨hx', ns, ⟨files, hfiles⟩, hiso⟩
    rw [hchild₄] at hfiles hiso
    refine ⟨hx', sb.inForce (h := h) hfiles ?_ fun _ => ⟨ns, rfl, hiso.of_limited⟩⟩
    intro hno
    rw [hisolate] at hno
    cases hno
  · have hc : x₄.2 = { sb.limited c with ns := none, files := (sb.limited c).files } := by
      rw [hchild₄, ← hns₄]
    exact ⟨hx₄, sb.inForce (h := h) hc (fun _ => rfl) fun hyes => absurd hyes hisolate⟩

/-- **The sandbox is all or nothing.**  Whatever the kernel refuses and whatever others do meanwhile:
when `apply` ends without an error, all of the sandbox is in force for the child, and it has joined
its leaf; when it ends with one, so that there is no `exec`, and when it does not, the mounts of the
host and the groups of ours are as they were. -/
theorem apply_inForce (hE : Besides ours c.pid E) (hs : h.fs.tree.Sound mount) (hns : c.ns = none)
    (sb : Sandbox) :
    sb.apply.run.wp (ChildStep E) (fun r x' => match r with
      | .ok _ => HostKept ours c.pid sb.cgroupProcs h x'.1 ∧ sb.InForce c h.mounts x'.2
      | .error _ => HostKept ours c.pid none h x'.1) (h, c) := by
  apply wp_mono (apply_ends hE hs hns sb)
  intro r x' hr
  cases r with
  | ok a => exact hr
  | error e => exact hr

/-- **Whom the store is hidden from.**  The file `i` is at `f` in the store's directory `dir`, where
`files` tells the file at each place.  An isolated child that mounts and unmounts nothing opens it on
some path if and only if the directory is its working directory, which it has from the supervisor, or
its root (the cover does not move those who stand under it), or it comes to a place elsewhere with the
same file, as hard links and bind mounts make them.  And once it takes the cover off, as the root of
its namespaces may, it opens it in any case. -/
theorem store_hidden (hE : Besides ours c.pid E) (hs : h.fs.tree.Sound mount) (hns : c.ns = none)
    (limits : Limits) (procs : Option Path) (dir : Path) (f : String) {ι : Type}
    (files : Place String → Option ι) (i : ι)
    (hfile : ∀ place, h.mounts.Resolves c.root dir place →
      files ⟨place.mount, place.path ++ [f]⟩ = some i ∧
      ∀ l, Mounts.Under place f l → h.mounts.mounted.lookup l = none ∧ c.root ≠ l ∧ c.cwd ≠ l) :
    (Sandbox.new limits true procs (some (dir ++ [f]))).apply.run.wp (ChildStep E)
      (fun r x' => r = .ok () → ∃ ns place, x'.2.ns = some ns ∧ h.mounts.Resolves c.root dir place ∧
        (ns.mounts.Opens x'.2.root files x'.2.cwd i ↔
          (c.cwd = place ∨ c.root = place) ∨ ∃ l ≠ ⟨place.mount, place.path ++ [f]⟩,
            ns.mounts.Reaches x'.2.root x'.2.cwd l ∧ files l = some i) ∧
        (ns.mounts.umount place).Opens x'.2.root files x'.2.cwd i) (h, c) := by
  apply wp_mono (apply_ends hE hs hns _)
  rintro r x' hr rfl
  obtain ⟨-, hforce⟩ := hr
  obtain ⟨ns, hns', hiso⟩ := hforce.isolated rfl
  have hdir : (Sandbox.new limits true procs (some (dir ++ [f]))).storeDir = some dir := by
    simp [Sandbox.new, storeHideDir]
  have hhidden := hiso.hidden
  rw [hdir] at hhidden
  obtain ⟨place, hplace, hmounts⟩ := hhidden
  obtain ⟨hi, hunder⟩ := hfile place hplace
  refine ⟨ns, place, hns', hplace, ?_, ?_⟩
  · rw [hforce.root, hforce.cwd, hmounts]
    apply Mounts.opens_covered
    · simp
    · intro l hl
      have hne : l ≠ place := by
        rintro rfl
        obtain ⟨q, hq⟩ := hl
        have hlen := congrArg (fun l => l.path.length) hq
        simp at hlen
      rw [Mounts.lookup_mountOn, if_neg hne]
      exact (hunder l hl).1
    · exact fun hl => (hunder _ hl).2.1 rfl
    · exact fun hl => (hunder _ hl).2.2 rfl
    · exact hi
  · rw [hforce.root, hforce.cwd, hmounts]
    exact Mounts.opens_uncovered hplace (hunder _ ⟨[], rfl⟩).1 hi

end Apply

/-! ### In the session -/

section Session

/-- The host with a leaf for handle 1, and a supervisor that was started in `/home/user`. -/
def sessionWorld : Host := ⟨sessionLeaf, ⟨∅, 1⟩, true⟩

def sessionChild : ChildProc where
  pid := 4242
  uid := 1000
  gid := 1000
  uid_lt := by decide
  gid_lt := by decide
  pdeathsig := none
  rlimits := fun _ => (2 ^ 64 - 1, 2 ^ 64 - 1)
  files := ∅
  root := ⟨0, []⟩
  cwd := ⟨0, ["home", "user"]⟩
  ns := none

def sessionSandbox : Sandbox :=
  .new sessionLimits true (some (sessionCg.leaf 1)) (some (["home", "user"] ++ ["mesh-supervisor.redb"]))

def sessionConfined : Host × ChildProc :=
  (sessionSandbox.apply.run.exec obligingSys (sessionWorld, sessionChild)).2

theorem alongside_refl (ours : Path → Prop) (pid : Pid) (h : Host) : alongside ours pid h h :=
  ⟨fun hs => .refl hs, rfl, rfl, rfl⟩

theorem obligingSys_childStep {E : Host → Host → Prop} (hE : ∀ h, E h h) (x : Host × ChildProc)
    (c : SysCall) : ChildStep E x c (obligingSys x c).1 (obligingSys x c).2 :=
  ⟨x, ⟨hE x.1, rfl⟩, obligingSys_step x c⟩

theorem sessionConfined_run :
    Runs (ChildStep (alongside (OurDir sessionCg.parent) sessionChild.pid))
      (sessionWorld, sessionChild) sessionSandbox.apply.run (.ok ()) sessionConfined := by
  have hok : (sessionSandbox.apply.run.exec obligingSys (sessionWorld, sessionChild)).1 = .ok () := by
    decide
  rw [← hok]
  exact exec_runs (obligingSys_childStep (alongside_refl _ _)) _ _

theorem apply_inForce_session :
    sessionConfined.1.fs.tree.place.lookup 4242 = some (sessionCg.leaf 1) ∧
      sessionSandbox.InForce sessionChild sessionWorld.mounts sessionConfined.2 := by
  have h := wp_iff_runs.mp (apply_inForce (alongside_besides (OurDir sessionCg.parent) _)
    sessionLeaf_view.sound rfl sessionSandbox) _ _ sessionConfined_run
  exact ⟨h.1.place _ rfl, h.2⟩

/-- The only file on it is the store, at its default place. -/
def sessionFiles (l : Place String) : Option ℕ :=
  if l = ⟨0, ["home", "user", "mesh-supervisor.redb"]⟩ then some 7 else none

/-- In the default set-up, the store is in the directory that the child is in. -/
theorem store_hidden_session : ∃ ns place, sessionConfined.2.ns = some ns ∧
    place = sessionChild.cwd ∧
    ns.mounts.Opens sessionConfined.2.root sessionFiles sessionConfined.2.cwd 7 ∧
    (ns.mounts.umount place).Opens sessionConfined.2.root sessionFiles sessionConfined.2.cwd 7 := by
  have hresolve : ∀ place, sessionWorld.mounts.Resolves sessionChild.root ["home", "user"] place →
      place = sessionChild.cwd := fun place h => h.bare fun _ => rfl
  have h := wp_iff_runs.mp (store_hidden (alongside_besides (OurDir sessionCg.parent) _)
    sessionLeaf_view.sound rfl sessionLimits _ ["home", "user"] "mesh-supervisor.redb" sessionFiles 7
    ?_) _ _ sessionConfined_run
  · obtain ⟨ns, place, hns, hplace, hiff, hoff⟩ := h rfl
    have heq := hresolve place hplace
    exact ⟨ns, place, hns, heq, hiff.mpr (.inl (.inl heq.symm)), hoff⟩
  · intro place hplace
    rw [hresolve place hplace]
    refine ⟨rfl, ?_⟩
    rintro _ ⟨q, rfl⟩
    refine ⟨rfl, ?_, ?_⟩
    · simp [sessionChild]
    · simp [sessionChild]

end Session

end MeshSupervisor
