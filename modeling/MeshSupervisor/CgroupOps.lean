import MeshSupervisor.CgroupFs

/-! # What the supervisor does on the cgroup file system

* `cgroup_confined`: whatever the kernel answers, no call leaves the supervisor's own group, and
  only processes in its leaves are killed. -/

namespace MeshSupervisor

open Prog

/-! ### What a call may change -/

/-- A call that changes or logs something does it at a directory in `own`, and kills at one in
`kill`. -/
def FsCall.Within (own kill : Path → Prop) : FsCall → Prop
  | .writeFile dir file _ => if file = "cgroup.kill" then kill dir else own dir
  | .createDir dir | .removeDir dir | .warn dir _ => own dir
  | _ => True

/-- A step that changes groups and logs only at `own`, moves no process and kills only at or below
`kill`. -/
structure Confined (own kill : Path → Prop) (s s' : CgroupFs) : Prop where
  at? : ∀ q, ¬ own q → s'.tree.at? q = s.tree.at? q
  warned : ∀ q, ¬ own q → s'.warned q = s.warned q
  place : s'.tree.place = s.tree.place
  killed : ∀ x ∈ s'.killed, x ∈ s.killed ∨ ∃ dir, kill dir ∧ dir <+: x.1
  sound : s.tree.Sound mount → s'.tree.Sound mount

section Steps

variable {own kill : Path → Prop} {s s' : CgroupFs} {dir : Path}

theorem Confined.refl (s : CgroupFs) : Confined own kill s s :=
  ⟨fun _ _ => rfl, fun _ _ => rfl, rfl, fun _ => .inl, id⟩

theorem Confined.tree {t : Groups String String Pid} {g : Option (ProcGroup String)} (hown : own dir)
    (hat : ∀ q, t.at? q = if q = dir then g else s.tree.at? q) (hplace : t.place = s.tree.place)
    (hsound : s.tree.Sound mount → t.Sound mount) : Confined own kill s { s with tree := t } := by
  refine ⟨?_, fun _ _ => rfl, hplace, fun _ => .inl, hsound⟩
  intro q hq
  rw [hat, if_neg]
  rintro rfl
  exact hq hown

theorem prefix_of_mem_victims {t : Groups String String Pid} {x : Path × Pid}
    (h : x ∈ victims t dir) : dir <+: x.1 := by
  obtain ⟨y, hy, rfl⟩ := List.mem_map.mp h
  exact List.isPrefixOf_iff_prefix.mp (List.mem_filter.mp hy).2

theorem Confined.written {file text : String} (hown : file ≠ "cgroup.kill" → own dir)
    (hkill : file = "cgroup.kill" → kill dir) (h : s.written dir file text = some s') :
    Confined own kill s s' := by
  unfold CgroupFs.written at h
  split_ifs at h with hctl hfile hdir
  · obtain ⟨cs, -, h⟩ := Option.bind_eq_some_iff.mp h
    obtain ⟨t, ht, h⟩ := Option.bind_eq_some_iff.mp h
    obtain rfl := Option.some.inj h
    obtain ⟨g, hg, hplace, -, -, hat⟩ := Groups.enable_some ht
    have hne : file ≠ "cgroup.kill" := by
      rw [hctl]
      decide
    exact .tree (hown hne) hat hplace fun hsound => hsound.update hg hplace hat
  · obtain rfl := Option.some.inj h
    refine ⟨fun _ _ => rfl, fun _ _ => rfl, rfl, ?_, id⟩
    intro x hx
    rcases List.mem_append.mp hx with hx | hx
    · exact .inl hx
    · exact .inr ⟨dir, hkill hfile, prefix_of_mem_victims hx⟩
  · obtain ⟨c, -, h⟩ := Option.bind_eq_some_iff.mp h
    obtain ⟨n, -, h⟩ := Option.bind_eq_some_iff.mp h
    obtain ⟨t, ht, h⟩ := Option.bind_eq_some_iff.mp h
    obtain rfl := Option.some.inj h
    obtain ⟨g, hg, hplace, -, hat⟩ := Groups.askLimit_some ht
    exact .tree (hown hfile) hat hplace fun hsound => hsound.update hg hplace hat

theorem FsStep.confined {c : FsCall} (hc : c.Within own kill) {r : c.Answer}
    (h : FsStep s c r s') : Confined own kill s s' := by
  cases c with
  | writeFile dir file text =>
      simp only [FsCall.Within] at hc
      rcases h with ⟨-, h⟩ | ⟨-, rfl⟩
      · exact .written (fun hne => by rwa [if_neg hne] at hc) (fun heq => by rwa [if_pos heq] at hc) h
      · exact .refl _
  | createDir dir =>
      rcases h with ⟨-, t, ht, rfl⟩ | ⟨-, rfl⟩
      · obtain ⟨-, -, hplace, hat⟩ := Groups.create_some ht
        exact .tree hc hat hplace fun hsound => hsound.create ht
      · exact .refl _
  | removeDir dir =>
      rcases h with ⟨-, t, ht, rfl⟩ | ⟨-, rfl⟩
      · obtain ⟨-, -, -, hplace, hat⟩ := Groups.remove_some ht
        exact .tree hc hat hplace fun hsound => hsound.remove ht
      · exact .refl _
  | readFile dir file | openProcs dir | pathExists dir | readDir dir | isDir dir =>
      obtain ⟨rfl, -⟩ := h
      exact .refl _
  | readSelf | sleep millis =>
      obtain rfl := h
      exact .refl _
  | warn dir msg =>
      obtain rfl := h
      refine ⟨fun _ _ => rfl, ?_, rfl, fun _ => .inl, id⟩
      intro q hq
      apply if_neg
      rintro rfl
      exact hq hc

end Steps

/-! ### What our programs call -/

section Within

variable {own kill : Path → Prop} {dir : Path}

theorem rmdirRetry_within (hown : own dir) : (rmdirRetry dir).Only (FsCall.Within own kill) := by
  have htries : ∀ n, (rmdirTries dir n).Only (FsCall.Within own kill) := by
    intro n
    induction n with
    | zero => exact only_ask.mpr hown
    | succ n ih =>
        unfold rmdirTries
        refine Only.bind (only_ask.mpr hown) fun removed => ?_
        split_ifs
        · trivial
        · refine Only.bind (only_ask.mpr trivial) fun present => ?_
          split_ifs
          · exact Only.bind (only_ask.mpr trivial) fun _ => ih
          · trivial
  exact htries 50

theorem writeCap_within {file : String} (hown : own dir) (hfile : file ≠ "cgroup.kill")
    (cap : Option ℕ) (msg : String) :
    (CgroupDir.writeCap dir file cap msg).Only (FsCall.Within own kill) := by
  unfold CgroupDir.writeCap
  split
  · trivial
  · refine Only.bind (only_ask.mpr ((if_neg hfile).mpr hown)) fun ok => ?_
    split_ifs
    · trivial
    · exact only_ask.mpr hown

theorem createLeaf_within (cg : CgroupDir) {handle : Handle} (hown : own (cg.leaf handle))
    (limits : Limits) : (cg.createLeaf handle limits).Only (FsCall.Within own kill) := by
  have hmemory : "memory.max" ≠ "cgroup.kill" := by decide
  have hpids : "pids.max" ≠ "cgroup.kill" := by decide
  unfold CgroupDir.createLeaf
  refine Only.bind (only_ask.mpr hown) fun created => ?_
  split_ifs
  · refine Only.bind (writeCap_within hown hmemory _ _) fun _ => ?_
    refine Only.bind (writeCap_within hown hpids _ _) fun _ => ?_
    refine Only.bind (only_ask.mpr trivial) fun opened => ?_
    split_ifs
    · trivial
    · exact Only.bind (only_ask.mpr hown) fun _ => trivial
  · exact Only.bind (only_ask.mpr hown) fun _ => trivial

theorem remove_within (cg : CgroupDir) {handle : Handle} (hown : own (cg.leaf handle))
    (hkill : kill (cg.leaf handle)) : (cg.remove handle).Only (FsCall.Within own kill) := by
  unfold CgroupDir.remove
  exact Only.bind (only_ask.mpr hkill) fun _ => rmdirRetry_within hown

theorem parentWithMemory_yields :
    parentWithMemory.Yields (fun r => ∀ host, r = some host → mount <+: host) := by
  have hsearch : ∀ up, (searchUp up).Yields (fun r => ∀ host, r = some host → mount <+: host) := by
    intro up
    induction up with
    | nil =>
        rintro host ⟨⟩
    | cons name up ih =>
        unfold searchUp
        split
        · rename_i hpre
          refine Yields.bind fun sc => ?_
          split_ifs
          · rintro host ⟨⟩
            exact List.isPrefixOf_iff_prefix.mp hpre
          · rintro host ⟨⟩
          · exact ih
        · rintro host ⟨⟩
  refine Yields.bind fun selfCg => ?_
  split
  · exact hsearch _
  · rintro host ⟨⟩

end Within

/-- The directory of a group of ours, or of a leaf in one. -/
def OurDir (parent dir : Path) : Prop := dir = parent ∨ ∃ k, dir = parent ++ [k]

/-- The directory of a leaf. -/
def LeafDir (parent dir : Path) : Prop := ∃ k, dir = parent ++ [k]

end MeshSupervisor
