import MeshSupervisor.CgroupRuns

/-! # Leaves on the file system and leaves in the manager

`Cgroups` keeps the leaves as a table of handles; here they are directories.  `View` ties the two,
and each operation on the table is what the file system operations come to, for the outcome that
the calls decide (`createLeaf_view`, `remove_view`, `shutdown_view`). -/

namespace MeshSupervisor

open Prog

def Limits.cap (limits : Limits) (controller : String) : Option ℕ :=
  if controller = "pids" then limits.pids
  else if controller = "memory" then limits.memory
  else none

/-- The group of the supervisor has the leaves of the table. -/
structure View (cg : CgroupDir) (leaves : Cgroups) (s : CgroupFs) : Prop where
  sound : s.tree.Sound mount
  below : mount <+: cg.parent
  group : ∃ g, s.tree.at? cg.parent = some g ∧ "memory" ∈ g.control ∧ "pids" ∈ g.control
  leaf : ∀ k, (s.tree.at? (cg.parent ++ [k])).isSome = true ↔ ∃ h ∈ leaves.leaves, k = h.repr

/-- A leaf as it was created, after some of its caps were written. -/
structure Made (ours : Path → Prop) (dir : Path) (cap : String → Option ℕ) (s s' : CgroupFs) :
    Prop where
  sound : s'.tree.Sound mount
  other : ∀ q, ours q → q ≠ dir → s'.see q = s.see q
  self : ∃ g, s'.tree.at? dir = some g ∧ (s'.warned dir = s.warned dir → ∀ c, g.asked c = cap c)
  warned : ∃ w, s'.warned dir = s.warned dir ++ w

section Make

variable {ours : Path → Prop} {E : CgroupFs → CgroupFs → Prop} {s : CgroupFs} {dir : Path}

theorem written_limit {s' : CgroupFs} {file : String} {c : String} (hfile : limitFile file = some c)
    {n : ℕ} (h : s.written dir file n.repr = some s') :
    s'.warned = s.warned ∧ (s.tree.Sound mount → s'.tree.Sound mount) ∧
      ∃ g, s.tree.at? dir = some g ∧ ∀ q, s'.tree.at? q = if q = dir then
        some { g with asked := fun c' => if c' = c then some n else g.asked c' } else s.tree.at? q := by
  have hctl : file ≠ "cgroup.subtree_control" := by
    rintro rfl
    cases hfile
  have hkill : file ≠ "cgroup.kill" := by
    rintro rfl
    cases hfile
  unfold CgroupFs.written at h
  rw [if_neg hctl, if_neg hkill, hfile] at h
  obtain ⟨c', hc, hrest⟩ := Option.bind_eq_some_iff.mp h
  obtain rfl := Option.some.inj hc
  obtain ⟨n', hn, hset⟩ := Option.bind_eq_some_iff.mp hrest
  have hread : u64FromStr n.repr.toList = .ok n' := by
    cases hr : u64FromStr n.repr.toList with
    | error e =>
        rw [hr] at hn
        cases hn
    | ok v =>
        rw [hr] at hn
        cases hn
        rfl
  obtain rfl := ((u64FromStr_repr n n').mp hread).1
  obtain ⟨t, ht, heq⟩ := Option.bind_eq_some_iff.mp hset
  obtain rfl := Option.some.inj heq
  obtain ⟨g, hg, hplace, -, hat⟩ := Groups.askLimit_some ht
  exact ⟨rfl, fun hs => hs.update hg hplace hat, g, hg, hat⟩

theorem writeCap_made (hE : Elsewhere ours E) (hdir : ours dir) {file c : String}
    (hfile : limitFile file = some c) {cap : String → Option ℕ} (hc : cap c = none) {s₁ : CgroupFs}
    (h₁ : Made ours dir cap s s₁) (value : Option ℕ) (msg : String) :
    (CgroupDir.writeCap dir file value msg).wp (interfere E FsStep)
      (fun _ => Made ours dir (fun c' => if c' = c then value else cap c') s) s₁ := by
  obtain ⟨g, hg, hquiet⟩ := h₁.self
  obtain ⟨w, hw⟩ := h₁.warned
  cases value with
  | none =>
      have hcap : (fun c' => if c' = c then none else cap c') = cap := by
        funext c'
        split_ifs with heq
        · rw [heq, hc]
        · rfl
      rw [hcap]
      exact h₁
  | some n =>
      unfold CgroupDir.writeCap
      dsimp only
      rw [wp_bind]
      apply hE.wp_ask h₁.sound
      rintro s₂ r s₃ h₂ (⟨rfl, hwritten⟩ | ⟨rfl, rfl⟩)
      · obtain ⟨hlog, hsound, g', hg', hat⟩ := written_limit hfile hwritten
        have hsame : g' = g := by
          rw [h₂.at? dir hdir, hg] at hg'
          exact (Option.some.inj hg').symm
        subst hsame
        have hwarned : s₃.warned dir = s₁.warned dir := by
          rw [hlog, h₂.warned dir hdir]
        rw [if_pos rfl]
        refine ⟨hsound h₂.sound, ?_, ⟨_, (hat dir).trans (if_pos rfl), ?_⟩, w, ?_⟩
        · intro q hq hne
          rw [← h₁.other q hq hne, ← h₂.see q hq, CgroupFs.see_eq, hat, if_neg hne, hlog]
          exact ⟨rfl, rfl⟩
        · intro hno c'
          have hlimit := hquiet (hwarned.symm.trans hno) c'
          dsimp only
          split_ifs
          · rfl
          · exact hlimit
        · rw [hwarned, hw]
      · rw [if_neg Bool.false_ne_true]
        apply hE.wp_ask h₂.sound
        rintro s₄ r s₅ h₄ rfl
        have h := h₂.trans h₄
        have hlog : s₄.warned dir = s.warned dir ++ w := (h.warned dir hdir).trans hw
        refine ⟨h.sound, ?_, ⟨g, (h.at? dir hdir).trans hg, ?_⟩, w ++ [msg], ?_⟩
        · intro q hq hne
          rw [← h₁.other q hq hne, ← h.see q hq, CgroupFs.see_eq]
          exact ⟨rfl, if_neg hne⟩
        · intro hno
          have hlen := congrArg List.length hno
          simp [hlog] at hlen
        · simp [hlog]

/-- The caps of the leaf were asked of the kernel, and no others. -/
def CapsAsked (s : CgroupFs) (dir : Path) (limits : Limits) : Prop :=
  ∃ g, s.tree.at? dir = some g ∧ ∀ c, g.asked c = limits.cap c

/-- What a creation with this outcome comes to at the directory of the leaf. -/
def LeafOutcome.Seen (o : LeafOutcome) (dir : Path) (s : CgroupFs) (r : Option Path)
    (s' : CgroupFs) : Prop :=
  match o with
  | .mkdirFails => r = none ∧ s'.tree.at? dir = s.tree.at? dir
  | .procsFails => r = none ∧ s.tree.at? dir = none ∧ (s'.tree.at? dir).isSome = true
  | .opened => r = some dir ∧ s.tree.at? dir = none ∧ (s'.tree.at? dir).isSome = true

/-- What `create_leaf` comes to: one of its outcomes; and all caps were written unless a failure was
logged. -/
structure Created (ours : Path → Prop) (dir : Path) (limits : Limits) (s : CgroupFs)
    (r : Option Path) (s' : CgroupFs) : Prop where
  sound : s'.tree.Sound mount
  other : ∀ q, ours q → q ≠ dir → s'.see q = s.see q
  outcome : ∃ o : LeafOutcome, o.Seen dir s r s'
  warned : ∃ w, s'.warned dir = s.warned dir ++ w
  quiet : s'.warned dir = s.warned dir → r = some dir ∧ CapsAsked s' dir limits

/-- A creation that failed, and logged it. -/
theorem Created.failed {limits : Limits} {s₁ s₂ s' : CgroupFs} {msg : String} {o : LeafOutcome}
    {w : List String} (hdir : ours dir) (hlog : s₁.warned dir = s.warned dir ++ w)
    (hother : ∀ q, ours q → q ≠ dir → s₁.see q = s.see q) (h : Same ours s₁ s₂)
    (hwarn : FsStep s₂ (.warn dir msg) () s') (ho : o.Seen dir s none s₂) :
    Created ours dir limits s none s' := by
  obtain rfl := hwarn
  have hwarned : s₂.warned dir = s.warned dir ++ w := (h.warned dir hdir).trans hlog
  constructor
  · exact h.sound
  · intro q hq hne
    rw [← hother q hq hne, ← h.see q hq, CgroupFs.see_eq]
    exact ⟨rfl, if_neg hne⟩
  · exact ⟨o, by cases o <;> exact ho⟩
  · exact ⟨w ++ [msg], by simp [hwarned]⟩
  · intro hno
    simp [hwarned] at hno

theorem createLeaf_created (hE : Elsewhere ours E) {cg : CgroupDir} {h : Handle}
    (hdir : ours (cg.leaf h)) (hs : s.tree.Sound mount) (limits : Limits) :
    (cg.createLeaf h limits).wp (interfere E FsStep) (Created ours (cg.leaf h) limits s) s := by
  unfold CgroupDir.createLeaf
  rw [wp_bind]
  apply hE.wp_ask hs
  rintro s₁ r s₂ h₁ (⟨rfl, t, ht, rfl⟩ | ⟨rfl, rfl⟩)
  swap
  · rw [if_neg Bool.false_ne_true, wp_bind]
    apply hE.wp_ask h₁.sound
    intro s₃ r s₄ h₃ hwarn
    have hno : s₂.warned (cg.leaf h) = s.warned (cg.leaf h) ++ [] := by
      rw [List.append_nil, h₁.warned _ hdir]
    exact .failed (o := .mkdirFails) hdir hno (fun q hq _ => h₁.see q hq) h₃ hwarn
      ⟨rfl, (h₁.trans h₃).at? _ hdir⟩
  obtain ⟨-, hnone, -, hat⟩ := Groups.create_some ht
  have hfree : s.tree.at? (cg.leaf h) = none := (h₁.at? _ hdir).symm.trans hnone
  have hmade : Made ours (cg.leaf h) (fun _ => none) s { s₁ with tree := t } := by
    refine ⟨h₁.sound.create ht, ?_, ⟨_, (hat _).trans (if_pos rfl), fun _ _ => rfl⟩, [], ?_⟩
    · intro q hq hne
      rw [← h₁.see q hq, CgroupFs.see_eq]
      exact ⟨(hat q).trans (if_neg hne), rfl⟩
    · rw [List.append_nil]
      exact h₁.warned _ hdir
  rw [if_pos rfl, wp_bind]
  apply wp_mono (writeCap_made hE hdir (show limitFile "memory.max" = some "memory" from rfl) rfl
    hmade _ _)
  intro _ s₃ h₃
  rw [wp_bind]
  apply wp_mono (writeCap_made hE hdir (show limitFile "pids.max" = some "pids" from rfl) rfl
    h₃ _ _)
  intro _ s₄ (h₄ : Made ours (cg.leaf h) limits.cap s s₄)
  obtain ⟨g, hg, hquiet⟩ := h₄.self
  obtain ⟨w, hw⟩ := h₄.warned
  rw [wp_bind]
  apply hE.wp_ask h₄.sound
  rintro s₅ r s₆ h₅ ⟨rfl, -⟩
  have hg₅ : s₆.tree.at? (cg.leaf h) = some g := (h₅.at? _ hdir).trans hg
  cases r with
  | true =>
      constructor
      · exact h₅.sound
      · exact fun q hq hne => (h₅.see q hq).trans (h₄.other q hq hne)
      · exact ⟨.opened, rfl, hfree, by rw [hg₅]; rfl⟩
      · exact ⟨w, (h₅.warned _ hdir).trans hw⟩
      · exact fun hno => ⟨rfl, g, hg₅, hquiet ((h₅.warned _ hdir).symm.trans hno)⟩
  | false =>
      rw [if_neg Bool.false_ne_true, wp_bind]
      apply hE.wp_ask h₅.sound
      intro s₇ r s₈ h₇ hwarn
      apply Created.failed (o := .procsFails) hdir hw h₄.other (h₅.trans h₇) hwarn
      refine ⟨rfl, hfree, ?_⟩
      rw [h₇.at? _ hdir, hg₅]
      rfl

/-- What `remove` comes to is what its attempts to remove the leaf come to. -/
theorem remove_swept (hE : Elsewhere ours E) {cg : CgroupDir} {h : Handle} (hdir : ours (cg.leaf h))
    (hs : s.tree.Sound mount) :
    (cg.remove h).wp (interfere E FsStep) (fun _ => Swept ours (cg.leaf h) s) s :=
  killAndRemove_swept hE hdir hs

end Make

section Views

variable {E : CgroupFs → CgroupFs → Prop} {cg : CgroupDir} {leaves : Cgroups} {s s' : CgroupFs}

theorem FreshGroup.view (h : FreshGroup cg s) : View cg ⟨∅⟩ s := by
  refine ⟨h.sound, h.below, h.group, ?_⟩
  intro k
  rw [h.leafless k]
  simp

theorem View.leaf_iff (hv : View cg leaves s) (h : Handle) :
    (s.tree.at? (cg.leaf h)).isSome = true ↔ (leaves.leaves.lookup h).isSome = true := by
  rw [CgroupDir.leaf, hv.leaf, AList.lookup_isSome]
  constructor
  · rintro ⟨h', hmem, hrepr⟩
    rwa [repr_injective hrepr]
  · intro hmem
    exact ⟨h, hmem, rfl⟩

theorem CgroupDir.leaf_inj {cg : CgroupDir} {h h' : Handle} (heq : cg.leaf h = cg.leaf h') :
    h = h' := by
  simp only [CgroupDir.leaf, List.append_cancel_left_eq, List.cons.injEq, and_true] at heq
  exact repr_injective heq

theorem CgroupDir.mount_le (hbelow : mount <+: cg.parent) (h : Handle) :
    mount.length ≤ (cg.leaf h).length := by
  have hlen := hbelow.length_le
  simp only [CgroupDir.leaf, List.length_append]
  omega

theorem CgroupDir.parent_ne_leaf (cg : CgroupDir) (h : Handle) : cg.parent ≠ cg.leaf h :=
  fun he => not_leafDir cg.parent ⟨_, he⟩

theorem View.update {leaves' : Cgroups} (hv : View cg leaves s) {h : Handle}
    (hs : s'.tree.Sound mount)
    (hother : ∀ q, OurDir cg.parent q → q ≠ cg.leaf h → s'.see q = s.see q)
    (hself : (s'.tree.at? (cg.leaf h)).isSome = true ↔ h ∈ leaves'.leaves)
    (hleaves : ∀ h', h' ≠ h → (h' ∈ leaves'.leaves ↔ h' ∈ leaves.leaves)) :
    View cg leaves' s' := by
  refine ⟨hs, hv.below, ?_, ?_⟩
  · rw [(CgroupFs.see_eq.mp (hother _ (.inl rfl) (cg.parent_ne_leaf h))).1]
    exact hv.group
  · intro k
    by_cases hk : cg.parent ++ [k] = cg.leaf h
    · have hrepr : k = h.repr := by simpa [CgroupDir.leaf] using hk
      rw [hk, hself]
      constructor
      · exact fun hmem => ⟨h, hmem, hrepr⟩
      · rintro ⟨h', hmem, hk'⟩
        rwa [repr_injective (hrepr.symm.trans hk')]
    · rw [(CgroupFs.see_eq.mp (hother _ (.inr ⟨k, rfl⟩) hk)).1, hv.leaf]
      have hne : ∀ h' : Handle, k = h'.repr → h' ≠ h := by
        rintro h' rfl rfl
        exact hk rfl
      constructor
      · rintro ⟨h', hmem, hk'⟩
        exact ⟨h', (hleaves h' (hne h' hk')).mpr hmem, hk'⟩
      · rintro ⟨h', hmem, hk'⟩
        exact ⟨h', (hleaves h' (hne h' hk')).mp hmem, hk'⟩

theorem View.same (hv : View cg leaves s) (h : Same (OurDir cg.parent) s s') : View cg leaves s' := by
  refine ⟨h.sound, hv.below, ?_, ?_⟩
  · rw [h.at? _ (.inl rfl)]
    exact hv.group
  · intro k
    rw [h.at? _ (.inr ⟨k, rfl⟩)]
    exact hv.leaf k

/-- Who is in the leaves makes no difference. -/
theorem View.join (hv : View cg leaves s) (h : Handle) (n : LaunchId) :
    View cg (leaves.join h n) s := by
  refine ⟨hv.sound, hv.below, hv.group, ?_⟩
  intro k
  have hmem : ∀ h', h' ∈ (leaves.join h n).leaves ↔ h' ∈ leaves.leaves := by
    intro h'
    rw [← AList.lookup_isSome, ← AList.lookup_isSome, Cgroups.join, Table.lookup_modify]
    split_ifs with heq
    · rw [heq, Option.isSome_map]
    · rfl
  rw [hv.leaf]
  simp only [hmem]

/-- A created leaf is a created leaf of the table, with the same outcome. -/
theorem Created.view {h : Handle} {limits : Limits} {r : Option Path} (hv : View cg leaves s)
    (hc : Created (OurDir cg.parent) (cg.leaf h) limits s r s') :
    ∃ outcome, View cg (leaves.createLeaf h outcome).1 s' ∧
      r = if (leaves.createLeaf h outcome).2 then some (cg.leaf h) else none := by
  have hinsert : (s'.tree.at? (cg.leaf h)).isSome = true →
      View cg ⟨AList.insert h [] leaves.leaves⟩ s' := by
    intro hsome
    apply hv.update hc.sound hc.other
    · simp [hsome]
    · intro h' hne
      simp [hne]
  have hfree : s.tree.at? (cg.leaf h) = none → ¬ (leaves.leaves.lookup h).isSome = true := by
    intro hnone
    rw [← hv.leaf_iff, hnone]
    exact Bool.false_ne_true
  obtain ⟨o, ho⟩ := hc.outcome
  cases o with
  | mkdirFails =>
      have hfails : leaves.createLeaf h .mkdirFails = (leaves, false) := by
        unfold Cgroups.createLeaf
        split_ifs <;> rfl
      refine ⟨.mkdirFails, ?_⟩
      rw [hfails]
      refine ⟨hv.update hc.sound hc.other ?_ fun _ _ => Iff.rfl, ho.1⟩
      rw [ho.2, hv.leaf_iff, AList.lookup_isSome]
  | procsFails =>
      refine ⟨.procsFails, ?_⟩
      rw [Cgroups.createLeaf, if_neg (hfree ho.2.1)]
      exact ⟨hinsert ho.2.2, ho.1⟩
  | opened =>
      refine ⟨.opened, ?_⟩
      rw [Cgroups.createLeaf, if_neg (hfree ho.2.1)]
      exact ⟨hinsert ho.2.2, ho.1⟩

theorem Swept.view {h : Handle} (hv : View cg leaves s)
    (hsw : Swept (OurDir cg.parent) (cg.leaf h) s s') :
    ∃ rmdir, View cg (leaves.remove h rmdir) s' ∧
      (s'.warned (cg.leaf h) = s.warned (cg.leaf h) →
        rmdir = true ∧ s'.tree.at? (cg.leaf h) = none) := by
  rcases hsw.self with ⟨hnone, -⟩ | ⟨hsame, hlog⟩
  · refine ⟨true, ?_, fun _ => ⟨rfl, hnone⟩⟩
    apply hv.update hsw.sound hsw.other
    · simp [hnone, Cgroups.remove]
    · intro h' hne
      simp [Cgroups.remove, hne]
  · refine ⟨false, ?_, ?_⟩
    · apply hv.update hsw.sound hsw.other
      · rw [hsame, hv.leaf_iff, AList.lookup_isSome]
        rfl
      · exact fun _ _ => Iff.rfl
    · intro hno
      simp [hlog] at hno

/-- **`create_leaf` on the file system is `create_leaf` on the table**, with one of its outcomes; in
a run that logs nothing about the leaf it is the outcome without an error, and every cap was
written. -/
theorem createLeaf_view (hE : Elsewhere (OurDir cg.parent) E) (hv : View cg leaves s) (h : Handle)
    (limits : Limits) :
    (cg.createLeaf h limits).wp (interfere E FsStep)
      (fun r s' => (∃ outcome, View cg (leaves.createLeaf h outcome).1 s' ∧
          r = if (leaves.createLeaf h outcome).2 then some (cg.leaf h) else none) ∧
        (s'.warned (cg.leaf h) = s.warned (cg.leaf h) →
          r = some (cg.leaf h) ∧ CapsAsked s' (cg.leaf h) limits)) s := by
  apply wp_mono (createLeaf_created hE (.inr ⟨_, rfl⟩) hv.sound limits)
  exact fun r s' hc => ⟨hc.view hv, hc.quiet⟩

/-- **`remove` on the file system is `remove` on the table**; in a run that logs nothing about the
leaf it is gone, and no process is in it or below it. -/
theorem remove_view (hE : Elsewhere (OurDir cg.parent) E) (hv : View cg leaves s) (h : Handle) :
    (cg.remove h).wp (interfere E FsStep)
      (fun _ s' => ∃ rmdir, View cg (leaves.remove h rmdir) s' ∧
        (s'.warned (cg.leaf h) = s.warned (cg.leaf h) →
          rmdir = true ∧ ∀ pid q, s'.tree.place.lookup pid = some q → ¬ cg.leaf h <+: q)) s := by
  apply wp_mono (remove_swept hE (.inr ⟨_, rfl⟩) hv.sound)
  intro _ s' hsw
  obtain ⟨rmdir, hview, hquiet⟩ := hsw.view hv
  refine ⟨rmdir, hview, fun hno => ⟨(hquiet hno).1, ?_⟩⟩
  exact fun pid q => hsw.sound.deserted (hquiet hno).2 (CgroupDir.mount_le hv.below h)

/-- **`shutdown` takes the group with everything in it**: nothing is left of it, and no process runs
in it or below it; or the group is still there, which is the one new entry of its log, and every leaf
is gone or as before. -/
theorem shutdown_view (hE : Elsewhere (OurDir cg.parent) E) (hv : View cg leaves s) :
    cg.shutdown.wp (interfere E FsStep)
      (fun _ s' =>
        ((∀ q, s'.tree.at? (cg.parent ++ q) = none) ∧
            ∀ pid q, s'.tree.place.lookup pid = some q → ¬ cg.parent <+: q) ∨
          (s'.warned cg.parent = s.warned cg.parent ++ ["cgroup leftover could not be removed"] ∧
            s'.tree.at? cg.parent = s.tree.at? cg.parent ∧
            ∀ h, s'.tree.at? (cg.leaf h) = none ∨
              s'.tree.at? (cg.leaf h) = s.tree.at? (cg.leaf h))) s := by
  apply wp_mono (removeGroup_emptied hE (.inl rfl) (fun k => .inr ⟨k, rfl⟩) hv.sound)
  intro _ s' h
  rcases h.self with hnone | ⟨hsame, hlog⟩
  · left
    exact ⟨h.sound.absent hnone hv.below.length_le,
      fun pid q => h.sound.deserted hnone hv.below.length_le⟩
  · right
    exact ⟨hlog, hsame, fun handle => h.leaf handle.repr⟩

end Views

/-! ### In the session -/

section Session

def sessionLimits : Limits := { memory := some 1048576, pids := some 16, cpu := none }

theorem sessionReady_view : View sessionCg ⟨∅⟩ sessionReady := sessionReady_fresh.view

/-- The file system with a leaf for handle 1. -/
def sessionLeaf : CgroupFs :=
  ((sessionCg.createLeaf 1 sessionLimits).exec (obliging sessionSelf) sessionReady).2

theorem createLeaf_view_session :
    (∃ outcome, View sessionCg (Cgroups.createLeaf ⟨∅⟩ 1 outcome).1 sessionLeaf) ∧
      CapsAsked sessionLeaf (sessionCg.leaf 1) sessionLimits := by
  have hrun := exec_runs (obliging_outside (OurDir sessionCg.parent) sessionSelf)
    (sessionCg.createLeaf 1 sessionLimits) sessionReady
  obtain ⟨⟨outcome, hview, -⟩, hquiet⟩ := wp_iff_runs.mp
    (createLeaf_view (outside_elsewhere _) sessionReady_view 1 sessionLimits) _ _ hrun
  have hno : sessionLeaf.warned (sessionCg.leaf 1) = sessionReady.warned (sessionCg.leaf 1) := by
    decide
  exact ⟨⟨outcome, hview⟩, (hquiet hno).2⟩

theorem sessionLeaf_keys : sessionLeaf.tree.groups.keys =
    [sessionCg.leaf 1, sessionCg.parent, sessionHost ++ ["session.scope"], sessionHost, mount] := by
  decide

theorem sessionLeaf_view : View sessionCg ⟨AList.insert 1 [] ∅⟩ sessionLeaf := by
  constructor
  · apply Groups.Sound.of_keys
    · decide
    · decide
  · decide
  · exact ⟨_, rfl, by decide, by decide⟩
  · intro k
    rw [Groups.at?, AList.lookup_isSome, AList.mem_keys, sessionLeaf_keys]
    simp only [AList.mem_insert, AList.notMem_empty, or_false, exists_eq_left]
    simp [sessionCg, CgroupDir.leaf, sessionHost, mount, groupName]

theorem remove_view_session :
    View sessionCg (Cgroups.remove ⟨AList.insert 1 [] ∅⟩ 1 true)
      ((sessionCg.remove 1).exec (obliging sessionSelf) sessionLeaf).2 := by
  have hrun := exec_runs (obliging_outside (OurDir sessionCg.parent) sessionSelf)
    (sessionCg.remove 1) sessionLeaf
  obtain ⟨rmdir, hview, hquiet⟩ := wp_iff_runs.mp
    (remove_view (outside_elsewhere _) sessionLeaf_view 1) _ _ hrun
  have hno : ((sessionCg.remove 1).exec (obliging sessionSelf) sessionLeaf).2.warned
      (sessionCg.leaf 1) = sessionLeaf.warned (sessionCg.leaf 1) := by
    decide
  obtain ⟨rfl, -⟩ := hquiet hno
  exact hview

theorem shutdown_view_session : (sessionLeaf.tree.at? sessionCg.parent).isSome = true ∧
    ∀ q, (sessionCg.shutdown.exec (obliging sessionSelf) sessionLeaf).2.tree.at?
      (sessionCg.parent ++ q) = none := by
  have hrun := exec_runs (obliging_outside (OurDir sessionCg.parent) sessionSelf)
    sessionCg.shutdown sessionLeaf
  have hgone : (sessionCg.shutdown.exec (obliging sessionSelf) sessionLeaf).2.tree.at?
      sessionCg.parent = none := by
    decide
  obtain ⟨g, hg, -⟩ := sessionLeaf_view.group
  refine ⟨by rw [hg]; rfl, ?_⟩
  rcases wp_iff_runs.mp (shutdown_view (outside_elsewhere _) sessionLeaf_view) _ _ hrun with
    h | ⟨-, hsame, -⟩
  · exact h.1
  · rw [hgone, hg] at hsame
    cases hsame

end Session

end MeshSupervisor
