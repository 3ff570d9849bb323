import MeshSupervisor.CgroupOps

/-! # Runs on the cgroup file system

What the functions of `cgroup.rs` come to while everybody else, our own children among them, may do
anything on the file system except to touch our group and its leaves (`Elsewhere`): processes exit,
fork and move, groups come and go below the leaves and anywhere else. -/

namespace MeshSupervisor

open Prog

/-- A group, and what was logged about it. -/
def CgroupFs.see (s : CgroupFs) (q : Path) : Option (ProcGroup String) × List String :=
  (s.tree.at? q, s.warned q)

theorem CgroupFs.see_eq {s s' : CgroupFs} {q : Path} :
    s'.see q = s.see q ↔ s'.tree.at? q = s.tree.at? q ∧ s'.warned q = s.warned q :=
  Prod.mk_inj

/-- What others do: they leave the groups `ours` as they are, and log nothing about them. -/
structure Elsewhere (ours : Path → Prop) (E : CgroupFs → CgroupFs → Prop) : Prop where
  sound : ∀ {s s'}, E s s' → s.tree.Sound mount → s'.tree.Sound mount
  see : ∀ {s s'}, E s s' → ∀ q, ours q → s'.see q = s.see q

/-- Nothing of ours has changed. -/
structure Same (ours : Path → Prop) (s s' : CgroupFs) : Prop where
  sound : s'.tree.Sound mount
  see : ∀ q, ours q → s'.see q = s.see q

section Calls

variable {ours : Path → Prop} {E : CgroupFs → CgroupFs → Prop} {s : CgroupFs}

theorem Same.refl (hs : s.tree.Sound mount) : Same ours s s := ⟨hs, fun _ _ => rfl⟩

theorem Same.trans {s₁ s₂ : CgroupFs} (h₁ : Same ours s s₁) (h₂ : Same ours s₁ s₂) :
    Same ours s s₂ := ⟨h₂.sound, fun q hq => (h₂.see q hq).trans (h₁.see q hq)⟩

theorem Same.at? {s' : CgroupFs} (h : Same ours s s') (q : Path) (hq : ours q) :
    s'.tree.at? q = s.tree.at? q := (CgroupFs.see_eq.mp (h.see q hq)).1

theorem Same.warned {s' : CgroupFs} (h : Same ours s s') (q : Path) (hq : ours q) :
    s'.warned q = s.warned q := (CgroupFs.see_eq.mp (h.see q hq)).2

/-- All that others may do. -/
def outside (ours : Path → Prop) (s s' : CgroupFs) : Prop :=
  (s.tree.Sound mount → s'.tree.Sound mount) ∧ ∀ q, ours q → s'.see q = s.see q

theorem outside_elsewhere (ours : Path → Prop) : Elsewhere ours (outside ours) :=
  ⟨fun h => h.1, fun h => h.2⟩

/-- A kernel that refuses nothing, with others around that happen to do nothing. -/
theorem obliging_outside (ours : Path → Prop) (self : List Char) (s : CgroupFs) (c : FsCall) :
    interfere (outside ours) FsStep s c (obliging self s c).1 (obliging self s c).2 :=
  ⟨s, ⟨id, fun _ _ => rfl⟩, obliging_step self s c⟩

theorem Elsewhere.wp_ask (hE : Elsewhere ours E) (hs : s.tree.Sound mount) {c : FsCall}
    {Q : c.Answer → CgroupFs → Prop} (hQ : ∀ s₁ r s', Same ours s s₁ → FsStep s₁ c r s' → Q r s') :
    (ask c : FsProg c.Answer).wp (interfere E FsStep) Q s := by
  rintro r s' ⟨s₁, he, hstep⟩
  exact hQ s₁ r s' ⟨hE.sound he hs, hE.see he⟩ hstep

end Calls

/-- After the attempt to remove `dir`: it is gone, or it is as before and that was logged. -/
structure Swept (ours : Path → Prop) (dir : Path) (s s' : CgroupFs) : Prop where
  sound : s'.tree.Sound mount
  other : ∀ q, ours q → q ≠ dir → s'.see q = s.see q
  self : (s'.tree.at? dir = none ∧ s'.warned dir = s.warned dir) ∨
    (s'.tree.at? dir = s.tree.at? dir ∧
      s'.warned dir = s.warned dir ++ ["cgroup leftover could not be removed"])

section Sweep

variable {ours : Path → Prop} {E : CgroupFs → CgroupFs → Prop} {s : CgroupFs} {dir : Path}

theorem rmdirTries_swept (hE : Elsewhere ours E) (hdir : ours dir) (hs : s.tree.Sound mount) (n : ℕ) :
    (rmdirTries dir n).wp (interfere E FsStep) (fun _ => Swept ours dir s) s := by
  have hgoal : ∀ s₁, Same ours s s₁ →
      (rmdirTries dir n).wp (interfere E FsStep) (fun _ => Swept ours dir s) s₁ := by
    induction n with
    | zero =>
        intro s₁ h₁
        apply hE.wp_ask h₁.sound
        rintro s₂ r s' h₂ rfl
        have h := h₁.trans h₂
        refine ⟨h.sound, ?_, .inr ⟨h.at? dir hdir, ?_⟩⟩
        · intro q hq hne
          rw [← h.see q hq]
          exact congrArg (_, ·) (if_neg hne)
        · rw [← h.warned dir hdir]
          exact if_pos rfl
    | succ n ih =>
        intro s₁ h₁
        unfold rmdirTries
        rw [wp_bind]
        apply hE.wp_ask h₁.sound
        rintro s₂ r s' h₂ (⟨rfl, t, ht, rfl⟩ | ⟨rfl, rfl⟩)
        · obtain ⟨-, -, -, -, hat⟩ := Groups.remove_some ht
          have h := h₁.trans h₂
          refine ⟨h.sound.remove ht, ?_, .inl ⟨?_, h.warned dir hdir⟩⟩
          · intro q hq hne
            rw [← h.see q hq]
            exact congrArg (·, _) ((hat q).trans (if_neg hne))
          · exact (hat dir).trans (if_pos rfl)
        · rw [if_neg Bool.false_ne_true, wp_bind]
          apply hE.wp_ask h₂.sound
          rintro s₃ r s₄ h₃ ⟨rfl, rfl⟩
          have h := (h₁.trans h₂).trans h₃
          split_ifs with hpresent
          · rw [wp_bind]
            apply hE.wp_ask h₃.sound
            rintro s₅ r s₆ h₅ rfl
            exact ih _ (h.trans h₅)
          · refine ⟨h.sound, fun q hq _ => h.see q hq, .inl ⟨?_, h.warned dir hdir⟩⟩
            simpa using hpresent
  exact hgoal s (.refl hs)

theorem written_kill {s' : CgroupFs} {text : String} (h : s.written dir "cgroup.kill" text = some s') :
    s'.tree = s.tree ∧ s'.warned = s.warned := by
  unfold CgroupFs.written at h
  rw [if_neg (by decide), if_pos rfl] at h
  split_ifs at h
  obtain rfl := Option.some.inj h
  exact ⟨rfl, rfl⟩

theorem Same.of_kill {s' : CgroupFs} {r : Bool} (hs : s.tree.Sound mount)
    (h : FsStep s (.writeFile dir "cgroup.kill" "1") r s') : Same ours s s' := by
  rcases h with ⟨-, h⟩ | ⟨-, rfl⟩
  · obtain ⟨htree, hwarned⟩ := written_kill h
    refine ⟨htree ▸ hs, fun q _ => ?_⟩
    unfold CgroupFs.see
    rw [htree, hwarned]
  · exact .refl hs

theorem Swept.of_same {s₁ s' : CgroupFs} (h₁ : Same ours s s₁) (hdir : ours dir)
    (h : Swept ours dir s₁ s') : Swept ours dir s s' := by
  refine ⟨h.sound, fun q hq hne => (h.other q hq hne).trans (h₁.see q hq), ?_⟩
  rcases h.self with ⟨hnone, hw⟩ | ⟨hsame, hw⟩
  · exact .inl ⟨hnone, hw.trans (h₁.warned dir hdir)⟩
  · exact .inr ⟨hsame.trans (h₁.at? dir hdir), by rw [hw, h₁.warned dir hdir]⟩

theorem killAndRemove_swept (hE : Elsewhere ours E) (hdir : ours dir) (hs : s.tree.Sound mount) :
    (do let _ ← writeFile dir "cgroup.kill" "1"; rmdirRetry dir).wp (interfere E FsStep)
      (fun _ => Swept ours dir s) s := by
  rw [wp_bind]
  apply hE.wp_ask hs
  intro s₁ r s₂ h₁ hkill
  have h := h₁.trans (.of_kill h₁.sound hkill)
  apply wp_mono (rmdirTries_swept hE hdir h.sound 50)
  exact fun _ s' => .of_same h hdir

theorem sweepLeaf_swept (hE : Elsewhere ours E) {parent : Path} {name : String}
    (hdir : ours (parent ++ [name])) (hs : s.tree.Sound mount) :
    (sweepLeaf parent name).wp (interfere E FsStep) (fun _ => Swept ours (parent ++ [name]) s) s := by
  unfold sweepLeaf
  rw [wp_bind]
  apply hE.wp_ask hs
  rintro s₁ r s₂ h ⟨rfl, rfl⟩
  split_ifs with hpresent
  · apply wp_mono (killAndRemove_swept hE hdir h.sound)
    exact fun _ s' => .of_same h hdir
  · refine ⟨h.sound, fun q hq _ => h.see q hq, .inl ⟨?_, h.warned _ hdir⟩⟩
    simpa using hpresent

/-- Some leaves are gone, the others are as before. -/
structure Shrunk (ours : Path → Prop) (parent : Path) (s s' : CgroupFs) : Prop where
  sound : s'.tree.Sound mount
  other : ∀ q, ours q → ¬ LeafDir parent q → s'.see q = s.see q
  leaf : ∀ k, s'.tree.at? (parent ++ [k]) = none ∨
    s'.tree.at? (parent ++ [k]) = s.tree.at? (parent ++ [k])

theorem Shrunk.of_same {parent : Path} {s₁ : CgroupFs} (hours : ∀ k, ours (parent ++ [k]))
    (h : Same ours s s₁) : Shrunk ours parent s s₁ :=
  ⟨h.sound, fun q hq _ => h.see q hq, fun k => .inr (h.at? _ (hours k))⟩

theorem Shrunk.sweep {parent : Path} {name : String} {s₁ s' : CgroupFs}
    (hours : ∀ k, ours (parent ++ [k])) (h : Shrunk ours parent s s₁)
    (hsw : Swept ours (parent ++ [name]) s₁ s') : Shrunk ours parent s s' := by
  constructor
  · exact hsw.sound
  · intro q hq hleaf
    have hne : q ≠ parent ++ [name] := fun he => hleaf ⟨name, he⟩
    exact (hsw.other q hq hne).trans (h.other q hq hleaf)
  · intro k
    by_cases hk : k = name
    · subst hk
      rcases hsw.self with ⟨hnone, -⟩ | ⟨hsame, -⟩
      · exact .inl hnone
      · rw [hsame]
        exact h.leaf k
    · have hne : parent ++ [k] ≠ parent ++ [name] := by simpa using hk
      rw [(CgroupFs.see_eq.mp (hsw.other _ (hours k) hne)).1]
      exact h.leaf k

/-- The group is gone with its leaves; or it is still there, which was logged. -/
structure Emptied (ours : Path → Prop) (parent : Path) (s s' : CgroupFs) : Prop where
  sound : s'.tree.Sound mount
  other : ∀ q, ours q → ¬ OurDir parent q → s'.see q = s.see q
  leaf : ∀ k, s'.tree.at? (parent ++ [k]) = none ∨
    s'.tree.at? (parent ++ [k]) = s.tree.at? (parent ++ [k])
  self : s'.tree.at? parent = none ∨ (s'.tree.at? parent = s.tree.at? parent ∧
    s'.warned parent = s.warned parent ++ ["cgroup leftover could not be removed"])

theorem not_leafDir (parent : Path) : ¬ LeafDir parent parent := by
  rintro ⟨k, hk⟩
  have hlen := congrArg List.length hk
  simp at hlen

theorem removeGroup_emptied (hE : Elsewhere ours E) {parent : Path} (hparent : ours parent)
    (hours : ∀ k, ours (parent ++ [k])) (hs : s.tree.Sound mount) :
    (removeGroup parent).wp (interfere E FsStep) (fun _ => Emptied ours parent s) s := by
  unfold removeGroup
  rw [wp_bind]
  apply hE.wp_ask hs
  rintro s₁ r s₂ h ⟨rfl, -⟩
  rw [wp_bind]
  have heach : (each (sweepLeaf parent) (r.getD [])).wp (interfere E FsStep)
      (fun _ => Shrunk ours parent s) s₂ := by
    refine wp_each (I := fun _ => Shrunk ours parent s) ?_ _ (.of_same hours h)
    intro name _ s₃ h₃
    apply wp_mono (sweepLeaf_swept hE (hours name) h₃.sound)
    exact fun _ s' => h₃.sweep hours
  apply wp_mono heach
  intro _ s₃ h₃
  apply wp_mono (rmdirTries_swept hE hparent h₃.sound 50)
  intro _ s' hsw
  have hne : ∀ k, parent ++ [k] ≠ parent := fun k he => not_leafDir parent ⟨k, he.symm⟩
  constructor
  · exact hsw.sound
  · intro q hq hour
    have hq' : q ≠ parent := fun he => hour (.inl he)
    exact (hsw.other q hq hq').trans (h₃.other q hq fun hl => hour (.inr hl))
  · intro k
    rw [(CgroupFs.see_eq.mp (hsw.other _ (hours k) (hne k))).1]
    exact h₃.leaf k
  · rcases hsw.self with ⟨hnone, -⟩ | ⟨hsame, hw⟩
    · exact .inl hnone
    · obtain ⟨hat₃, hlog₃⟩ := CgroupFs.see_eq.mp (h₃.other parent hparent (not_leafDir parent))
      exact .inr ⟨hsame.trans hat₃, by rw [hw, hlog₃]⟩

end Sweep

/-! ### Setting up -/

/-- A directory of a group `mesh-supervisor` below the mount, or of a leaf in one. -/
def SupervisorDir (dir : Path) : Prop := ∃ host, mount <+: host ∧ OurDir (host ++ [groupName]) dir

/-- The group is there, hands on the controllers of the caps, and has no leaf. -/
structure FreshGroup (cg : CgroupDir) (s : CgroupFs) : Prop where
  sound : s.tree.Sound mount
  below : mount <+: cg.parent
  group : ∃ g, s.tree.at? cg.parent = some g ∧ "memory" ∈ g.control ∧ "pids" ∈ g.control
  leafless : ∀ k, s.tree.at? (cg.parent ++ [k]) = none

/-- What has become of one of our directories when the set-up has failed. -/
inductive Abandoned (s s' : CgroupFs) (dir : Path) : Prop
  | gone : s'.tree.at? dir = none → Abandoned s s' dir
  | asBefore : s'.tree.at? dir = s.tree.at? dir → Abandoned s s' dir
  | bare : s'.tree.at? dir = some ⟨[], fun _ => none⟩ →
      "cgroup controller delegation failed" ∈ s'.warned dir → Abandoned s s' dir

section SetUp

variable {E : CgroupFs → CgroupFs → Prop} {s : CgroupFs}

theorem searchUp_same {ours : Path → Prop} (hE : Elsewhere ours E) (hs : s.tree.Sound mount)
    (up : List String) : (searchUp up).wp (interfere E FsStep) (fun _ => Same ours s) s := by
  have hgoal : ∀ s₁, Same ours s s₁ →
      (searchUp up).wp (interfere E FsStep) (fun _ => Same ours s) s₁ := by
    induction up with
    | nil => exact fun s₁ h₁ => h₁
    | cons name up ih =>
        intro s₁ h₁
        unfold searchUp
        split
        · rw [wp_bind]
          apply hE.wp_ask h₁.sound
          rintro s₂ r s₃ h₂ ⟨rfl, -⟩
          have h := h₁.trans h₂
          split_ifs
          · exact h
          · exact h
          · exact ih _ h
        · exact h₁
  exact hgoal s (.refl hs)

theorem parentWithMemory_same {ours : Path → Prop} (hE : Elsewhere ours E)
    (hs : s.tree.Sound mount) :
    parentWithMemory.wp (interfere E FsStep) (fun _ => Same ours s) s := by
  unfold parentWithMemory
  rw [wp_bind]
  apply hE.wp_ask hs
  rintro s₁ r s₂ h rfl
  split
  · apply wp_mono (searchUp_same hE h.sound _)
    exact fun _ _ => h.trans
  · exact h

theorem requested_delegation : requested "+memory +pids" = some ["memory", "pids"] := by
  decide

theorem written_delegation {dir : Path} {s' : CgroupFs}
    (h : s.written dir "cgroup.subtree_control" "+memory +pids" = some s') :
    (s.tree.Sound mount → s'.tree.Sound mount) ∧ ∃ g', "memory" ∈ g'.control ∧ "pids" ∈ g'.control ∧
      ∀ q, s'.tree.at? q = if q = dir then some g' else s.tree.at? q := by
  unfold CgroupFs.written at h
  rw [if_pos rfl, requested_delegation] at h
  obtain ⟨cs, hcs, h⟩ := Option.bind_eq_some_iff.mp h
  obtain rfl := Option.some.inj hcs
  obtain ⟨t, ht, h⟩ := Option.bind_eq_some_iff.mp h
  obtain rfl := Option.some.inj h
  obtain ⟨g, hg, hplace, -, -, hat⟩ := Groups.enable_some ht
  refine ⟨fun hs => hs.update hg hplace hat, _, ?_, ?_, hat⟩
  · simp
  · simp

theorem Emptied.cases {ours : Path → Prop} {parent : Path} {s₁ s' s'' : CgroupFs}
    (h₁ : Same ours s s₁) (h : Emptied ours parent s₁ s') (h₂ : Same ours s' s'') {dir : Path}
    (hdir : ours dir) : s''.tree.at? dir = none ∨ s''.tree.at? dir = s.tree.at? dir := by
  rw [h₂.at? dir hdir, ← h₁.at? dir hdir]
  by_cases hour : OurDir parent dir
  · rcases hour with rfl | ⟨k, rfl⟩
    · exact h.self.imp_right And.left
    · exact h.leaf k
  · exact .inr (CgroupFs.see_eq.mp (h.other dir hdir hour)).1

theorem Abandoned.of_cases {s' : CgroupFs} {dir : Path}
    (h : s'.tree.at? dir = none ∨ s'.tree.at? dir = s.tree.at? dir) : Abandoned s s' dir := by
  rcases h with hnone | hsame
  · exact .gone hnone
  · exact .asBefore hsame

/-- From a host on: sweep, create, delegate. -/
theorem setUp_fresh (hE : Elsewhere SupervisorDir E) {host : Path} (hhost : mount <+: host)
    {s₁ : CgroupFs} (h₁ : Same SupervisorDir s s₁) :
    (do
      removeGroup (host ++ [groupName])
      let created ← createDir (host ++ [groupName])
      if created then
        let delegated ← writeFile (host ++ [groupName]) "cgroup.subtree_control" "+memory +pids"
        if delegated then pure (some ⟨host ++ [groupName]⟩)
        else
          warn (host ++ [groupName]) "cgroup controller delegation failed"
          let _ ← removeDir (host ++ [groupName])
          pure none
      else pure none : FsProg (Option CgroupDir)).wp (interfere E FsStep)
      (fun r s' => match r with
        | some cg => FreshGroup cg s' ∧ cg.parent = host ++ [groupName]
        | none => ∀ dir, SupervisorDir dir → Abandoned s s' dir) s₁ := by
  have hparent : SupervisorDir (host ++ [groupName]) := ⟨host, hhost, .inl rfl⟩
  have hours : ∀ k, SupervisorDir (host ++ [groupName] ++ [k]) :=
    fun k => ⟨host, hhost, .inr ⟨k, rfl⟩⟩
  have hne : ∀ k, host ++ [groupName] ++ [k] ≠ host ++ [groupName] :=
    fun k he => not_leafDir _ ⟨k, he.symm⟩
  have hroot : ∀ k, host ++ [groupName] ++ [k] ≠ mount := by
    intro k he
    have hlen := hhost.length_le
    have hlen' := congrArg List.length he
    simp only [List.length_append, List.length_singleton] at hlen'
    omega
  rw [wp_bind]
  apply wp_mono (removeGroup_emptied hE hparent hours h₁.sound)
  intro _ s₂ hempty
  rw [wp_bind]
  apply hE.wp_ask hempty.sound
  rintro s₃ r s₄ h₃ (⟨rfl, t, ht, rfl⟩ | ⟨rfl, rfl⟩)
  swap
  · exact fun dir hdir => .of_cases (hempty.cases h₁ h₃ hdir)
  obtain ⟨-, hnone, -, hat⟩ := Groups.create_some ht
  have hsound := h₃.sound.create ht
  rw [if_pos rfl, wp_bind]
  apply hE.wp_ask hsound
  rintro s₅ r s₆ h₅ (⟨rfl, hwritten⟩ | ⟨rfl, rfl⟩)
  · obtain ⟨hkeep, g', hmemory, hpids, hat'⟩ := written_delegation hwritten
    have hbelow : mount <+: host ++ [groupName] := hhost.trans (List.prefix_append _ _)
    refine ⟨⟨hkeep h₅.sound, hbelow, ⟨g', (hat' _).trans (if_pos rfl), hmemory, hpids⟩, ?_⟩, rfl⟩
    intro k
    rw [hat', if_neg (hne k), h₅.at? _ (hours k), hat, if_neg (hne k)]
    exact h₃.sound.childless hnone (hroot k)
  -- the controllers are refused: log it, and undo the group
  rw [if_neg Bool.false_ne_true, wp_bind]
  apply hE.wp_ask h₅.sound
  intro s₇ r s₈ h₇ hlog
  have hsound₈ : s₈.tree.Sound mount := by
    rw [hlog]
    exact h₇.sound
  have hdirs : ∀ dir, SupervisorDir dir → s₈.tree.at? dir =
      if dir = host ++ [groupName] then some ⟨[], fun _ => none⟩ else s₃.tree.at? dir := by
    intro dir hdir
    rw [hlog]
    exact ((h₇.at? dir hdir).trans (h₅.at? dir hdir)).trans (hat dir)
  rw [wp_bind]
  apply hE.wp_ask hsound₈
  rintro s₉ r s' h₉ (⟨rfl, t', ht', rfl⟩ | ⟨rfl, rfl⟩)
  · obtain ⟨-, -, -, -, hat'⟩ := Groups.remove_some ht'
    intro dir hdir
    by_cases hd : dir = host ++ [groupName]
    · exact .gone ((hat' dir).trans (if_pos hd))
    · have heq : t'.at? dir = s₃.tree.at? dir :=
        ((hat' dir).trans (if_neg hd)).trans ((h₉.at? dir hdir).trans ((hdirs dir hdir).trans (if_neg hd)))
      apply Abandoned.of_cases
      rw [heq]
      exact hempty.cases h₁ h₃ hdir
  · intro dir hdir
    by_cases hd : dir = host ++ [groupName]
    · apply Abandoned.bare
      · exact (h₉.at? dir hdir).trans ((hdirs dir hdir).trans (if_pos hd))
      · rw [h₉.warned dir hdir, hlog]
        simp only [hd, if_true]
        exact List.mem_append_right _ (List.mem_singleton.mpr rfl)
    · apply Abandoned.of_cases
      rw [(h₉.at? dir hdir).trans ((hdirs dir hdir).trans (if_neg hd))]
      exact hempty.cases h₁ h₃ hdir

/-- **A set-up is all or nothing.**  With a group, `detect` has it fresh: it hands on both controllers,
and no leaf of an earlier run is left in it.  Without one, nothing of ours was made: each of our
directories is gone or as it was before, or it is a bare group that was given no controllers and that
the log tells of. -/
theorem detect_fresh (hE : Elsewhere SupervisorDir E) (hs : s.tree.Sound mount) :
    CgroupDir.detect.wp (interfere E FsStep)
      (fun r s' => match r with
        | some cg => FreshGroup cg s' ∧ ∃ host, mount <+: host ∧ cg.parent = host ++ [groupName]
        | none => ∀ dir, SupervisorDir dir → Abandoned s s' dir) s := by
  unfold CgroupDir.detect
  rw [wp_bind]
  apply wp_mono (parentWithMemory_yields.wp (parentWithMemory_same hE hs))
  rintro found s₁ ⟨hfound, h₁⟩
  split
  · exact fun dir hdir => .asBefore (h₁.at? dir hdir)
  · rename_i host
    have hhost := hfound host rfl
    apply wp_mono (setUp_fresh hE hhost h₁)
    intro r s' h
    cases r with
    | none => exact h
    | some cg => exact ⟨h.1, host, hhost, h.2⟩

end SetUp

/-! ### A session -/

/-- The part of the tree that is handed to a user. -/
def sessionHost : Path := mount ++ ["user.slice"]

/-- The file system in the session of a user, with the leftovers of an earlier run. -/
def sessionFs : CgroupFs where
  tree :=
    { groups := ([⟨sessionHost ++ [groupName, "7"], ⟨[], fun _ => none⟩⟩,
        ⟨sessionHost ++ [groupName], ⟨["memory", "pids"], fun _ => none⟩⟩,
        ⟨sessionHost ++ ["session.scope"], ⟨[], fun _ => none⟩⟩,
        ⟨sessionHost, ⟨["memory", "pids"], fun _ => none⟩⟩,
        ⟨mount, ⟨["cpu", "memory", "pids"], fun _ => none⟩⟩] :
          List (Σ _ : Path, ProcGroup String)).toAList
      place := ∅ }
  killed := []
  warned := fun _ => []

/-- What `/proc/self/cgroup` says in it. -/
def sessionSelf : List Char := "0::/user.slice/session.scope\n".toList

theorem sessionFs_sound : sessionFs.tree.Sound mount := by
  apply Groups.Sound.of_keys
  · decide
  · decide

def sessionCg : CgroupDir := ⟨sessionHost ++ [groupName]⟩

def sessionReady : CgroupFs := (CgroupDir.detect.exec (obliging sessionSelf) sessionFs).2

theorem sessionReady_detected :
    (CgroupDir.detect.exec (obliging sessionSelf) sessionFs).1 = some sessionCg := by
  decide

theorem sessionReady_keys : sessionReady.tree.groups.keys =
    [sessionCg.parent, sessionHost ++ ["session.scope"], sessionHost, mount] := by
  decide

theorem sessionReady_fresh : FreshGroup sessionCg sessionReady := by
  constructor
  · apply Groups.Sound.of_keys
    · decide
    · decide
  · decide
  · exact ⟨_, rfl, by decide, by decide⟩
  · intro k
    rw [Groups.at?, AList.lookup_eq_none, AList.mem_keys, sessionReady_keys]
    simp [sessionCg, sessionHost, mount, groupName]

theorem detect_fresh_session :
    (CgroupDir.detect.exec (obliging sessionSelf) sessionFs).1 = some sessionCg ∧
      FreshGroup sessionCg (CgroupDir.detect.exec (obliging sessionSelf) sessionFs).2 := by
  have hrun := exec_runs (obliging_outside SupervisorDir sessionSelf) CgroupDir.detect sessionFs
  have h := wp_iff_runs.mp (detect_fresh (outside_elsewhere _) sessionFs_sound) _ _ hrun
  rw [sessionReady_detected] at h
  exact ⟨sessionReady_detected, h.1⟩

end MeshSupervisor
