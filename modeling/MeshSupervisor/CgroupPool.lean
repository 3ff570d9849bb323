import MeshSupervisor.CgroupLeaves

/-! # The leaves of processes that live side by side

Each process has a task of its own that creates its leaf, removes it and creates it again
(`CgroupDir.life`), and the tasks run at the same time.  Whatever the order of their calls, and
whatever others do elsewhere, the leaf of a process is what its own task makes of it
(`lives_end`). -/

namespace MeshSupervisor

open Prog Relation

/-- What the task of a process does with its leaf. -/
inductive LeafOp where
  | create (limits : Limits)
  | remove
deriving DecidableEq

namespace LeafOp

/-- The caps of the leaf after the operation; `none`: there is no leaf. -/
def caps : LeafOp → Option Limits
  | .create limits => some limits
  | .remove => none

/-- The caps of the leaf after these operations on a leaf with `before`. -/
def last (before : Option Limits) (ops : List LeafOp) : Option Limits :=
  ops.getLast?.elim before caps

theorem last_cons (before : Option Limits) (op : LeafOp) (ops : List LeafOp) :
    last before (op :: ops) = last op.caps ops := by
  cases h : ops.getLast? <;> simp [last, List.getLast?_cons, h]

end LeafOp

def CgroupDir.perform (cg : CgroupDir) (h : Handle) : LeafOp → FsProg Unit
  | .create limits => do
      let _ ← cg.createLeaf h limits
      pure ()
  | .remove => cg.remove h

def CgroupDir.life (cg : CgroupDir) (h : Handle) (ops : List LeafOp) : FsProg Unit :=
  each (cg.perform h) ops

/-- The leaf has these caps; or there is none, and nothing runs in it or below it. -/
def CgroupDir.Lived (cg : CgroupDir) (h : Handle) (s : CgroupFs) : Option Limits → Prop
  | some limits => CapsAsked s (cg.leaf h) limits
  | none => s.tree.at? (cg.leaf h) = none ∧
      ∀ pid q, s.tree.place.lookup pid = some q → ¬ cg.leaf h <+: q

/-- What the task of `h` owns: the group, and its leaf. -/
def CgroupDir.Mine (cg : CgroupDir) (h : Handle) (q : Path) : Prop := q = cg.parent ∨ q = cg.leaf h

/-- A task has brought its leaf to `caps`, unless it has logged a failure since `s`. -/
structure CgroupDir.Tracked (cg : CgroupDir) (h : Handle) (s : CgroupFs) (caps : Option Limits)
    (s' : CgroupFs) : Prop where
  sound : s'.tree.Sound mount
  warned : ∃ w, s'.warned (cg.leaf h) = s.warned (cg.leaf h) ++ w
  quiet : s'.warned (cg.leaf h) = s.warned (cg.leaf h) → cg.Lived h s' caps

section Life

variable {E : CgroupFs → CgroupFs → Prop} {cg : CgroupDir} {h : Handle} {s s₁ s' : CgroupFs}
  {caps : Option Limits}

theorem quiet_trans {w : List String} {dir : Path} (h₁ : s₁.warned dir = s.warned dir ++ w)
    (h₂ : ∃ w, s'.warned dir = s₁.warned dir ++ w) (hquiet : s'.warned dir = s.warned dir) :
    s'.warned dir = s₁.warned dir := by
  obtain ⟨w', hw'⟩ := h₂
  have hlen := congrArg List.length hquiet
  simp only [hw', h₁, List.length_append] at hlen
  have hnil : w' = [] := List.length_eq_zero_iff.mp (by omega)
  rw [hw', hnil, List.append_nil]

theorem CgroupDir.perform_tracked (hE : Elsewhere (cg.Mine h) E) (hbelow : mount <+: cg.parent)
    (op : LeafOp) (ht : cg.Tracked h s caps s₁) :
    (cg.perform h op).wp (interfere E FsStep) (fun _ => cg.Tracked h s op.caps) s₁ := by
  obtain ⟨w, hw⟩ := ht.warned
  have hdir : cg.Mine h (cg.leaf h) := .inr rfl
  cases op with
  | create limits =>
      unfold CgroupDir.perform
      rw [wp_bind]
      apply wp_mono (createLeaf_created hE hdir ht.sound limits)
      intro r s' hc
      obtain ⟨w', hw'⟩ := hc.warned
      refine ⟨hc.sound, ⟨w ++ w', by rw [hw', hw, List.append_assoc]⟩, ?_⟩
      intro hno
      exact (hc.quiet (quiet_trans hw hc.warned hno)).2
  | remove =>
      apply wp_mono (remove_swept hE hdir ht.sound)
      intro _ s' hsw
      rcases hsw.self with ⟨hnone, hlog⟩ | ⟨-, hlog⟩
      · refine ⟨hsw.sound, ⟨w, hlog.trans hw⟩, fun _ => ⟨hnone, ?_⟩⟩
        exact fun pid q => hsw.sound.deserted hnone (CgroupDir.mount_le hbelow h)
      · refine ⟨hsw.sound, ⟨w ++ _, by rw [hlog, hw, List.append_assoc]⟩, ?_⟩
        intro hno
        have hquiet := quiet_trans hw ⟨_, hlog⟩ hno
        simp [hlog] at hquiet

theorem CgroupDir.life_tracked (hE : Elsewhere (cg.Mine h) E) (hbelow : mount <+: cg.parent)
    (ops : List LeafOp) (ht : cg.Tracked h s caps s₁) :
    (cg.life h ops).wp (interfere E FsStep)
      (fun _ => cg.Tracked h s (LeafOp.last caps ops)) s₁ := by
  induction ops generalizing caps s₁ with
  | nil => exact ht
  | cons op ops ih =>
      unfold CgroupDir.life
      rw [LeafOp.last_cons, each, wp_bind]
      apply wp_mono (CgroupDir.perform_tracked hE hbelow op ht)
      exact fun _ s₂ h₂ => ih h₂

theorem CgroupDir.life_within (ops : List LeafOp) :
    (cg.life h ops).Only (FsCall.Within (· = cg.leaf h) (· = cg.leaf h)) := by
  apply Only.each
  intro op _
  cases op with
  | create limits =>
      refine Only.bind ?_ fun _ => trivial
      apply createLeaf_within
      rfl
  | remove =>
      apply remove_within
      · rfl
      · rfl

end Life

/-! ### All of them -/

section Pool

variable {E : CgroupFs → CgroupFs → Prop} {cg : CgroupDir} {s s' : CgroupFs}

/-- What the task of `h` may do. -/
def CgroupDir.Guarantee (cg : CgroupDir) (h : Handle) : CgroupFs → CgroupFs → Prop :=
  Confined (· = cg.leaf h) (· = cg.leaf h)

theorem Elsewhere.star {ours : Path → Prop} (hE : Elsewhere ours E) :
    Elsewhere ours (ReflTransGen E) := by
  constructor
  · intro s s' he hs
    induction he with
    | refl => exact hs
    | tail _ hlast ih => exact hE.sound hlast ih
  · intro s s' he q hq
    induction he with
    | refl => rfl
    | tail _ hlast ih => exact (hE.see hlast q hq).trans ih

/-- For one task, the other tasks are elsewhere. -/
theorem Elsewhere.others (hE : Elsewhere (OurDir cg.parent) E) (h : Handle) :
    Elsewhere (cg.Mine h) (Others E cg.Guarantee h) := by
  apply Elsewhere.star
  have hours : ∀ q, cg.Mine h q → OurDir cg.parent q := by
    rintro q (rfl | rfl)
    · exact .inl rfl
    · exact .inr ⟨_, rfl⟩
  constructor
  · rintro s s' (he | ⟨j, -, hg⟩)
    · exact hE.sound he
    · exact hg.sound
  · rintro s s' (he | ⟨j, hj, hg⟩) q hq
    · exact hE.see he q (hours q hq)
    · have hne : q ≠ cg.leaf j := by
        rcases hq with rfl | rfl
        · exact cg.parent_ne_leaf j
        · exact fun heq => hj (CgroupDir.leaf_inj heq).symm
      rw [CgroupFs.see_eq]
      exact ⟨hg.at? q hne, hg.warned q hne⟩

/-- A leaf is as its task left it while the others act. -/
theorem CgroupDir.Tracked.stable {h : Handle} {caps : Option Limits} {s₁ : CgroupFs}
    (hbelow : mount <+: cg.parent) (hE : Elsewhere (cg.Mine h) E) (ht : cg.Tracked h s caps s₁)
    (he : E s₁ s') : cg.Tracked h s caps s' := by
  obtain ⟨hat, hlog⟩ := CgroupFs.see_eq.mp (hE.see he _ (.inr rfl))
  have hsound := hE.sound he ht.sound
  refine ⟨hsound, by rw [hlog]; exact ht.warned, ?_⟩
  intro hno
  have hlived := ht.quiet (hlog.symm.trans hno)
  cases caps with
  | some limits =>
      obtain ⟨g, hg, hlimit⟩ := hlived
      exact ⟨g, hat.trans hg, hlimit⟩
  | none =>
      have hnone := hat.trans hlived.1
      exact ⟨hnone, fun pid q => hsound.deserted hnone (CgroupDir.mount_le hbelow h)⟩

/-- **Each process has its own leaf.**  From a fresh group on, with the tasks of all processes side
by side, in any order of their calls, and with others that keep out of the group: when the task of
`h` has come to its end, and no failure was logged about its leaf, the leaf is what its last
operation says: its caps were written to it, and no others; or it is gone, and nothing runs in it. -/
theorem lives_end (hE : Elsewhere (OurDir cg.parent) E) (hfresh : FreshGroup cg s)
    (lives : Handle → List LeafOp) {ps : Handle → FsProg Unit}
    (hrun : ReflTransGen (PoolStep E FsStep) (fun h => cg.life h (lives h), s) (ps, s'))
    {h : Handle} (hdone : ps h = pure ())
    (hquiet : s'.warned (cg.leaf h) = s.warned (cg.leaf h)) :
    cg.Lived h s' (LeafOp.last none (lives h)) := by
  have hs := hfresh.sound
  have hbelow := hfresh.below
  have hstable : ∀ (h : Handle) (_ : Unit) s₁ s₂,
      cg.Tracked h s (LeafOp.last none (lives h)) s₁ → Others E cg.Guarantee h s₁ s₂ →
        cg.Tracked h s (LeafOp.last none (lives h)) s₂ :=
    fun h _ s₁ s₂ ht ho => ht.stable hbelow (hE.others h) ho
  have hok : PoolOk E FsStep cg.Guarantee
      (fun h (_ : Unit) => cg.Tracked h s (LeafOp.last none (lives h)))
      (fun h => cg.life h (lives h)) s := by
    constructor
    · intro h
      exact (CgroupDir.life_within (lives h)).mono fun _ hc _ _ _ hstep => hstep.confined hc
    · intro h
      apply CgroupDir.life_tracked (hE.others h) hbelow
      have hnone := hfresh.leafless h.repr
      refine ⟨hs, ⟨[], by simp⟩, fun _ => ⟨hnone, ?_⟩⟩
      exact fun pid q => hs.deserted hnone (CgroupDir.mount_le hbelow h)
  exact (pool_run hstable hok hrun hdone).quiet hquiet

/-- Two processes: the first is started, and started again; the second comes to its end. -/
def sessionLives : Handle → List LeafOp
  | 1 => [.create sessionLimits, .remove, .create sessionLimits]
  | 2 => [.create sessionLimits, .remove]
  | _ => []

def sessionTasks : Handle → FsProg Unit := fun h => sessionCg.life h (sessionLives h)

/-- The file system when the task of 1 has ended, and when that of 2 has, too. -/
def sessionFirst : CgroupFs := ((sessionTasks 1).exec (obliging sessionSelf) sessionReady).2
def sessionOver : CgroupFs := ((sessionTasks 2).exec (obliging sessionSelf) sessionFirst).2

theorem lives_end_session :
    CapsAsked sessionOver (sessionCg.leaf 1) sessionLimits ∧
      sessionOver.tree.at? (sessionCg.leaf 2) = none := by
  have hfirst : ReflTransGen (PoolStep (outside (OurDir sessionCg.parent)) FsStep)
      (sessionTasks, sessionReady) (Function.update sessionTasks 1 (.done ()), sessionFirst) :=
    Runs.pool (exec_runs (obliging_step sessionSelf) (sessionTasks 1) sessionReady)
  have hover : ReflTransGen (PoolStep (outside (OurDir sessionCg.parent)) FsStep)
      (Function.update sessionTasks 1 (.done ()), sessionFirst)
      (Function.update (Function.update sessionTasks 1 (.done ())) 2 (.done ()), sessionOver) :=
    Runs.pool (exec_runs (obliging_step sessionSelf) (sessionTasks 2) sessionFirst)
  constructor
  · exact lives_end (h := 1) (outside_elsewhere _) sessionReady_fresh sessionLives
      (hfirst.trans hover) rfl (by decide)
  · exact (lives_end (h := 2) (outside_elsewhere _) sessionReady_fresh sessionLives
      (hfirst.trans hover) rfl (by decide)).1

end Pool

end MeshSupervisor
