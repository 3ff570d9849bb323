import MeshSupervisor.Turns
import MeshSupervisor.ForcedKill

/-! # Leaves and running processes

The leaf of a launch is created before the child is started and is undone on the failure path
and after every exit, by different calls.  Between turns, and as long as directories can be
made and removed and there is no `kill_all`, the leaves are exactly those of the handles whose
entry is `Running` (`leaf_iff_running`): a failed launch takes its leaf back, to the manager
there was before (`launchChild_undone`), and each launch finds the name of its leaf free. -/

namespace MeshSupervisor

open Wire (Codec)

def Cgroups.has (cg : Cgroups) (h : Handle) : Bool := (cg.leaves.lookup h).isSome

def Manager.hasLeaf (m : Manager) (h : Handle) : Bool := m.cgroups.any (·.has h)

/-- Directories are made and removed. -/
structure Os.Obliging (os : Os) : Prop where
  mkdir : os.leaf ≠ .mkdirFails
  rmdir : os.rmdir = true

/-- The file system obliges, and no `kill_all` is called. -/
def Turn.Ordinary : Turn → Prop
  | .call _ op os => op ≠ .killAll ∧ os.Obliging
  | .sched _ os => os.Obliging
  | .exit _ _ => True

/-! ### Leaves -/

namespace Cgroups

theorem createLeaf_free {cg : Cgroups} {h : Handle} {o : LeafOutcome} (hfree : cg.has h = false)
    (ho : o ≠ .mkdirFails) : (cg.createLeaf h o).1 = ⟨AList.insert h [] cg.leaves⟩ := by
  unfold has at hfree
  unfold createLeaf
  rw [hfree, if_neg Bool.false_ne_true]
  cases o with
  | mkdirFails => exact absurd rfl ho
  | procsFails => rfl
  | opened => rfl

theorem remove_createLeaf {cg : Cgroups} {h : Handle} {o : LeafOutcome} (hfree : cg.has h = false)
    (ho : o ≠ .mkdirFails) : (cg.createLeaf h o).1.remove h true = cg := by
  have hmem : h ∉ cg.leaves := by
    rw [← AList.lookup_isSome, ← has, hfree]
    exact Bool.false_ne_true
  rw [createLeaf_free hfree ho]
  unfold remove
  rw [if_pos rfl, Table.erase_insert hmem]

theorem has_createLeaf {cg : Cgroups} {h : Handle} {o : LeafOutcome} (hfree : cg.has h = false)
    (ho : o ≠ .mkdirFails) (k : Handle) :
    (cg.createLeaf h o).1.has k = if k = h then true else cg.has k := by
  rw [createLeaf_free hfree ho]
  unfold has
  rw [Table.lookup_insert_if]
  split_ifs <;> rfl

@[simp] theorem has_join (cg : Cgroups) (h k : Handle) (n : LaunchId) :
    (cg.join h n).has k = cg.has k := by
  unfold has join
  rw [Table.lookup_modify]
  split_ifs with hk
  · rw [hk, Option.isSome_map]
  · rfl

theorem has_remove (cg : Cgroups) (h k : Handle) :
    (cg.remove h true).has k = if k = h then false else cg.has k := by
  unfold has remove
  rw [if_pos rfl, Table.lookup_erase_if]
  split_ifs <;> rfl

end Cgroups

namespace Manager

variable {m m' : Manager} {id : Handle} {spec : Spec} {os : Os}

theorem has_of_hasLeaf {h : Handle} (hleaf : m.hasLeaf h = false) {cg : Cgroups}
    (hcg : m.cgroups = some cg) : cg.has h = false := by
  rw [hasLeaf, hcg] at hleaf
  exact hleaf

/-- A launch that fails leaves the manager as it was. -/
theorem launchChild_undone (hos : os.Obliging) (hfree : m.hasLeaf id = false)
    (h : m.launchChild id spec os = (m', none)) : m' = m := by
  unfold launchChild at h
  cases hs : os.spawn with
  | some pid =>
    rw [hs] at h
    cases (Prod.mk.inj h).2
  | none =>
    rw [hs] at h
    obtain ⟨rfl, -⟩ := Prod.mk.inj h
    have hcgroups : (m.cgroups.map fun cg => cg.createLeaf id os.leaf).map
        (fun p => p.1.remove id os.rmdir) = m.cgroups := by
      cases hcg : m.cgroups with
      | none => rfl
      | some cg =>
        have hundo := Cgroups.remove_createLeaf (has_of_hasLeaf hfree hcg) hos.mkdir
        rw [hos.rmdir, Option.map_some, Option.map_some, hundo]
    rw [hcgroups]

/-- A launch that succeeds has made its leaf. -/
theorem hasLeaf_launchChild (hcg : m.cgroups.isSome = true) (hos : os.Obliging)
    (hfree : m.hasLeaf id = false) {l : Launched} (h : m.launchChild id spec os = (m', some l))
    (k : Handle) : m'.hasLeaf k = if k = id then true else m.hasLeaf k := by
  obtain ⟨cg, hcg⟩ := Option.isSome_iff_exists.mp hcg
  have hnew := Cgroups.has_createLeaf (has_of_hasLeaf hfree hcg) hos.mkdir k
  unfold launchChild at h
  cases hs : os.spawn with
  | none =>
    rw [hs] at h
    cases (Prod.mk.inj h).2
  | some pid =>
    rw [hs] at h
    obtain ⟨rfl, -⟩ := Prod.mk.inj h
    unfold hasLeaf
    rw [hcg, Option.map_some, Option.map_some, Option.any_some, Option.any_some]
    cases (cg.createLeaf id os.leaf).2 with
    | true => rw [if_pos rfl, Cgroups.has_join, hnew]
    | false => rw [if_neg Bool.false_ne_true, hnew]

theorem hasLeaf_removeLeaf (hos : os.Obliging) (id k : Handle) :
    (m.removeLeaf id os).hasLeaf k = if k = id then false else m.hasLeaf k := by
  unfold hasLeaf removeLeaf
  rw [hos.rmdir]
  cases m.cgroups with
  | none => simp
  | some cg => exact cg.has_remove id k

/-! ### Running entries -/

theorem isRunning_insertEntry (id : Handle) (l : Launched) (k : Handle) :
    (m.insertEntry id l).isRunning k = if k = id then true else m.isRunning k := by
  unfold isRunning
  rw [lookup_insertEntry]
  split_ifs <;> rfl

theorem isRunning_recordExit (id : Handle) (code : Option ℤ) (k : Handle) :
    (m.recordExit id code).isRunning k = if k = id then false else m.isRunning k := by
  unfold isRunning
  rw [lookup_recordExit]
  split_ifs
  · cases m.procs.lookup id <;> rfl
  · rfl

theorem isRunning_applyLaunch (harmed : m.isArmed id = true) (l : Launched) (k : Handle) :
    (m.applyLaunch id l).isRunning k = if k = id then true else m.isRunning k := by
  obtain ⟨e, he, -⟩ := isArmed_iff.mp harmed
  unfold isRunning
  rw [lookup_applyLaunch]
  split_ifs
  · rw [he]
    rfl
  · rfl

theorem hasLeaf_disarm {pid : Option Pid} (h : m.disarm id = .ok (m', pid))
    (hleaf : ∀ k, m.hasLeaf k = m.isRunning k) (k : Handle) : m'.hasLeaf k = m'.isRunning k := by
  obtain ⟨e, he, rfl, -⟩ := disarm_ok h
  apply (hleaf k).trans
  unfold isRunning
  rw [Table.lookup_modify]
  split_ifs with hk
  · rw [hk, he]
    rfl
  · rfl

theorem hasLeaf_removeEntry (h : m.removeEntry id = .ok m')
    (hleaf : ∀ k, m.hasLeaf k = m.isRunning k) (k : Handle) : m'.hasLeaf k = m'.isRunning k := by
  obtain ⟨e, he, hrun, rfl⟩ := removeEntry_ok h
  apply (hleaf k).trans
  unfold isRunning
  rw [Table.lookup_erase_if]
  split_ifs with hk
  · rw [hk, he, Option.any_none, Option.any_some]
    cases hst : e.status with
    | running => exact absurd hst hrun
    | exited code => rfl
    | stale => rfl
  · rfl

end Manager

section
variable [Codec Record]

/-- The leaves are those of the running handles, and no `kill_all` is under way. -/
structure Kept (w : World) : Prop where
  cgroups : w.mgr.cgroups.isSome = true
  leaf : ∀ h, w.mgr.hasLeaf h = w.mgr.isRunning h
  noKillAll : ∀ t pids, w.tasks t ≠ some (.killAllPoll true pids)

variable {w w' : World} {a : Turn} {evs : List Event} {t : ℕ} {os : Os} {task : Task}
  {m' : Manager} {next : Option Task}

omit [Codec Record] in
theorem Inv.next_not_running (hI : Inv w) : w.mgr.isRunning (w.mgr.next + 1) = false := by
  unfold Manager.isRunning
  cases he : w.mgr.procs.lookup (w.mgr.next + 1) with
  | none => rfl
  | some e =>
    have hle := hI.key_le _ _ he
    exact absurd hle (Nat.not_succ_le_self _)

omit [Codec Record] in
theorem Inv.backoff_exited (hI : Inv w) {s : Sup} {code : Option ℤ}
    (ht : w.tasks t = some (.supervise s)) (hpc : s.pc = .backoff code) {e : ProcEntry}
    (he : w.mgr.procs.lookup s.id = some e) : e.status = .exited code := by
  have hst := (hI.agrees t _ ht).1 e he
  rw [hpc] at hst
  exact hst

omit [Codec Record] in
theorem Inv.backoff_not_running (hI : Inv w) {s : Sup} {code : Option ℤ}
    (ht : w.tasks t = some (.supervise s)) (hpc : s.pc = .backoff code) :
    w.mgr.isRunning s.id = false := by
  unfold Manager.isRunning
  cases he : w.mgr.procs.lookup s.id with
  | none => rfl
  | some e =>
    have hst := hI.backoff_exited ht hpc he
    rw [Option.any_some, hst]
    rfl

omit [Codec Record] in
theorem Acts.ordinary (hacts : Acts w a t os task) (ha : a.Ordinary) (hcalm : Calm w) :
    os.Obliging ∧ task ≠ .killAll := by
  rcases hacts with ⟨rfl, ht⟩ | ⟨op, rfl, -, rfl⟩
  · refine ⟨ha, ?_⟩
    intro hkill
    have hawait := hcalm t task ht
    rw [hkill] at hawait
    cases hawait
  · refine ⟨ha.2, ?_⟩
    intro hkill
    cases op with
    | killAll => exact ha.1 rfl
    | _ => cases hkill

theorem hasLeaf_exitTurn {m : Manager} {id : Handle} {code : Option ℤ} (hos : os.Obliging)
    (hleaf : ∀ k, m.hasLeaf k = m.isRunning k) (k : Handle) :
    (m.exitTurn id code os).hasLeaf k = (m.exitTurn id code os).isRunning k := by
  have hrun := m.isRunning_recordExit id code k
  have hgone := ((m.recordExit id code).saveExit id code).hasLeaf_removeLeaf hos id k
  have hsame : ((m.recordExit id code).saveExit id code).hasLeaf k = m.hasLeaf k := rfl
  unfold Manager.exitTurn
  rw [hgone, hsame, hleaf k]
  exact hrun.symm

/-- What an ordinary turn does to the leaves it does to the running entries. -/
theorem TurnStep.leaf (hstep : TurnStep w.mgr os task m' next evs) (hk : Kept w) (hI : Inv w)
    (hos : os.Obliging) (hacts : Acts w a t os task) (hkill : task ≠ .killAll) (h : Handle) :
    m'.hasLeaf h = m'.isRunning h := by
  have hleaf := hk.leaf h
  cases hstep with
  | spawnFails spec _ hl =>
    have hfree := (hk.leaf (w.mgr.next + 1)).trans hI.next_not_running
    rw [Manager.launchChild_undone (m := { w.mgr with next := w.mgr.next + 1 }) hos hfree hl]
    exact hleaf
  | spawns spec m₁ l hl =>
    have hfree := (hk.leaf (w.mgr.next + 1)).trans hI.next_not_running
    have hnew := Manager.hasLeaf_launchChild (m := { w.mgr with next := w.mgr.next + 1 })
      hk.cgroups hos hfree hl h
    have hrun := m₁.isRunning_insertEntry (w.mgr.next + 1) l h
    have hsame : m₁.isRunning h = w.mgr.isRunning h := by
      unfold Manager.isRunning
      rw [(Manager.launchChild_frame hl).1]
    rw [hsame, ← hleaf] at hrun
    exact hnew.trans hrun.symm
  | relaunchFails s code _ hpc hl =>
    have ht : w.tasks t = some (.supervise s) := hacts.of_owner rfl
    have hfree := (hk.leaf s.id).trans (hI.backoff_not_running ht hpc)
    rw [Manager.launchChild_undone hos hfree hl]
    exact hleaf
  | relaunches s code m₁ l hpc harm hsd hl =>
    have ht : w.tasks t = some (.supervise s) := hacts.of_owner rfl
    have hfree := (hk.leaf s.id).trans (hI.backoff_not_running ht hpc)
    have hnew := Manager.hasLeaf_launchChild hk.cgroups hos hfree hl h
    have hprocs := (Manager.launchChild_frame hl).1
    have harm₁ : m₁.isArmed s.id = true := by
      unfold Manager.isArmed
      rw [hprocs]
      exact harm
    have hrun := Manager.isRunning_applyLaunch harm₁ l h
    have hsame : m₁.isRunning h = w.mgr.isRunning h := by
      unfold Manager.isRunning
      rw [hprocs]
    rw [hsame, ← hleaf] at hrun
    exact hnew.trans hrun.symm
  | exitEnds s code evs' hpc hx hevs => exact hasLeaf_exitTurn hos hk.leaf h
  | exitBacksOff s code attempt hpc hx hre => exact hasLeaf_exitTurn hos hk.leaf h
  | stopIdle id _ hd => exact Manager.hasLeaf_disarm hd hk.leaf h
  | stopRunning id _ pid hd => exact Manager.hasLeaf_disarm hd hk.leaf h
  | forgets id m₁ hr => exact Manager.hasLeaf_removeEntry hr hk.leaf h
  | killAllWaits _ => exact absurd rfl hkill
  | killAllReturns _ => exact absurd rfl hkill
  | pollReturns pids _ => exact absurd (hacts.of_await rfl) (hk.noKillAll t pids)
  | _ => exact hleaf

omit [Codec Record] in
theorem Kept.initial [Codec Record] (h₀ : Initial w) (hcg : w.mgr.cgroups = Cgroups.detect true) :
    Kept w := by
  obtain ⟨hidle, -, hstale⟩ := h₀.idle
  refine ⟨by rw [hcg]; rfl, ?_, ?_⟩
  · intro h
    have hnone : w.mgr.hasLeaf h = false := by
      unfold Manager.hasLeaf
      rw [hcg]
      rfl
    rw [hnone, Manager.isRunning]
    cases he : w.mgr.procs.lookup h with
    | none => rfl
    | some e =>
      obtain ⟨r, rfl⟩ := hstale h e he
      rw [Option.any_some]
      cases hst : r.status <;> simp [ProcEntry.stale, hst, reloaded, ProcState.isRunning]
  · intro t pids ht
    rw [hidle t] at ht
    cases ht

theorem Kept.turn (hk : Kept w) (hI : Inv w) (hcalm : Calm w) (ha : a.Ordinary)
    (hs : turn w a = some (w', evs)) : Kept w' := by
  rcases turn_cases hcalm hs with ⟨t, os, task, m', next, hacts, hstep, rfl⟩ |
    ⟨n, code, c, -, -, -, -, rfl⟩
  · obtain ⟨hos, hkill⟩ := hacts.ordinary ha hcalm
    constructor
    · exact hstep.cgroups_isSome.trans hk.cgroups
    · exact hstep.leaf hk hI hos hacts hkill
    · intro t' pids ht'
      rcases tasks_update ht' with ⟨-, hn⟩ | ⟨-, ht⟩
      · rcases hstep.poll_next hn with ⟨htask, -, -⟩ | ⟨rfl, -⟩
        · exact hkill htask
        · exact hk.noKillAll t pids (hacts.of_await rfl)
      · exact hk.noKillAll t' pids ht
  · exact ⟨hk.cgroups, hk.leaf, hk.noKillAll⟩

/-- Along a run of ordinary turns the leaves are those of the running handles. -/
theorem kept_run {w₀ : World} {l : List (Lts.Tr World Turn Event)} (h₀ : Initial w₀)
    (hcg : w₀.mgr.cgroups = Cgroups.detect true) (hr : Lts.Run turn w₀ l w)
    (hord : ∀ tr ∈ l, tr.act.Ordinary) :
    Kept w ∧ ∀ tr ∈ l, tr.Valid turn ∧ Inv tr.pre ∧ Calm tr.pre ∧ Kept tr.pre := by
  have hinv : (Inv w ∧ Calm w ∧ Kept w) ∧ ∀ tr ∈ l, Inv tr.pre ∧ Calm tr.pre ∧ Kept tr.pre := by
    apply hr.guarded ⟨inv_initial h₀, calm_initial h₀, Kept.initial h₀ hcg⟩ hord
    rintro tr hv ⟨hI, hcalm, hk⟩ ha
    exact ⟨inv_turn hI hv, hcalm.turn hv, hk.turn hI hcalm ha hv⟩
  refine ⟨hinv.1.2.2, ?_⟩
  intro tr htr
  obtain ⟨-, -, -, -, hv, -⟩ := hr.mem_split htr
  exact ⟨hv, hinv.2 tr htr⟩

/-! ### Failed launches -/

theorem TurnStep.of_spawnFailed {m : Manager} {id : Handle}
    (hstep : TurnStep m os task m' next evs) (hev : .spawnFailed id ∈ evs) :
    ∃ spec, Manager.launchChild { m with next := m.next + 1 } (m.next + 1) spec os = (m', none) := by
  cases hstep with
  | spawnFails spec _ hl => exact ⟨spec, hl⟩
  | exitEnds s code evs' _ _ hevs =>
    rcases exitEnds_mem hevs hev with he | he <;> cases he
  | exitBacksOff s code attempt =>
    rcases exitBacksOff_mem hev with he | he <;> cases he
  | terminateForces id pid _ =>
    exfalso
    split_ifs at hev <;> simp at hev
  | killAllReturns _ | pollReturns _ _ =>
    exfalso
    unfold Manager.force at hev
    split at hev <;> simp at hev
  | _ => simp at hev

/-- After a backoff an unarmed handle is not launched again. -/
theorem runTurn_dropped {m : Manager} {s : Sup} {code : Option ℤ} (hpc : s.pc = .backoff code)
    (harm : m.isArmed s.id = false) : runTurn os 5 m (.supervise s) = some (m, none, []) := by
  have hdrop : (m.shutdown || !m.isArmed s.id) = true := by rw [harm, Bool.not_false, Bool.or_true]
  rw [runTurn_step 4 (by simp only [advance, Sup.advance, hpc]; rfl) rfl,
    runTurn_return 3 (by simp only [advance, Sup.advance, if_pos hdrop]; rfl)]
  rfl

theorem turn_relaunchFailed {s : Sup} (hcalm : Calm w) (hs : turn w (.sched t os) = some (w', evs))
    (ht : w.tasks t = some (.supervise s)) (hev : .launchChild s.id none ∈ evs) :
    ∃ code, s.pc = .backoff code ∧ w.mgr.isArmed s.id = true ∧
      w.mgr.launchChild s.id s.spec os = (w'.mgr, none) := by
  simp only [turn, ht] at hs
  obtain ⟨⟨m', next, evs'⟩, hrun, hc⟩ := Option.map_eq_some_iff.mp hs
  obtain ⟨rfl, rfl⟩ := Prod.mk.inj hc
  have hstep := turnStep (.inl (hcalm t _ ht)) hrun
  cases hstep with
  | relaunchFails s code _ hpc hl =>
    refine ⟨code, hpc, ?_, hl⟩
    by_contra harm
    rw [runTurn_dropped hpc (Bool.not_eq_true _ ▸ harm)] at hrun
    cases hrun
  | relaunches s code m₁ l hpc harm hsd hl => simp at hev
  | dropped s code hpc hdrop => cases hev
  | exitEnds s code evs'' _ _ hevs =>
    rcases exitEnds_mem hevs hev with he | he <;> cases he
  | exitBacksOff s code attempt =>
    rcases exitBacksOff_mem hev with he | he <;> cases he

/-- **Leaves are those of running handles**, and a launch that fails undoes its leaf: a failed
`spawn` leaves everything but the handle counter as it was, a failed relaunch everything. -/
theorem leaf_iff_running {w₀ : World} {l : List (Lts.Tr World Turn Event)} (h₀ : Initial w₀)
    (hcg : w₀.mgr.cgroups = Cgroups.detect true) (hr : Lts.Run turn w₀ l w)
    (hord : ∀ tr ∈ l, tr.act.Ordinary) :
    (∀ h, w.mgr.hasLeaf h = true ↔ ∃ e, w.mgr.procs.lookup h = some e ∧ e.status = .running) ∧
    (∀ tr ∈ l, ∀ id, .spawnFailed id ∈ tr.evs →
      tr.post.mgr = { tr.pre.mgr with next := tr.pre.mgr.next + 1 }) ∧
    (∀ tr ∈ l, ∀ t os s, tr.act = .sched t os → tr.pre.tasks t = some (.supervise s) →
      .launchChild s.id none ∈ tr.evs → tr.post.mgr = tr.pre.mgr ∧
        (∃ e code, tr.post.mgr.procs.lookup s.id = some e ∧ e.status = .exited code) ∧
        tr.post.mgr.hasLeaf s.id = false) := by
  obtain ⟨hk, hpre⟩ := kept_run h₀ hcg hr hord
  refine ⟨?_, ?_, ?_⟩
  · intro h
    rw [hk.leaf h]
    exact Manager.isRunning_iff
  · intro tr htr id hev
    obtain ⟨hv, hI, hcalm, hkpre⟩ := hpre tr htr
    rcases turn_cases hcalm hv with ⟨t, os, task, m', next, hacts, hstep, hpost⟩ |
      ⟨n, code, c, -, -, -, hnil, -⟩
    · obtain ⟨hos, -⟩ := hacts.ordinary (hord tr htr) hcalm
      obtain ⟨spec, hl⟩ := hstep.of_spawnFailed hev
      have hfree := (hkpre.leaf (tr.pre.mgr.next + 1)).trans hI.next_not_running
      rw [hpost]
      exact Manager.launchChild_undone (m := { tr.pre.mgr with next := tr.pre.mgr.next + 1 })
        hos hfree hl
    · rw [hnil] at hev
      cases hev
  · intro tr htr t os s hact ht hev
    obtain ⟨hv, hI, hcalm, hkpre⟩ := hpre tr htr
    have hord' := hord tr htr
    unfold Lts.Tr.Valid at hv
    rw [hact] at hv hord'
    obtain ⟨code, hpc, harm, hl⟩ := turn_relaunchFailed hcalm hv ht hev
    have hidle := hI.backoff_not_running ht hpc
    have hfree := (hkpre.leaf s.id).trans hidle
    have hsame := Manager.launchChild_undone hord' hfree hl
    obtain ⟨e, he, -⟩ := Manager.isArmed_iff.mp harm
    rw [hsame]
    exact ⟨rfl, ⟨e, code, he, hI.backoff_exited ht hpc he⟩, hfree⟩

/-- Handle 1 is launched, its child exits, and the relaunch fails; nor can handle 2 be launched, but
then handle 3 is. -/
def failedRelaunch : List Turn :=
  [.call 0 (.spawn restartSpec) { spawn := some 100 }, .exit 0 (some 1), .sched 0 {}, .sched 0 {},
    .call 1 (.spawn restartSpec) {}, .call 1 (.spawn restartSpec) { spawn := some 300 }]

/-- The relaunch of `failedRelaunch` has failed in slot 0, and so has the second `spawn`. -/
def launchesFailed (l : List (Lts.Tr World Turn Event)) : Bool :=
  decide (.launchChild 1 none ∈ Lts.events l ∧ .spawnFailed 2 ∈ Lts.events l)

end

instance (os : Os) : Decidable os.Obliging :=
  decidable_of_iff (os.leaf ≠ .mkdirFails ∧ os.rmdir = true)
    ⟨fun h => ⟨h.1, h.2⟩, fun h => ⟨h.mkdir, h.rmdir⟩⟩

instance : DecidablePred Turn.Ordinary
  | .call _ op os => inferInstanceAs (Decidable (op ≠ .killAll ∧ os.Obliging))
  | .sched _ os => inferInstanceAs (Decidable os.Obliging)
  | .exit _ _ => inferInstanceAs (Decidable True)

/-- A relaunch and a `spawn` fail and leave no leaf behind; the child that runs has its own. -/
theorem leaf_iff_running_failed : ∃ l w, Lts.Run (@turn recordCodec) cgroupStart l w ∧
    launchesFailed l = true ∧ w.mgr.hasLeaf 1 = false ∧ w.mgr.hasLeaf 2 = false ∧
    (w.mgr.procs.lookup 3).map ProcEntry.status = some .running ∧ w.mgr.hasLeaf 3 = true := by
  obtain ⟨l, w, hr, hp⟩ := Lts.run_of_exec (@turn recordCodec) cgroupStart failedRelaunch
    (fun p => launchesFailed p.1 && p.1.all (fun tr => decide tr.act.Ordinary) &&
      decide (p.2.mgr.procs.lookup 2 = none) &&
      decide ((p.2.mgr.procs.lookup 1).map ProcEntry.status = some (.exited (some 1))) &&
      decide ((p.2.mgr.procs.lookup 3).map ProcEntry.status = some .running)) (by decide)
  simp only [Bool.and_eq_true, decide_eq_true_eq, List.all_eq_true] at hp
  obtain ⟨⟨⟨⟨hfailed, hord⟩, hnone⟩, hexited⟩, hrunning⟩ := hp
  obtain ⟨hleaf, -, -⟩ := @leaf_iff_running recordCodec _ _ _ cgroupStart_initial rfl hr hord
  refine ⟨l, w, hr, hfailed, ?_, ?_, hrunning, ?_⟩
  · by_contra hl
    obtain ⟨e, he, hst⟩ := (hleaf 1).mp (Bool.not_eq_false _ ▸ hl)
    rw [he, Option.map_some, hst] at hexited
    cases hexited
  · by_contra hl
    obtain ⟨e, he, -⟩ := (hleaf 2).mp (Bool.not_eq_false _ ▸ hl)
    rw [hnone] at he
    cases he
  · obtain ⟨e, he, hst⟩ := Option.map_eq_some_iff.mp hrunning
    exact (hleaf 3).mpr ⟨e, he, hst⟩

end MeshSupervisor
