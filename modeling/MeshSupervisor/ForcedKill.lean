import MeshSupervisor.Escalation

/-! # Which children a forced kill reaches

`terminate` and `kill_all` force a child down through its cgroup leaf when the manager has
cgroups at all, and through its process group otherwise; but a child of a manager with
cgroups may run outside any leaf, since `create_leaf` is best effort.  `JoinedAt` says that
the launch of a child opened a leaf for it.

`forced_kill_iff`: the forced step of `terminate` reaches the running child exactly when the
manager has no cgroups or the child's launch opened its leaf; the forced step of `kill_all`
exactly when, without cgroups, the child's pid was that of a running entry at the snapshot,
or, with cgroups, the launch opened the leaf.  `forced_kill_misses` is a run in which a
child outside its leaf is not reached. -/

namespace MeshSupervisor

open Wire (Codec)

/-! ### Leaves -/

/-- The launches that joined the leaf of `id`. -/
def Manager.leaf (m : Manager) (id : Handle) : List LaunchId :=
  ((m.cgroups.bind (fun cg => cg.leaves.lookup id))).getD []

/-- The transition kills what is in the leaf of `id`. -/
def KillsLeaf (tr : Lts.Tr World Action Event) (id : Handle) : Prop :=
  .cgroupKill id ∈ tr.evs ∨ .cgroupShutdown ∈ tr.evs ∨ .launchChild id none ∈ tr.evs ∨
    ∃ s code, actor tr = some (.supervise s) ∧ s.id = id ∧ s.pc = .removeLeaf code

/-- The transition sends SIGKILL to the child of launch `n`: to its process group, or to the
leaf it is in. -/
def Sigkilled (tr : Lts.Tr World Action Event) (n : LaunchId) : Prop :=
  (∃ c, tr.pre.mgr.children[n]? = some c ∧ .killGroup c.pid sigKill ∈ tr.evs) ∨
    ∃ id, n ∈ tr.pre.mgr.leaf id ∧ KillsLeaf tr id

/-- Launch `n` was made for `id` with no leaf in the way and with `cgroup.procs` open. -/
def JoinedAt (l : List (Lts.Tr World Action Event)) (id : Handle) (n : LaunchId) : Prop :=
  ∃ tr ∈ l, ∃ t os la cg, tr.act = .sched t os ∧ .launchChild id (some la) ∈ tr.evs ∧ la.child = n ∧
    os.leaf = .opened ∧ tr.pre.mgr.cgroups = some cg ∧ cg.leaves.lookup id = none

/-- A leaf with a live process in it cannot be removed: when `shutdown` has removed the
leaves, the children in them have exited. -/
def ShutdownReaps (tr : Lts.Tr World Action Event) : Prop :=
  ∀ t os pids, tr.act = .sched t os → tr.pre.tasks t = some (.killAllForce pids) → os.rmdir = true →
    ∀ id n c, n ∈ tr.pre.mgr.leaf id → tr.pre.mgr.children[n]? = some c → c.alive = false

/-- How one step of a task changes the leaf of `id`. -/
inductive LeafStep (m : Manager) (os : Os) (task : Task) (evs : List Event) (id : Handle) :
    List LaunchId → List LaunchId → Prop
  | same (ns : List LaunchId) : LeafStep m os task evs id ns ns
  | joins (la : Launched) (cg : Cgroups) : .launchChild id (some la) ∈ evs →
      la.child = m.children.length → os.leaf = .opened → m.cgroups = some cg →
      cg.leaves.lookup id = none → LeafStep m os task evs id [] [m.children.length]
  | reaped (s : Sup) (code : Option ℤ) (ns : List LaunchId) : task = .supervise s → s.id = id →
      s.pc = .removeLeaf code → LeafStep m os task evs id ns []
  | launchFails (ns : List LaunchId) : .launchChild id none ∈ evs →
      (∃ spec, task = .spawnLaunch id spec) ∨
        (∃ s code, task = .supervise s ∧ s.id = id ∧ s.pc = .relaunch code) →
      LeafStep m os task evs id ns []
  | shutdown (pids : List Pid) (ns : List LaunchId) : task = .killAllForce pids → os.rmdir = true →
      .cgroupShutdown ∈ evs → LeafStep m os task evs id ns []

namespace Cgroups

def members (cg : Cgroups) (id : Handle) : List LaunchId := (cg.leaves.lookup id).getD []

theorem members_createLeaf (cg : Cgroups) (h id : Handle) (o : LeafOutcome) :
    (cg.createLeaf h o).1.members id = cg.members id := by
  unfold createLeaf
  split_ifs with hsome
  · rfl
  · rw [Bool.not_eq_true, Option.isSome_eq_false_iff, Option.isNone_iff_eq_none] at hsome
    have hins : ∀ k, Cgroups.members ⟨AList.insert h [] cg.leaves⟩ k = cg.members k := by
      intro k
      simp only [members, Table.lookup_insert_if]
      split_ifs with hk
      · rw [hk, hsome]
        rfl
      · rfl
    cases o with
    | mkdirFails => rfl
    | procsFails => exact hins id
    | opened => exact hins id

/-- The child will join exactly when the leaf is new and `cgroup.procs` was opened. -/
theorem createLeaf_opened {cg : Cgroups} {h : Handle} {o : LeafOutcome} :
    (cg.createLeaf h o).2 = true ↔ cg.leaves.lookup h = none ∧ o = .opened := by
  unfold createLeaf
  split_ifs with hsome
  · rw [Option.isSome_iff_ne_none] at hsome
    simp [hsome]
  · rw [Bool.not_eq_true, Option.isSome_eq_false_iff, Option.isNone_iff_eq_none] at hsome
    cases o <;> simp [hsome]

theorem members_remove (cg : Cgroups) (h id : Handle) (rmdir : Bool) :
    (cg.remove h rmdir).members id = if rmdir ∧ id = h then [] else cg.members id := by
  unfold remove
  cases rmdir with
  | false => rfl
  | true =>
      simp only [members, if_true, Table.lookup_erase_if, true_and]
      split_ifs <;> rfl

theorem members_join {cg : Cgroups} {h : Handle} (hnone : cg.leaves.lookup h = none) (n : LaunchId)
    (id : Handle) : ((cg.createLeaf h .opened).1.join h n).members id =
      if id = h then [n] else cg.members id := by
  simp only [createLeaf, hnone, Option.isSome_none, Bool.false_eq_true, if_false, join, members,
    Table.lookup_modify, Table.lookup_insert_if, if_true, Option.map_some, List.nil_append]
  split_ifs <;> rfl

end Cgroups

theorem Manager.leaf_some {m : Manager} {cg : Cgroups} (h : m.cgroups = some cg) (id : Handle) :
    m.leaf id = cg.members id := by
  simp only [Manager.leaf, h, Option.bind_some, Cgroups.members]

theorem Manager.leaf_none {m : Manager} (h : m.cgroups = none) (id : Handle) : m.leaf id = [] := by
  simp only [Manager.leaf, h, Option.bind_none, Option.getD_none]

theorem Manager.leaf_map {m m' : Manager} {f : Cgroups → Cgroups}
    (h : m'.cgroups = m.cgroups.map f) {cg : Cgroups} (hcg : m.cgroups = some cg) (id : Handle) :
    m'.leaf id = (f cg).members id :=
  Manager.leaf_some (by rw [h, hcg, Option.map_some]) id

theorem Manager.leaf_map_none {m m' : Manager} {f : Cgroups → Cgroups}
    (h : m'.cgroups = m.cgroups.map f) (hcg : m.cgroups = none) (id : Handle) :
    m'.leaf id = m.leaf id := by
  rw [Manager.leaf_none hcg, Manager.leaf_none (by rw [h, hcg, Option.map_none])]

/-- A launch that fails leaves a leaf alone or removes it. -/
theorem Manager.leaf_launchFails {m m' : Manager} {id : Handle} {spec : Spec} {os : Os}
    (h : m.launchChild id spec os = (m', none)) (k : Handle) :
    m'.leaf k = m.leaf k ∨ k = id ∧ m'.leaf k = [] := by
  have hmap : m'.cgroups =
      m.cgroups.map (fun cg => (cg.createLeaf id os.leaf).1.remove id os.rmdir) := by
    unfold Manager.launchChild at h
    cases hs : os.spawn with
    | some pid => rw [hs] at h; cases h
    | none =>
        rw [hs] at h
        obtain ⟨rfl, -⟩ := Prod.mk.inj h
        exact Option.map_map ..
  cases hcg : m.cgroups with
  | none => exact .inl (Manager.leaf_map_none hmap hcg k)
  | some cg =>
      rw [Manager.leaf_some hcg, Manager.leaf_map hmap hcg, Cgroups.members_remove,
        Cgroups.members_createLeaf]
      split_ifs with hk
      · exact .inr ⟨hk.2, rfl⟩
      · exact .inl rfl

theorem Manager.leaf_launches {m m' : Manager} {id : Handle} {spec : Spec} {os : Os} {l : Launched}
    (h : m.launchChild id spec os = (m', some l)) (k : Handle) :
    m'.leaf k =
      if k = id ∧ os.leaf = .opened ∧ ∃ cg, m.cgroups = some cg ∧ cg.leaves.lookup id = none then
        [m.children.length]
      else m.leaf k := by
  have hmap : m'.cgroups = m.cgroups.map (fun cg =>
      if (cg.createLeaf id os.leaf).2 then (cg.createLeaf id os.leaf).1.join id m.children.length
      else (cg.createLeaf id os.leaf).1) := by
    unfold Manager.launchChild at h
    cases hs : os.spawn with
    | none => rw [hs] at h; cases h
    | some pid =>
        rw [hs] at h
        obtain ⟨rfl, -⟩ := Prod.mk.inj h
        exact Option.map_map ..
  cases hcg : m.cgroups with
  | none =>
      rw [if_neg (by simp)]
      exact Manager.leaf_map_none hmap hcg k
  | some cg =>
      rw [Manager.leaf_map hmap hcg, Manager.leaf_some hcg]
      by_cases hopen : cg.leaves.lookup id = none ∧ os.leaf = .opened
      · rw [if_pos (Cgroups.createLeaf_opened.mpr hopen), hopen.2, Cgroups.members_join hopen.1]
        simp only [Option.some.injEq, exists_eq_left', hopen.1, and_true]
      · rw [if_neg (fun hx => hopen (Cgroups.createLeaf_opened.mp hx)), Cgroups.members_createLeaf,
          if_neg]
        rintro ⟨-, ho, cg', hcg', hl⟩
        obtain rfl := Option.some.inj hcg'
        exact hopen ⟨hl, ho⟩

theorem Manager.leaf_congr {m m' : Manager} (h : m'.cgroups = m.cgroups) (k : Handle) :
    m'.leaf k = m.leaf k := by rw [Manager.leaf, Manager.leaf, h]

section
variable [Codec Record] {m m' : Manager} {os : Os} {task : Task} {next : Option Task}
  {evs : List Event}

theorem Moves.leaf (hm : Moves m os task m' next evs) (id : Handle) :
    LeafStep m os task evs id (m.leaf id) (m'.leaf id) := by
  have hjoins : ∀ {id' spec la}, m.launchChild id' spec os = (m', some la) →
      .launchChild id' (some la) ∈ evs → LeafStep m os task evs id (m.leaf id) (m'.leaf id) := by
    intro id' spec la hl hev
    rw [Manager.leaf_launches hl id]
    split_ifs with hopen
    · obtain ⟨rfl, ho, cg, hcg, hnone⟩ := hopen
      have hempty : m.leaf id = [] := by
        rw [Manager.leaf_some hcg, Cgroups.members, hnone]
        rfl
      rw [hempty]
      refine .joins la cg hev ?_ ho hcg hnone
      rw [(Manager.launchChild_some hl).1]
    · exact .same _
  cases hm with
  | spawnFails id' spec _ hl =>
      rcases Manager.leaf_launchFails hl id with heq | ⟨rfl, heq⟩ <;> rw [heq]
      · exact .same _
      · exact .launchFails _ (by simp) (.inl ⟨spec, rfl⟩)
  | relaunchFails s code _ hpc hl =>
      rcases Manager.leaf_launchFails hl id with heq | ⟨rfl, heq⟩ <;> rw [heq]
      · exact .same _
      · exact .launchFails _ (by simp) (.inr ⟨s, code, rfl, rfl, hpc⟩)
  | spawnLaunches id' spec _ la hl => exact hjoins hl (by simp)
  | relaunches s code _ la hpc hl => exact hjoins hl (by simp)
  | removeLeaf s code hpc =>
      have hmap : (m.removeLeaf s.id os).cgroups =
        m.cgroups.map (fun cg => cg.remove s.id os.rmdir) := rfl
      cases hcg : m.cgroups with
      | none =>
          rw [Manager.leaf_map_none hmap hcg]
          exact .same _
      | some cg =>
          rw [Manager.leaf_some hcg, Manager.leaf_map hmap hcg,
            Cgroups.members_remove]
          split_ifs with hk
          · exact .reaped s code _ rfl hk.2.symm hpc
          · exact .same _
  | killAllCgroups pids cg hcg =>
      have hpost : Manager.leaf { m with cgroups := some (cg.shutdown os.rmdir) } id =
          (cg.shutdown os.rmdir).members id := Manager.leaf_some rfl id
      rw [Manager.leaf_some hcg, hpost]
      unfold Cgroups.shutdown
      split_ifs with hrm
      · exact .shutdown pids _ rfl hrm (by simp)
      · exact .same _
  | stop id' _ pid hd =>
      obtain ⟨_, _, rfl, _⟩ := Manager.disarm_ok hd
      exact .same _
  | forget id' _ hr =>
      obtain ⟨_, _, _, rfl⟩ := Manager.removeEntry_ok hr
      exact .same _
  | _ => exact .same _

/-- A manager has cgroups for good, or never. -/
theorem Moves.cgroups_isSome (hm : Moves m os task m' next evs) :
    m'.cgroups.isSome = m.cgroups.isSome := by
  cases hm with
  | spawnFails _ _ _ hl | spawnLaunches _ _ _ _ hl | relaunchFails _ _ _ _ hl
  | relaunches _ _ _ _ _ hl => exact Manager.launchChild_cgroups hl
  | removeLeaf s code hpc => simp only [Manager.removeLeaf, Option.isSome_map]
  | killAllCgroups pids cg hcg => rw [hcg]; rfl
  | stop id _ pid hd => obtain ⟨_, _, rfl, _⟩ := Manager.disarm_ok hd; rfl
  | forget id _ hr => obtain ⟨_, _, _, rfl⟩ := Manager.removeEntry_ok hr; rfl
  | _ => rfl

theorem Moves.launches_mem (hm : Moves m os task m' next evs) {id : Handle} {la : Launched}
    (h : .launchChild id (some la) ∈ evs) : ∃ spec, m.launchChild id spec os = (m', some la) := by
  cases hm with
  | spawnLaunches id' spec _ l hl =>
      simp only [List.mem_singleton, Event.launchChild.injEq, Option.some.injEq] at h
      obtain ⟨rfl, rfl⟩ := h
      exact ⟨spec, hl⟩
  | relaunches s code _ l hpc hl =>
      simp only [List.mem_singleton, Event.launchChild.injEq, Option.some.injEq] at h
      obtain ⟨rfl, rfl⟩ := h
      exact ⟨s.spec, hl⟩
  | wait s code hpc hx => split_ifs at h <;> simp at h
  | terminateForce id pid => split_ifs at h <;> simp at h
  | _ => simp at h

end

/-! ### Leaves along a run -/

/-- What is known of the leaves after the transitions `l`. -/
structure Leaves (l : List (Lts.Tr World Action Event)) (w : World) : Prop where
  member : ∀ id n, n ∈ w.mgr.leaf id → ∃ c, w.mgr.children[n]? = some c ∧ c.handle = id
  left : ∀ id n, n ∈ w.mgr.leaf id → JoinedAt l id n
  /-- A child that joined is in its leaf, or was killed with it. -/
  joined : ∀ id n, JoinedAt l id n → n < w.mgr.children.length ∧ (n ∈ w.mgr.leaf id ∨
    ∃ tr ∈ l, Sigkilled tr n ∧
      (ShutdownReaps tr → ∀ c, w.mgr.children[n]? = some c → c.alive = false))

section
variable [Codec Record] {w₀ w w' : World} {l : List (Lts.Tr World Action Event)} {a : Action}
  {evs : List Event}

omit [Codec Record] in
theorem Inv.dead_of_idle (hI : Inv w) {t : ℕ} {task : Task} {spec : Spec} (ht : w.tasks t = some task)
    {n : LaunchId} {c : Child} (hc : w.mgr.children[n]? = some c)
    (ho : task.owner = some (c.handle, spec)) (hh : task.holds = none) : c.alive = false := by
  by_contra halive
  obtain ⟨t', task', ht', ho', hh'⟩ := hI.held n c hc (Bool.not_eq_false _ ▸ halive)
  obtain rfl := hI.unique t t' task task' _ _ _ ht ht' ho ho'
  obtain rfl := Option.some.inj (ht.symm.trans ht')
  rw [hh] at hh'
  cases hh'

theorem dead_stays (hs : step w a = some (w', evs)) {n : LaunchId}
    (hlt : n < w.mgr.children.length) (hdead : ∀ c, w.mgr.children[n]? = some c → c.alive = false) :
    ∀ c, w'.mgr.children[n]? = some c → c.alive = false := by
  intro c' hc'
  have hc := List.getElem?_eq_getElem hlt
  obtain ⟨c₁, hc₁, -, -, -, hexit⟩ := step_child hs hc
  obtain rfl := Option.some.inj (hc'.symm.trans hc₁)
  rw [Child.alive, hexit (hdead _ hc)]
  exact hdead _ hc

omit [Codec Record] in
theorem joinedAt_snoc {tr : Lts.Tr World Action Event} {id : Handle} {n : LaunchId} :
    JoinedAt (l ++ [tr]) id n ↔ JoinedAt l id n ∨ JoinedAt [tr] id n := by
  constructor
  · rintro ⟨tr', htr', hrest⟩
    rcases List.mem_append.mp htr' with htr' | htr'
    · exact .inl ⟨tr', htr', hrest⟩
    · exact .inr ⟨tr', htr', hrest⟩
  · rintro (⟨tr', htr', hrest⟩ | ⟨tr', htr', hrest⟩)
    · exact ⟨tr', List.mem_append_left _ htr', hrest⟩
    · exact ⟨tr', List.mem_append_right _ htr', hrest⟩

theorem step_leaf (hs : step w a = some (w', evs)) (id : Handle) :
    w'.mgr.leaf id = w.mgr.leaf id ∨ ∃ t os task, a = .sched t os ∧ w.tasks t = some task ∧
      LeafStep w.mgr os task evs id (w.mgr.leaf id) (w'.mgr.leaf id) := by
  rcases step_moves hs with ⟨t, op, -, -, -, rfl⟩ | ⟨t, os, task, m', next, rfl, ht, hm, rfl⟩ |
    ⟨k, code, c, -, -, -, -, rfl⟩
  · exact .inl rfl
  · exact .inr ⟨t, os, task, rfl, ht, hm.leaf id⟩
  · exact .inl (Manager.leaf_congr rfl id)

theorem step_leaf_mem (hs : step w a = some (w', evs)) {id : Handle} {n : LaunchId}
    (hn : n ∈ w'.mgr.leaf id) : n ∈ w.mgr.leaf id ∨ JoinedAt [⟨w, a, evs, w'⟩] id n := by
  rcases step_leaf hs id with heq | ⟨t, os, task, rfl, ht, hleaf⟩
  · exact .inl (heq ▸ hn)
  · generalize w.mgr.leaf id = ns at hleaf ⊢
    generalize w'.mgr.leaf id = ns' at hleaf hn
    cases hleaf with
    | same => exact .inl hn
    | joins la cg hev hla ho hcg hnone =>
        obtain rfl := List.mem_singleton.mp hn
        exact .inr ⟨_, List.mem_singleton.mpr rfl, t, os, la, cg, rfl, hev, hla, ho, hcg, hnone⟩
    | _ => cases hn

theorem step_joins (hs : step w a = some (w', evs)) {id : Handle} {n : LaunchId}
    (hj : JoinedAt [⟨w, a, evs, w'⟩] id n) :
    n ∈ w'.mgr.leaf id ∧ ∃ c, w'.mgr.children[n]? = some c ∧ c.handle = id := by
  obtain ⟨tr, htr, t, os, la, cg, hact, hev, rfl, ho, hcg, hnone⟩ := hj
  obtain rfl := List.mem_singleton.mp htr
  rcases step_moves hs with ⟨_, _, -, -, rfl, -⟩ | ⟨t', os', task, m', next, rfl, ht, hm, rfl⟩ |
    ⟨_, _, _, -, -, -, rfl, -⟩
  · cases hev
  · cases hact
    obtain ⟨spec, hl⟩ := hm.launches_mem hev
    obtain ⟨hla, hchildren⟩ := Manager.launchChild_some hl
    constructor
    · show la.child ∈ m'.leaf id
      rw [Manager.leaf_launches hl, if_pos ⟨rfl, ho, cg, hcg, hnone⟩, hla]
      exact List.mem_singleton.mpr rfl
    · refine ⟨⟨id, spec, la.pid, none⟩, ?_, rfl⟩
      show m'.children[la.child]? = _
      rw [hchildren, hla]
      exact List.getElem?_concat_length
  · cases hev

/-- A child that a step takes out of its leaf is killed by it, and does not live then. -/
theorem Leaves.killed (h : Leaves l w) (hI : Inv w) (hs : step w a = some (w', evs)) {id : Handle}
    {n : LaunchId} (hin : n ∈ w.mgr.leaf id) (hout : n ∉ w'.mgr.leaf id) :
    Sigkilled ⟨w, a, evs, w'⟩ n ∧ (ShutdownReaps ⟨w, a, evs, w'⟩ →
      ∀ c, w.mgr.children[n]? = some c → c.alive = false) := by
  obtain ⟨c, hc, hh⟩ := h.member id n hin
  have honly : ∀ c', w.mgr.children[n]? = some c' → c' = c :=
    fun c' hc' => Option.some.inj (hc'.symm.trans hc)
  rcases step_leaf hs id with heq | ⟨t, os, task, rfl, ht, hleaf⟩
  · rw [heq] at hout
    exact absurd hin hout
  · generalize hx : w.mgr.leaf id = ns at hleaf
    generalize hy : w'.mgr.leaf id = ns' at hleaf
    cases hleaf with
    | same =>
        rw [hy, ← hx] at hout
        exact absurd hin hout
    | joins =>
        rw [hx] at hin
        cases hin
    | reaped s code _ htask hid hpc =>
        subst htask
        refine ⟨.inr ⟨id, hin, .inr (.inr (.inr ⟨s, code, ht, hid, hpc⟩))⟩, fun _ c' hc' => ?_⟩
        have howner : (Task.supervise s).owner = some (c.handle, s.spec) := by
          rw [hh, ← hid]
          rfl
        rw [honly c' hc']
        exact hI.dead_of_idle ht hc howner (by simp only [Task.holds, hpc])
    | launchFails _ hev htask =>
        refine ⟨.inr ⟨id, hin, .inr (.inr (.inl hev))⟩, fun _ c' hc' => ?_⟩
        rw [honly c' hc']
        rcases htask with ⟨spec, rfl⟩ | ⟨s, code, rfl, hid, hpc⟩
        · have howner : (Task.spawnLaunch id spec).owner = some (c.handle, spec) := by
            rw [hh]
            rfl
          exact hI.dead_of_idle ht hc howner rfl
        · have howner : (Task.supervise s).owner = some (c.handle, s.spec) := by
            rw [hh, ← hid]
            rfl
          exact hI.dead_of_idle ht hc howner (by simp only [Task.holds, hpc])
    | shutdown pids _ htask hrm hev =>
        subst htask
        exact ⟨.inr ⟨id, hin, .inr (.inl hev)⟩,
          fun hreaps c' hc' => hreaps t os pids rfl ht hrm id n c' hin hc'⟩

theorem Leaves.snoc (h : Leaves l w) (hI : Inv w) (hs : step w a = some (w', evs)) :
    Leaves (l ++ [⟨w, a, evs, w'⟩]) w' := by
  refine ⟨?_, ?_, ?_⟩
  · intro id n hn
    rcases step_leaf_mem hs hn with hn | hj
    · obtain ⟨c, hc, hh⟩ := h.member id n hn
      obtain ⟨c', hc', hh', -⟩ := step_child hs hc
      exact ⟨c', hc', hh'.trans hh⟩
    · exact (step_joins hs hj).2
  · intro id n hn
    rcases step_leaf_mem hs hn with hn | hj
    · exact joinedAt_snoc.mpr (.inl (h.left id n hn))
    · exact joinedAt_snoc.mpr (.inr hj)
  · intro id n hj
    rcases joinedAt_snoc.mp hj with hj | hj
    · obtain ⟨hlt, hin⟩ := h.joined id n hj
      refine ⟨lt_of_lt_of_le hlt (children_length_le hs), ?_⟩
      by_cases hstays : n ∈ w'.mgr.leaf id
      · exact .inl hstays
      · right
        rcases hin with hin | ⟨tr, htr, hk, hreaps⟩
        · obtain ⟨hk, hreaps⟩ := h.killed hI hs hin hstays
          exact ⟨_, List.mem_append_right _ (List.mem_singleton.mpr rfl), hk,
            fun hx => dead_stays hs hlt (hreaps hx)⟩
        · exact ⟨tr, List.mem_append_left _ htr, hk, fun hx => dead_stays hs hlt (hreaps hx)⟩
    · obtain ⟨hin, c, hc, -⟩ := step_joins hs hj
      exact ⟨(List.getElem?_eq_some_iff.mp hc).1, .inl hin⟩

theorem leaves_run (h₀ : Initial w₀) {found : Bool} (hcg : w₀.mgr.cgroups = Cgroups.detect found)
    (hr : Lts.Run step w₀ l w) : Leaves l w := by
  induction hr with
  | nil =>
      have hempty : ∀ id, w₀.mgr.leaf id = [] := by
        intro id
        rw [Manager.leaf, hcg]
        cases found <;> rfl
      refine ⟨?_, ?_, ?_⟩
      · intro id n hn
        rw [hempty] at hn
        cases hn
      · intro id n hn
        rw [hempty] at hn
        cases hn
      · rintro id n ⟨tr, htr, -⟩
        cases htr
  | @snoc l w w' a evs hr hs ih => exact ih.snoc (inv_run h₀ hr).1 hs

/-! ### The pids that are forced -/

/-- The handle and the pid that a `stop` goes on to terminate. -/
def Task.target : Task → Option (Handle × Pid)
  | .stopReturn id (some pid) | .terminate id pid | .terminateSleep id pid
  | .terminateForce id pid => some (id, pid)
  | _ => none

/-- The snapshot of a `kill_all`. -/
def Task.snapshot : Task → Option (List Pid)
  | .killAllTerm pids | .killAllPoll _ pids | .killAllForce pids => some pids
  | _ => none

theorem Moves.target_next {m m' : Manager} {os : Os} {task task' : Task} {evs : List Event}
    (hm : Moves m os task m' (some task') evs) {id : Handle} {pid : Pid}
    (h : task'.target = some (id, pid)) :
    task.target = some (id, pid) ∨ task = .stop id ∧ m.disarm id = .ok (m', some pid) ∧
      task' = .stopReturn id (some pid) := by
  generalize hn : some task' = next at hm
  cases hm with
  | stop id' _ pid' hd =>
      obtain rfl := Option.some.inj hn
      cases pid' with
      | none => cases h
      | some pid' =>
          obtain ⟨rfl, rfl⟩ := Prod.mk.inj (Option.some.inj h)
          exact .inr ⟨rfl, hd, rfl⟩
  | stopRunning | terminate | terminateForces =>
      obtain rfl := Option.some.inj hn
      exact .inl h
  | _ => cases hn <;> cases h

theorem Moves.snapshot_next {m m' : Manager} {os : Os} {task task' : Task} {evs : List Event}
    (hm : Moves m os task m' (some task') evs) {pids : List Pid} (h : task'.snapshot = some pids) :
    task.snapshot = some pids ∨ task = .killAllSnapshot ∧ pids = m.runningPids := by
  generalize hn : some task' = next at hm
  cases hm with
  | killAllSnapshot =>
      obtain rfl := Option.some.inj hn
      exact .inr ⟨rfl, (Option.some.inj h).symm⟩
  | killAllTerm | killAllWaits | killAllForces =>
      obtain rfl := Option.some.inj hn
      exact .inl h
  | _ => cases hn <;> cases h

theorem target_run (h₀ : Initial w₀) (hr : Lts.Run step w₀ l w) :
    ∀ t task id pid, w.tasks t = some task → task.target = some (id, pid) →
      ∃ restarts n, Pinned id pid restarts n w := by
  induction hr with
  | nil =>
      intro t task id pid ht
      rw [h₀.idle.1 t] at ht
      cases ht
  | @snoc l w w' a evs hr hs ih =>
      intro t task' id pid ht' htarget
      rcases task_origin hs ht' with ht | ⟨op, rfl⟩ | ⟨os, task, -, ht, hm, hw⟩
      · obtain ⟨restarts, n, hpin⟩ := ih t task' id pid ht htarget
        exact ⟨restarts, n, hpin.keep hs⟩
      · cases op <;> cases htarget
      · rcases hm.target_next htarget with htarget' | ⟨rfl, hd, rfl⟩
        · obtain ⟨restarts, n, hpin⟩ := ih t task id pid ht htarget'
          exact ⟨restarts, n, hpin.keep hs⟩
        · obtain ⟨e, he, -, hpid⟩ := Manager.disarm_ok hd
          split_ifs at hpid with hrun
          obtain rfl := Option.some.inj hpid
          obtain ⟨n, c, -, -, -, -, hpin⟩ := Pinned.of_stop (inv_run h₀ hr).1 (watched_run h₀ hr) t he
            (ProcState.isRunning_iff.mp hrun) hd
          rw [hw]
          exact ⟨e.restarts, n, hpin⟩

/-- Every snapshot was taken in a transition of its `kill_all`. -/
theorem snapshot_run (h₀ : Initial w₀) (hr : Lts.Run step w₀ l w) :
    ∀ t task pids, w.tasks t = some task → task.snapshot = some pids →
      ∃ tr ∈ l, (∃ os, tr.act = .sched t os) ∧ actor tr = some .killAllSnapshot ∧
        pids = tr.pre.mgr.runningPids := by
  induction hr with
  | nil =>
      intro t task pids ht
      rw [h₀.idle.1 t] at ht
      cases ht
  | @snoc l w w' a evs hr hs ih =>
      intro t task' pids ht' hsnap
      have hmono : (∃ tr ∈ l, (∃ os, tr.act = .sched t os) ∧ actor tr = some .killAllSnapshot ∧
          pids = tr.pre.mgr.runningPids) → ∃ tr ∈ l ++ [⟨w, a, evs, w'⟩], (∃ os, tr.act = .sched t os) ∧
          actor tr = some .killAllSnapshot ∧ pids = tr.pre.mgr.runningPids := by
        rintro ⟨tr, htr, hrest⟩
        exact ⟨tr, List.mem_append_left _ htr, hrest⟩
      rcases task_origin hs ht' with ht | ⟨op, rfl⟩ | ⟨os, task, rfl, ht, hm, -⟩
      · exact hmono (ih t task' pids ht hsnap)
      · cases op <;> cases hsnap
      · rcases hm.snapshot_next hsnap with hsnap' | ⟨rfl, rfl⟩
        · exact hmono (ih t task pids ht hsnap')
        · exact ⟨_, List.mem_append_right _ (List.mem_singleton.mpr rfl), ⟨os, rfl⟩, ht, rfl⟩

/-! ### The forced steps -/

def StillRunning (w : World) (n : LaunchId) (c : Child) : Prop :=
  w.mgr.children[n]? = some c ∧ c.alive = true ∧
    ∃ e, w.entry c.handle = some e ∧ e.status = .running

omit [Codec Record] in
/-- `cgroup.kill` reaches what is in the leaf. -/
theorem sigkilled_cgroupKill {tr : Lts.Tr World Action Event} {id : Handle} {pid : Pid} {n : LaunchId}
    (hact : actor tr = some (.terminateForce id pid)) (hev : tr.evs = [.cgroupKill id]) :
    Sigkilled tr n ↔ n ∈ tr.pre.mgr.leaf id := by
  constructor
  · rintro (⟨c, -, hk⟩ | ⟨id', hn, hk⟩)
    · rw [hev] at hk
      simp at hk
    · rcases hk with hk | hk | hk | ⟨s, code, hs, -⟩
      · rw [hev, List.mem_singleton, Event.cgroupKill.injEq] at hk
        rw [← hk]
        exact hn
      · rw [hev] at hk
        simp at hk
      · rw [hev] at hk
        simp at hk
      · rw [hact] at hs
        cases hs
  · intro hn
    exact .inr ⟨id, hn, .inl (by rw [hev]; exact List.mem_singleton.mpr rfl)⟩

omit [Codec Record] in
theorem StillRunning.pid {n : LaunchId} {c : Child} (h : StillRunning w n c) (hI : Inv w)
    {e : ProcEntry} (he : w.entry c.handle = some e) : e.pid = c.pid := by
  obtain ⟨hc, halive, e', he', hrun⟩ := h
  obtain rfl := Option.some.inj (he.symm.trans he')
  obtain ⟨t, task, ht, ho, hh⟩ := hI.held n c hc halive
  obtain ⟨c', hc', -, -, -, hpid⟩ := hI.tracks t task n _ _ ht ho hh
  obtain rfl := Option.some.inj (hc.symm.trans hc')
  exact hpid e he hrun

omit [Codec Record] in
/-- A living child is in its leaf exactly when it joined it. -/
theorem Leaves.mem_iff (h : Leaves l w) (hreaps : ∀ tr ∈ l, ShutdownReaps tr) {n : LaunchId} {c : Child}
    (hc : w.mgr.children[n]? = some c) (halive : c.alive = true) (id : Handle) :
    n ∈ w.mgr.leaf id ↔ JoinedAt l id n := by
  refine ⟨h.left id n, ?_⟩
  intro hj
  rcases (h.joined id n hj).2 with hn | ⟨tr, htr, -, hdead⟩
  · exact hn
  · rw [hdead (hreaps tr htr) c hc] at halive
    cases halive

/-- **Forced kills.**  The forced step of `terminate` reaches a child that is still running
exactly when the manager has no cgroups or the child's launch opened its leaf, and that of
`kill_all` exactly when its launch opened its leaf or, without cgroups, its pid is in the
snapshot. -/
theorem forced_kill_iff (h₀ : Initial w₀) {found : Bool} (hcg : w₀.mgr.cgroups = Cgroups.detect found)
    (hr : Lts.Run step w₀ l w) (hreaps : ∀ tr ∈ l, ShutdownReaps tr)
    (hs : step w a = some (w', evs)) :
    (∀ pid n c, actor ⟨w, a, evs, w'⟩ = some (.terminateForce c.handle pid) → StillRunning w n c →
      (Sigkilled ⟨w, a, evs, w'⟩ n ↔ w.mgr.cgroups = none ∨ JoinedAt l c.handle n)) ∧
    ∀ t os pids, a = .sched t os → w.tasks t = some (.killAllForce pids) →
      ∃ tr₀ ∈ l, (∃ os₀, tr₀.act = .sched t os₀) ∧ actor tr₀ = some .killAllSnapshot ∧
        ∀ n c, StillRunning w n c → (Sigkilled ⟨w, a, evs, w'⟩ n ↔
          (w.mgr.cgroups = none ∧ c.pid ∈ tr₀.pre.mgr.runningPids) ∨ JoinedAt l c.handle n) := by
  have hI := (inv_run h₀ hr).1
  have hleaves := leaves_run h₀ hcg hr
  refine ⟨?_, ?_⟩
  · intro pid n c hact hrun
    obtain ⟨hc, halive, e, he, hst⟩ := hrun
    obtain ⟨t, os, m', next, rfl, ht, hm, rfl⟩ := step_of_actor hs hact
    cases hm
    by_cases hnone : w.mgr.cgroups = none
    · obtain ⟨restarts, k, hpin⟩ := target_run h₀ hr t _ c.handle pid ht rfl
      have hpid : pid = c.pid := by
        rw [← (hpin.entry e he).1]
        exact StillRunning.pid ⟨hc, halive, e, he, hst⟩ hI he
      refine ⟨fun _ => .inl hnone, fun _ => .inl ⟨c, hc, ?_⟩⟩
      dsimp only
      rw [hpid, hnone]
      exact List.mem_singleton.mpr rfl
    · rw [sigkilled_cgroupKill hact (if_pos (Option.isSome_iff_ne_none.mpr hnone)),
        hleaves.mem_iff hreaps hc halive]
      exact ⟨.inr, fun h => h.resolve_left hnone⟩
  · intro t os pids ha ht
    obtain ⟨tr₀, htr₀, hslot, hact₀, rfl⟩ := snapshot_run h₀ hr t _ pids ht rfl
    refine ⟨tr₀, htr₀, hslot, hact₀, ?_⟩
    intro n c hrun
    obtain ⟨hc, halive, -⟩ := hrun
    have hmem := hleaves.mem_iff hreaps hc halive
    subst ha
    obtain ⟨m', next, hm, rfl⟩ := step_of_task hs ht
    cases hm with
    | killAllCgroups _ cg hcgr =>
        rw [hcgr]
        constructor
        · rintro (⟨c', -, hk⟩ | ⟨id, hn, -⟩)
          · simp at hk
          · obtain ⟨c', hc', hh⟩ := hleaves.member id n hn
            obtain rfl := Option.some.inj (hc.symm.trans hc')
            rw [hh]
            exact .inr ((hmem id).mp hn)
        · rintro (⟨hx, -⟩ | hj)
          · cases hx
          · exact .inr ⟨c.handle, (hmem c.handle).mpr hj, .inr (.inl (by simp))⟩
    | killAllForce _ hcgr =>
        constructor
        · rintro (⟨c', hc', hk⟩ | ⟨id, hn, -⟩)
          · obtain rfl := Option.some.inj (hc.symm.trans hc')
            refine .inl ⟨hcgr, ?_⟩
            simpa using hk
          · rw [Manager.leaf_none hcgr] at hn
            cases hn
        · rintro (⟨-, hp⟩ | hj)
          · exact .inl ⟨c, hc, by simpa using hp⟩
          · have hn := (hmem c.handle).mpr hj
            rw [Manager.leaf_none hcgr] at hn
            cases hn

end

/-! ### A stop with cgroups, run by run -/

/-- A manager with cgroups and an empty store. -/
def cgroupStart : World := World.start (.withStore ⟨∅, none, none⟩ ⟨[], 0⟩ (Cgroups.detect true))

theorem cgroupStart_initial : @Initial recordCodec cgroupStart :=
  .inr ⟨⟨∅, none, none⟩, ⟨[], 0⟩, Cgroups.detect true, rfl, rfl⟩

/-- Handle 1 is spawned, its leaf goes as `leaf` says, and a stop runs up to its forced step. -/
def stopRun (leaf : LeafOutcome) : List Action :=
  [.call 0 (.spawn restartSpec), .sched 0 {}, .sched 0 { spawn := some 100, leaf := leaf },
    .sched 0 {}, .sched 0 {}, .sched 0 {}, .call 1 (.stop 1), .sched 1 {}, .sched 1 {}, .sched 1 {},
    .sched 1 {}]

/-- No `kill_all` gets to its forced step. -/
def neverShutsDown (l : List (Lts.Tr World Action Event)) : Bool :=
  l.all fun tr =>
    match actor tr with
    | some (.killAllForce _) => false
    | _ => true

theorem neverShutsDown_spec {l : List (Lts.Tr World Action Event)} (h : neverShutsDown l = true) :
    ∀ tr ∈ l, ShutdownReaps tr := by
  intro tr htr t os pids hact ht
  have := List.all_eq_true.mp h tr htr
  simp only [actor, hact, ht] at this
  cases this

/-- The stop finds its child running and is about to force it. -/
def aboutToForce (w : World) : Bool :=
  decide (w.tasks 1 = some (.terminateForce 1 100)) && w.mgr.cgroups.isSome &&
    decide (w.mgr.children[0]? = some ⟨1, restartSpec, 100, none⟩) &&
    decide ((w.entry 1).map ProcEntry.status = some .running)

theorem aboutToForce_spec {w : World} (h : aboutToForce w = true) :
    ∃ w', @step recordCodec w (.sched 1 {}) = some (w', [.cgroupKill 1]) ∧
      actor ⟨w, .sched 1 {}, [.cgroupKill 1], w'⟩ = some (.terminateForce 1 100) ∧
      StillRunning w 0 ⟨1, restartSpec, 100, none⟩ := by
  simp only [aboutToForce, Bool.and_eq_true, decide_eq_true_eq] at h
  obtain ⟨⟨⟨ht, hcg⟩, hc⟩, he⟩ := h
  obtain ⟨e, he, hst⟩ := Option.map_eq_some_iff.mp he
  have hadv : @advance recordCodec w.mgr {} (.terminateForce 1 100) = some (w.mgr, none, [.cgroupKill 1]) := by
    simp only [advance, hcg, if_true]
  exact ⟨_, @step_sched recordCodec _ _ _ _ _ ht hadv, ht, hc, rfl, e, he, hst⟩

/-- A child in its leaf is reached. -/
theorem forced_kill_iff_opened : ∃ l w w',
    Lts.Run (@step recordCodec) cgroupStart l w ∧ JoinedAt l 1 0 ∧
    Sigkilled ⟨w, .sched 1 {}, [.cgroupKill 1], w'⟩ 0 := by
  obtain ⟨l, w, hr, hp⟩ := Lts.run_of_exec (@step recordCodec) cgroupStart (stopRun .opened)
    (fun p => neverShutsDown p.1 && aboutToForce p.2 && decide (0 ∈ p.2.mgr.leaf 1)) (by decide)
  simp only [Bool.and_eq_true, decide_eq_true_eq] at hp
  obtain ⟨⟨hreaps, hforce⟩, hleaf⟩ := hp
  obtain ⟨w', hs, hact, hrun⟩ := aboutToForce_spec hforce
  have hjoined := (@leaves_run recordCodec _ _ _ cgroupStart_initial true rfl hr).left 1 0 hleaf
  exact ⟨l, w, w', hr, hjoined, ((@forced_kill_iff recordCodec _ _ _ _ _ _ cgroupStart_initial true rfl hr
    (neverShutsDown_spec hreaps) hs).1 100 0 _ hact hrun).mpr (.inr hjoined)⟩

/-- The leaf of a child could not be made, and the forced step of its stop misses it. -/
theorem forced_kill_misses : ∃ l w w' n c,
    Lts.Run (@step recordCodec) cgroupStart l w ∧ (∀ tr ∈ l, ShutdownReaps tr) ∧
    @step recordCodec w (.sched 1 {}) = some (w', [.cgroupKill 1]) ∧
    actor ⟨w, .sched 1 {}, [.cgroupKill 1], w'⟩ = some (.terminateForce c.handle c.pid) ∧
    StillRunning w n c ∧ ¬ Sigkilled ⟨w, .sched 1 {}, [.cgroupKill 1], w'⟩ n := by
  obtain ⟨l, w, hr, hp⟩ := Lts.run_of_exec (@step recordCodec) cgroupStart (stopRun .mkdirFails)
    (fun p => neverShutsDown p.1 && aboutToForce p.2 && decide (p.2.mgr.leaf 1 = [])) (by decide)
  simp only [Bool.and_eq_true, decide_eq_true_eq] at hp
  obtain ⟨⟨hreaps, hforce⟩, hleaf⟩ := hp
  obtain ⟨w', hs, hact, hrun⟩ := aboutToForce_spec hforce
  refine ⟨l, w, w', 0, _, hr, neverShutsDown_spec hreaps, hs, hact, hrun, ?_⟩
  rw [sigkilled_cgroupKill hact rfl, hleaf]
  exact List.not_mem_nil

end MeshSupervisor
