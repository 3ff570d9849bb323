import MeshSupervisor.Tasks

/-! # Who works on a handle

At most one task works on a handle: the `spawn` call that created it and then the
`supervise` task it goes on as.  `Inv` collects what holds in every reachable state of the
step-by-step interleaving:

* the counter is above every handle in the table and every handle a task works on;
* two tasks never work on the same handle;
* what a task last did to the table entry of its handle is still there, unless the entry
  was forgotten (`Task.Agrees`);
* every child that is alive is held by the task that works on its handle;
* the child a task holds was launched for its handle, and has the pid of a running entry.

`inv_initial` and `inv_step` are the two halves of the induction.  A handle that has ever
been in the table is `Taken` from then on. -/

namespace MeshSupervisor

open Wire (Codec)

/-- The handle and the specification a task works on. -/
def Task.owner : Task → Option (Handle × Spec)
  | .spawnLaunch id spec | .spawnInsert id spec _ | .spawnSave id spec _
  | .spawnReturn id spec _ => some (id, spec)
  | .supervise s => some (s.id, s.spec)
  | _ => none

/-- The launch whose child the task has not yet seen exit. -/
def Task.holds : Task → Option LaunchId
  | .spawnInsert _ _ l | .spawnSave _ _ l | .spawnReturn _ _ l => some l.child
  | .supervise s =>
      match s.pc with
      | .wait => some s.child
      | .applyLaunch _ l | .saveLaunch l => some l.child
      | _ => none
  | _ => none

def Task.launched : Task → Option Launched
  | .spawnInsert _ _ l | .spawnSave _ _ l | .spawnReturn _ _ l => some l
  | .supervise s =>
      match s.pc with
      | .applyLaunch _ l | .saveLaunch l => some l
      | _ => none
  | _ => none

/-- The exit status the `supervise` task has recorded for the current round, if any. -/
def SupPc.code : SupPc → Option (Option ℤ)
  | .wait | .saveLaunch _ => none
  | .saveExit c | .removeLeaf c | .readArmed c | .readShutdown c _ | .backoff c
  | .rereadShutdown c _ | .relaunch c | .applyLaunch c _ => some c

/-- The status the task last wrote. -/
def SupPc.status (pc : SupPc) : ProcState :=
  match pc.code with
  | none => .running
  | some c => .exited c

/-- The decision to relaunch has been made. -/
def SupPc.due : SupPc → Bool
  | .backoff _ | .rereadShutdown _ _ | .relaunch _ | .applyLaunch _ _ => true
  | _ => false

/-- The entry of a task's handle is as the task left it. -/
def Task.Agrees (procs : Table Handle ProcEntry) : Task → Prop
  | .spawnLaunch id _ | .spawnInsert id _ _ => procs.lookup id = none
  | .spawnSave id _ _ | .spawnReturn id _ _ => ∃ e, procs.lookup id = some e ∧ e.status = .running
  | .supervise s => (∀ e, procs.lookup s.id = some e → e.status = s.pc.status) ∧
      ∀ c, s.pc.code = some c → s.pc.due = true → shouldRestart s.spec.policy c = true
  | _ => True

/-- Launch `n`, held by `task`, is a child of `h`, and a running entry has its pid. -/
def Tracks (m : Manager) (task : Task) (n : LaunchId) (h : Handle) (spec : Spec) : Prop :=
  ∃ c, m.children[n]? = some c ∧ c.handle = h ∧ c.spec = spec ∧
    (∀ l, task.launched = some l → c.pid = l.pid) ∧
    ∀ e, m.procs.lookup h = some e → e.status = .running → e.pid = c.pid

/-- The invariant of the interleaving. -/
structure Inv (w : World) : Prop where
  key_le : ∀ h e, w.mgr.procs.lookup h = some e → h ≤ w.mgr.next
  owner_le : ∀ t task h spec, w.tasks t = some task → task.owner = some (h, spec) →
    h ≤ w.mgr.next
  unique : ∀ t₁ t₂ task₁ task₂ h spec₁ spec₂, w.tasks t₁ = some task₁ → w.tasks t₂ = some task₂ →
    task₁.owner = some (h, spec₁) → task₂.owner = some (h, spec₂) → t₁ = t₂
  agrees : ∀ t task, w.tasks t = some task → task.Agrees w.mgr.procs
  held : ∀ n c, w.mgr.children[n]? = some c → c.alive = true →
    ∃ t task, w.tasks t = some task ∧ task.owner = some (c.handle, c.spec) ∧ task.holds = some n
  tracks : ∀ t task n h spec, w.tasks t = some task → task.owner = some (h, spec) →
    task.holds = some n → Tracks w.mgr task n h spec

theorem Task.Agrees.pc_of_running {procs : Table Handle ProcEntry} {s : Sup}
    (hA : (Task.supervise s).Agrees procs) {e : ProcEntry} (he : procs.lookup s.id = some e)
    (hr : e.status = .running) : s.pc = .wait ∨ ∃ l, s.pc = .saveLaunch l := by
  have hst := hA.1 e he
  rw [hr] at hst
  cases hpc : s.pc with
  | wait => exact .inl rfl
  | saveLaunch l => exact .inr ⟨l, rfl⟩
  | _ =>
      rw [hpc] at hst
      cases hst

/-- The states a manager starts in: fresh, or reloaded from a store. -/
def Initial [Codec Record] (w : World) : Prop :=
  w = World.start .new ∨
    ∃ st loaded cg, st.load = .ok loaded ∧ w = World.start (.withStore st loaded cg)

section
variable [Codec Record]

/-- The table a reload builds: one tombstone for each record. -/
theorem lookup_withStore {st : Store} {loaded : Loaded} (h : st.load = .ok loaded)
    (cg : Option Cgroups) (k : Handle) :
    (Manager.withStore st loaded cg).procs.lookup k = (st.record? k).map ProcEntry.stale := by
  rw [← (Store.load_ok h).records k, Manager.withStore, AList.lookup_to_alist,
    Table.dlookup_map_values]

theorem Initial.idle {w : World} (hw : Initial w) :
    (∀ t, w.tasks t = none) ∧ w.mgr.children = [] ∧
      ∀ h e, w.mgr.procs.lookup h = some e → ∃ r : Record, e = ProcEntry.stale r := by
  rcases hw with rfl | ⟨st, loaded, cg, hl, rfl⟩
  · refine ⟨fun _ => rfl, rfl, ?_⟩
    intro h e he
    cases he
  · refine ⟨fun _ => rfl, rfl, ?_⟩
    intro h e he
    have hlook := lookup_withStore hl cg h
    rw [show (Manager.withStore st loaded cg).procs.lookup h = some e from he] at hlook
    obtain ⟨r, -, hr⟩ := Option.map_eq_some_iff.mp hlook.symm
    exact ⟨r, hr.symm⟩

theorem inv_initial {w : World} (hw : Initial w) : Inv w := by
  rcases hw with rfl | ⟨st, loaded, cg, hl, rfl⟩
  · constructor <;> simp [World.start, Manager.new]
  · have hspec := Store.load_ok hl
    refine ⟨?_, by simp [World.start], by simp [World.start], by simp [World.start],
      by simp [World.start, Manager.withStore], by simp [World.start]⟩
    intro h e he
    apply hspec.key_le
    rw [Store.mem_iff_record? hspec.readable]
    have := lookup_withStore hl cg h
    simp only [World.start] at he
    rw [he] at this
    cases hr : st.record? h with
    | none => rw [hr] at this; cases this
    | some r => rfl

end

/-! ### One step of the acting task -/

namespace Moves

variable [Codec Record] {m m' : Manager} {os : Os} {task : Task} {next : Option Task}
  {evs : List Event}

/-- A task goes on working on its handle; only the first step of `spawn` takes a new one. -/
theorem owner (hm : Moves m os task m' next evs) {task' : Task} (hn : next = some task')
    {o : Handle × Spec} (ho : task'.owner = some o) :
    task.owner = some o ∨ ∃ spec, task = .spawn spec ∧ o = (m.next + 1, spec) := by
  cases hm with
  | spawn spec =>
      obtain rfl := Option.some.inj hn
      exact .inr ⟨spec, rfl, (Option.some.inj ho).symm⟩
  | _ => cases hn <;> exact .inl ho

/-- The acting task leaves its entry as `Agrees` says. -/
theorem agrees (hm : Moves m os task m' next evs) (h : task.Agrees m.procs)
    (hkey : ∀ h e, m.procs.lookup h = some e → h ≤ m.next)
    {task' : Task} (hn : next = some task') : task'.Agrees m'.procs := by
  cases hm with
  | spawn spec =>
      obtain rfl := Option.some.inj hn
      show m.procs.lookup (m.next + 1) = none
      cases hl : m.procs.lookup (m.next + 1) with
      | none => rfl
      | some e => exact absurd (hkey _ e hl) (by lia)
  | spawnLaunches id spec _ l hl =>
      obtain rfl := Option.some.inj hn
      have := (Manager.launchChild_frame hl).1
      show _ = none
      rw [this]
      exact h
  | spawnInsert id spec l =>
      obtain rfl := Option.some.inj hn
      exact ⟨_, (m.lookup_insertEntry id id l).trans (if_pos rfl), rfl⟩
  | spawnReturn id spec l =>
      obtain rfl := Option.some.inj hn
      obtain ⟨e, he, hs⟩ := h
      refine ⟨fun e' he' => ?_, fun c hc => by cases hc⟩
      obtain rfl := Option.some.inj (he.symm.trans he')
      exact hs
  | wait s code hpc hx =>
      obtain rfl := Option.some.inj hn
      refine ⟨fun e he => ?_, fun c _ hd => by cases hd⟩
      rw [Manager.lookup_recordExit, if_pos rfl] at he
      obtain ⟨e₀, -, rfl⟩ := Option.map_eq_some_iff.mp he
      rfl
  | saveExit s code hpc | removeLeaf s code hpc | readArmed s code hpc =>
      obtain rfl := Option.some.inj hn
      refine ⟨fun e he => ?_, fun c _ hd => by cases hd⟩
      have := h.1 e he
      rw [hpc] at this
      exact this
  | toBackoff s code hpc hs hr hcap =>
      obtain rfl := Option.some.inj hn
      refine ⟨fun e he => ?_, fun c hc _ => ?_⟩
      · have := h.1 e he
        rw [hpc] at this
        exact this
      · obtain rfl := Option.some.inj hc
        exact hr
  | backoff s code hpc | toRelaunch s code hpc =>
      obtain rfl := Option.some.inj hn
      obtain ⟨h1, h2⟩ := h
      rw [hpc] at h1 h2
      exact ⟨h1, h2⟩
  | relaunches s code _ l hpc hl =>
      obtain rfl := Option.some.inj hn
      obtain ⟨h1, h2⟩ := h
      rw [hpc] at h1 h2
      have := (Manager.launchChild_frame hl).1
      rw [this]
      exact ⟨h1, h2⟩
  | applyLaunch s code l hpc =>
      obtain rfl := Option.some.inj hn
      refine ⟨fun e he => ?_, fun c hc => by cases hc⟩
      rw [Manager.lookup_applyLaunch, if_pos rfl] at he
      obtain ⟨e₀, -, rfl⟩ := Option.map_eq_some_iff.mp he
      rfl
  | saveLaunch s l hpc =>
      obtain rfl := Option.some.inj hn
      refine ⟨fun e he => ?_, fun c hc => by cases hc⟩
      have := h.1 e he
      rw [hpc] at this
      exact this
  | spawnSave id spec l => obtain rfl := Option.some.inj hn; exact h
  | _ => cases hn <;> exact trivial

/-- On a handle it does not work on, a task can only disarm or forget. -/
theorem entry_other (hm : Moves m os task m' next evs) (id : Handle)
    (hne : ∀ spec, task.owner ≠ some (id, spec)) :
    m'.procs.lookup id = m.procs.lookup id ∨
    (∃ e, m.procs.lookup id = some e ∧ m'.procs.lookup id = some { e with armed := false }) ∨
    (∃ e, m.procs.lookup id = some e ∧ e.status ≠ .running ∧ m'.procs.lookup id = none) := by
  have hentry := hm.entry id
  generalize hx : m.procs.lookup id = x at hentry ⊢
  generalize hy : m'.procs.lookup id = y at hentry ⊢
  cases hentry with
  | same => exact .inl rfl
  | insert spec l => exact absurd rfl (hne spec)
  | exit s code e hid => exact absurd (by rw [← hid]; rfl) (hne s.spec)
  | relaunch s code l e hid => exact absurd (by rw [← hid]; rfl) (hne s.spec)
  | disarm e => exact .inr (.inl ⟨e, rfl, rfl⟩)
  | forget e hr => exact .inr (.inr ⟨e, rfl, hr, rfl⟩)

theorem agrees_other (hm : Moves m os task m' next evs) {task' : Task}
    (h : task'.Agrees m.procs)
    (hne : ∀ id spec spec', task.owner = some (id, spec) → task'.owner ≠ some (id, spec')) :
    task'.Agrees m'.procs := by
  have key : ∀ id spec', task'.owner = some (id, spec') → _ := fun id spec' ho =>
    hm.entry_other id (fun spec hs => hne id spec spec' hs ho)
  cases task' with
  | spawnLaunch id spec | spawnInsert id spec l =>
      have h' : m.procs.lookup id = none := h
      rcases key id spec rfl with hk | ⟨e, he, -⟩ | ⟨e, he, -⟩
      · exact hk.trans h'
      · rw [h'] at he; cases he
      · rw [h'] at he; cases he
  | spawnSave id spec l | spawnReturn id spec l =>
      obtain ⟨e₀, he₀, hs⟩ := h
      rcases key id spec rfl with hk | ⟨e, he, hk⟩ | ⟨e, he, hr, -⟩
      · exact ⟨e₀, hk.trans he₀, hs⟩
      · obtain rfl := Option.some.inj (he₀.symm.trans he)
        exact ⟨_, hk, hs⟩
      · obtain rfl := Option.some.inj (he₀.symm.trans he)
        exact absurd hs hr
  | supervise s =>
      refine ⟨fun e he => ?_, h.2⟩
      rcases key s.id s.spec rfl with hk | ⟨e₀, he₀, hk⟩ | ⟨e₀, -, -, hk⟩
      · exact h.1 e (hk.symm.trans he)
      · obtain rfl := Option.some.inj (hk.symm.trans he)
        exact h.1 e₀ he₀
      · rw [hk] at he; cases he
  | _ => trivial

/-- A task lets go of its child only after the exit, and takes hold of what it launches. -/
theorem holds (hm : Moves m os task m' next evs) {n : LaunchId} {c : Child}
    (ht : task.holds = some n) (hc : m.children[n]? = some c) (halive : c.alive = true)
    {o : Handle × Spec} (ho : task.owner = some o) :
    ∃ task', next = some task' ∧ task'.owner = some o ∧ task'.holds = some n := by
  cases hm with
  | spawnInsert id spec l | spawnSave id spec l | spawnReturn id spec l =>
      exact ⟨_, rfl, ho, ht⟩
  | wait s code hpc hx =>
      -- the child of a task in `wait` that goes on has exited
      simp only [Task.holds, hpc, Option.some.injEq] at ht
      subst ht
      rw [hc] at hx
      simp only [Option.bind_some] at hx
      rw [Child.alive, hx] at halive
      cases halive
  | applyLaunch s code l hpc | saveLaunch s l hpc =>
      simp only [Task.holds, hpc] at ht
      exact ⟨_, rfl, ho, ht⟩
  | saveExit s _ hpc | removeLeaf s _ hpc | readArmed s _ hpc | finished s _ _ hpc
  | capHit s _ hpc | toBackoff s _ hpc | backoff s _ hpc | dropped s _ _ hpc
  | toRelaunch s _ hpc | relaunchFails s _ _ hpc | relaunches s _ _ _ hpc =>
      simp [Task.holds, hpc] at ht
  | _ => cases ht

theorem tracks (hm : Moves m os task m' next evs) (hA : task.Agrees m.procs)
    {h : Handle} {spec : Spec}
    (hT : ∀ n, task.owner = some (h, spec) → task.holds = some n → Tracks m task n h spec)
    {task' : Task} (hn : next = some task') (ho : task'.owner = some (h, spec)) {n : LaunchId}
    (hh : task'.holds = some n) : Tracks m' task' n h spec := by
  cases hm with
  | spawnLaunches id spec' _ l hl =>
      obtain rfl := Option.some.inj hn
      obtain ⟨rfl, rfl⟩ := Prod.mk.inj (Option.some.inj ho)
      obtain rfl := Option.some.inj hh
      obtain ⟨h1, h2⟩ := Manager.launchChild_some hl
      have hprocs := (Manager.launchChild_frame hl).1
      refine ⟨⟨id, spec', l.pid, none⟩, by rw [h2, h1]; simp, rfl, rfl, ?_, ?_⟩
      · intro l' hl'
        obtain rfl := Option.some.inj hl'
        rfl
      · intro e he
        have hnone : m.procs.lookup id = none := hA
        rw [hprocs, hnone] at he
        cases he
  | spawnInsert id spec' l =>
      obtain rfl := Option.some.inj hn
      obtain ⟨rfl, rfl⟩ := Prod.mk.inj (Option.some.inj ho)
      obtain ⟨c, hc, h1, h2, h3, -⟩ := hT n rfl hh
      refine ⟨c, hc, h1, h2, h3, ?_⟩
      intro e he _
      rw [Manager.lookup_insertEntry, if_pos rfl] at he
      obtain rfl := Option.some.inj he
      exact (h3 l rfl).symm
  | spawnSave id spec' l =>
      obtain rfl := Option.some.inj hn
      exact hT n ho hh
  | spawnReturn id spec' l =>
      obtain rfl := Option.some.inj hn
      obtain ⟨c, hc, h1, h2, -, h4⟩ := hT n ho hh
      exact ⟨c, hc, h1, h2, fun l' hl' => (by cases hl'), h4⟩
  | relaunches s code _ l hpc hl =>
      obtain rfl := Option.some.inj hn
      obtain ⟨rfl, rfl⟩ := Prod.mk.inj (Option.some.inj ho)
      obtain rfl := Option.some.inj hh
      obtain ⟨h1, h2⟩ := Manager.launchChild_some hl
      have hprocs := (Manager.launchChild_frame hl).1
      refine ⟨⟨s.id, s.spec, l.pid, none⟩, by rw [h2, h1]; simp, rfl, rfl, ?_, ?_⟩
      · intro l' hl'
        obtain rfl := Option.some.inj hl'
        rfl
      · -- the entry still shows the exit of the previous launch
        intro e he hr
        rw [hprocs] at he
        have := hA.1 e he
        rw [hpc, hr] at this
        cases this
  | applyLaunch s code l hpc =>
      obtain rfl := Option.some.inj hn
      obtain ⟨c, hc, h1, h2, h3, -⟩ := hT n ho (by simp only [Task.holds, hpc]; exact hh)
      have hpid : c.pid = l.pid := h3 l (by simp only [Task.launched, hpc])
      refine ⟨c, hc, h1, h2, fun l' hl' => by obtain rfl := Option.some.inj hl'; exact hpid, ?_⟩
      intro e he _
      obtain ⟨rfl, rfl⟩ := Prod.mk.inj (Option.some.inj ho)
      rw [Manager.lookup_applyLaunch, if_pos rfl] at he
      obtain ⟨e₀, -, rfl⟩ := Option.map_eq_some_iff.mp he
      exact hpid.symm
  | saveLaunch s l hpc =>
      obtain rfl := Option.some.inj hn
      obtain ⟨c, hc, h1, h2, -, h4⟩ := hT n ho (by simp only [Task.holds, hpc]; exact hh)
      exact ⟨c, hc, h1, h2, fun l' hl' => (by cases hl'), h4⟩
  | _ => cases hn <;> cases hh

theorem tracks_other (hm : Moves m os task m' next evs) {task' : Task} {n : LaunchId}
    {h : Handle} {spec : Spec} (hT : Tracks m task' n h spec)
    (hne : ∀ spec, task.owner ≠ some (h, spec)) : Tracks m' task' n h spec := by
  obtain ⟨c, hc, h1, h2, h3, h4⟩ := hT
  refine ⟨c, hm.children_get hc, h1, h2, h3, ?_⟩
  intro e he hr
  rcases hm.entry_other h hne with hk | ⟨e₀, he₀, hk⟩ | ⟨e₀, -, -, hk⟩
  · exact h4 e (hk.symm.trans he) hr
  · obtain rfl := Option.some.inj (hk.symm.trans he)
    exact h4 e₀ he₀ hr
  · rw [hk] at he; cases he

theorem spawnLaunch_next (hm : Moves m os task m' next evs) {id : Handle} {spec : Spec}
    (hn : next = some (.spawnLaunch id spec)) : id = m.next + 1 := by
  cases hm with
  | spawn _ => exact ((Task.spawnLaunch.inj (Option.some.inj hn)).1).symm
  | _ => cases hn

theorem spawnInsert_next (hm : Moves m os task m' next evs) {id : Handle} {spec : Spec}
    {l : Launched} (hn : next = some (.spawnInsert id spec l)) : task = .spawnLaunch id spec := by
  cases hm with
  | spawnLaunches _ _ _ _ _ =>
      obtain ⟨rfl, rfl, -⟩ := Task.spawnInsert.inj (Option.some.inj hn)
      rfl
  | _ => cases hn

end Moves

/-! ### The invariant is kept -/

theorem Call.task_owner (op : Call) : op.task.owner = none := by cases op <;> rfl

theorem Call.task_agrees (op : Call) (procs : Table Handle ProcEntry) :
    op.task.Agrees procs := by cases op <;> trivial

section
variable [Codec Record] {w : World}

omit [Codec Record] in
theorem inv_call (hI : Inv w) {t : ℕ} (ht : w.tasks t = none) (op : Call) :
    Inv ⟨w.mgr, Function.update w.tasks t (some op.task)⟩ := by
  -- the new task works on no handle, the old ones are in place
  have hold : ∀ t' task h spec, Function.update w.tasks t (some op.task) t' = some task →
      task.owner = some (h, spec) → w.tasks t' = some task := by
    intro t' task h spec ht' ho
    rw [Function.update_apply] at ht'
    split_ifs at ht' with heq
    · obtain rfl := Option.some.inj ht'
      rw [op.task_owner] at ho; cases ho
    · exact ht'
  refine ⟨hI.key_le, ?_, ?_, ?_, ?_, ?_⟩
  · intro t' task h spec ht' ho
    exact hI.owner_le t' task h spec (hold t' task h spec ht' ho) ho
  · intro t₁ t₂ task₁ task₂ h spec₁ spec₂ h₁ h₂ ho₁ ho₂
    exact hI.unique t₁ t₂ task₁ task₂ h spec₁ spec₂ (hold _ _ _ _ h₁ ho₁) (hold _ _ _ _ h₂ ho₂) ho₁ ho₂
  · intro t' task ht'
    simp only [Function.update_apply] at ht'
    split_ifs at ht' with heq
    · obtain rfl := Option.some.inj ht'
      exact op.task_agrees _
    · exact hI.agrees t' task ht'
  · intro n c hc halive
    obtain ⟨t', task, ht', ho, hh⟩ := hI.held n c hc halive
    have hne : t' ≠ t := by
      rintro rfl
      rw [ht] at ht'; cases ht'
    exact ⟨t', task, by simp only [Function.update_apply, if_neg hne]; exact ht', ho, hh⟩
  · intro t' task n h spec ht' ho hh
    exact hI.tracks t' task n h spec (hold t' task h spec ht' ho) ho hh

theorem inv_sched (hI : Inv w) {t : ℕ} {os : Os} {task : Task} {m' : Manager}
    {next : Option Task} {evs : List Event} (ht : w.tasks t = some task)
    (hm : Moves w.mgr os task m' next evs) : Inv ⟨m', Function.update w.tasks t next⟩ := by
  have hmono := hm.next_le
  -- the handle the successor works on is the acting task's own, or fresh
  have hnext : ∀ task' h spec, next = some task' → task'.owner = some (h, spec) →
      task.owner = some (h, spec) ∨ h = w.mgr.next + 1 ∧ m'.next = w.mgr.next + 1 := by
    intro task' h spec hn ho
    rcases hm.owner hn ho with ho' | ⟨spec', rfl, heq⟩
    · exact .inl ho'
    · cases hm
      exact .inr ⟨(Prod.mk.inj heq).1, rfl⟩
  refine ⟨?_, ?_, ?_, ?_, ?_, ?_⟩
  · intro h e he
    have hentry := hm.entry h
    rw [he] at hentry
    generalize hx : w.mgr.procs.lookup h = x at hentry
    cases hentry with
    | same => exact le_trans (hI.key_le h e hx) hmono
    | insert spec l => exact le_trans (hI.owner_le t _ h spec ht rfl) hmono
    | exit s code e₀ => exact le_trans (hI.key_le h e₀ hx) hmono
    | relaunch s code l e₀ => exact le_trans (hI.key_le h e₀ hx) hmono
    | disarm e₀ => exact le_trans (hI.key_le h e₀ hx) hmono
  · intro t' task' h spec ht' ho
    rcases tasks_update ht' with ⟨-, hn⟩ | ⟨-, ht'⟩
    · rcases hnext task' h spec hn ho with ho' | ⟨rfl, hx⟩
      · exact le_trans (hI.owner_le t task h spec ht ho') hmono
      · exact hx.ge
    · exact le_trans (hI.owner_le t' task' h spec ht' ho) hmono
  · intro t₁ t₂ task₁ task₂ h spec₁ spec₂ h₁ h₂ ho₁ ho₂
    rcases tasks_update h₁ with ⟨rfl, hn₁⟩ | ⟨-, g₁⟩ <;>
      rcases tasks_update h₂ with ⟨rfl, hn₂⟩ | ⟨-, g₂⟩
    · rfl
    · rcases hnext task₁ h spec₁ hn₁ ho₁ with ho' | ⟨rfl, -⟩
      · exact hI.unique _ _ _ _ h _ _ ht g₂ ho' ho₂
      · exact absurd (hI.owner_le _ _ _ _ g₂ ho₂) (by lia)
    · rcases hnext task₂ h spec₂ hn₂ ho₂ with ho' | ⟨rfl, -⟩
      · exact hI.unique _ _ _ _ h _ _ g₁ ht ho₁ ho'
      · exact absurd (hI.owner_le _ _ _ _ g₁ ho₁) (by lia)
    · exact hI.unique _ _ _ _ h _ _ g₁ g₂ ho₁ ho₂
  · intro t' task' ht'
    rcases tasks_update ht' with ⟨-, hn⟩ | ⟨hne, ht'⟩
    · exact hm.agrees (hI.agrees t task ht) hI.key_le hn
    · refine hm.agrees_other (hI.agrees t' task' ht') ?_
      intro id spec spec' ho ho'
      exact hne (hI.unique _ _ _ _ id _ _ ht' ht ho' ho)
  · intro n c hc halive
    rcases hm.children_eq with heq | ⟨id, spec, pid, l, heq, hl, hp, hlaunch⟩
    · rw [heq] at hc
      obtain ⟨t', task', ht', ho, hh⟩ := hI.held n c hc halive
      by_cases hne : t' = t
      · subst hne
        obtain rfl := Option.some.inj (ht.symm.trans ht')
        obtain ⟨task'', hn, ho', hh'⟩ := hm.holds hh hc halive ho
        exact ⟨t', task'', by simp only [Function.update_self]; exact hn, ho', hh'⟩
      · exact ⟨t', task', by simp only [Function.update_apply, if_neg hne]; exact ht', ho, hh⟩
    · rw [heq] at hc
      rcases Nat.lt_or_ge n w.mgr.children.length with hlt | hge
      · rw [List.getElem?_append_left hlt] at hc
        obtain ⟨t', task', ht', ho, hh⟩ := hI.held n c hc halive
        -- the launching task held nothing
        have hne : t' ≠ t := by
          rintro rfl
          obtain rfl := Option.some.inj (ht.symm.trans ht')
          rcases hlaunch with ⟨rfl, -⟩ | ⟨s, code, rfl, hpc, -⟩
          · cases hh
          · simp [Task.holds, hpc] at hh
        exact ⟨t', task', by simp only [Function.update_apply, if_neg hne]; exact ht', ho, hh⟩
      · rw [List.getElem?_append_right hge] at hc
        have hn : n = w.mgr.children.length := by
          by_contra hne
          rw [List.getElem?_eq_none (by simp only [List.length_singleton]; lia)] at hc
          cases hc
        subst hn
        simp only [Nat.sub_self, List.getElem?_cons_zero, Option.some.injEq] at hc
        subst hc
        rcases hlaunch with ⟨rfl, rfl⟩ | ⟨s, code, rfl, hpc, rfl, rfl, rfl⟩
        · exact ⟨t, _, Function.update_self .., rfl, by rw [← hl]; rfl⟩
        · exact ⟨t, _, Function.update_self .., rfl, by rw [← hl]; rfl⟩
  · intro t' task' n h spec ht' ho hh
    rcases tasks_update ht' with ⟨-, hn⟩ | ⟨hne, ht'⟩
    · refine hm.tracks (hI.agrees t task ht) ?_ hn ho hh
      intro k hk hh'
      exact hI.tracks t task k h spec ht hk hh'
    · refine hm.tracks_other (hI.tracks t' task' n h spec ht' ho hh) ?_
      intro spec' ho'
      exact hne (hI.unique _ _ _ _ h _ _ ht' ht ho ho')

omit [Codec Record] in
theorem inv_exit (hI : Inv w) (n : LaunchId) (code : Option ℤ) :
    Inv { w with mgr := w.mgr.exitChild n code } := by
  refine ⟨hI.key_le, hI.owner_le, hI.unique, hI.agrees, ?_, ?_⟩
  · intro k c hc halive
    simp only [Manager.exitChild, List.getElem?_modify] at hc
    obtain ⟨c₀, hc₀, rfl⟩ := Option.map_eq_some_iff.mp hc
    by_cases hk : n = k
    · simp [hk, Child.alive] at halive
    · simp only [hk, if_false] at halive ⊢
      exact hI.held k c₀ hc₀ halive
  · intro t task k h spec ht ho hh
    obtain ⟨c, hc, h1, h2, h3, h4⟩ := hI.tracks t task k h spec ht ho hh
    refine ⟨if n = k then { c with exit := some code } else c, ?_, ?_⟩
    · simp only [Manager.exitChild, List.getElem?_modify, hc]
      split_ifs <;> rfl
    · split_ifs <;> exact ⟨h1, h2, h3, h4⟩

theorem inv_step {w' : World} {a : Action} {evs : List Event} (hs : step w a = some (w', evs))
    (hI : Inv w) : Inv w' := by
  rcases step_moves hs with ⟨t, op, -, ht, -, rfl⟩ | ⟨t, os, task, m', next, -, ht, hm, rfl⟩ |
    ⟨n, code, c, -, -, -, -, rfl⟩
  · exact inv_call hI ht op
  · exact inv_sched hI ht hm
  · exact inv_exit hI n code

/-- **The invariant holds along every run.** -/
theorem inv_run {w₀ : World} {l : List (Lts.Tr World Action Event)} (h₀ : Initial w₀)
    (hr : Lts.Run step w₀ l w) : Inv w ∧ ∀ tr ∈ l, Inv tr.pre :=
  hr.invariant (inv_initial h₀) (fun _ hv hI => inv_step hv hI)

end

/-! ### Handles that are taken -/

/-- `h` has been handed out, and no `spawn` is about to insert it. -/
structure Taken (h : Handle) (w : World) : Prop where
  le : h ≤ w.mgr.next
  spawn : ∀ t spec, w.tasks t ≠ some (.spawnLaunch h spec)
  insert : ∀ t spec l, w.tasks t ≠ some (.spawnInsert h spec l)

theorem Taken.of_entry {h : Handle} {w : World} (hI : Inv w) {e : ProcEntry}
    (he : w.mgr.procs.lookup h = some e) : Taken h w := by
  refine ⟨hI.key_le h e he, ?_, ?_⟩
  · intro t spec ht
    have : w.mgr.procs.lookup h = none := hI.agrees t _ ht
    rw [he] at this; cases this
  · intro t spec l ht
    have : w.mgr.procs.lookup h = none := hI.agrees t _ ht
    rw [he] at this; cases this

section
variable [Codec Record] {h : Handle} {w w' : World} {a : Action} {evs : List Event}

/-- A handle that is taken stays so. -/
theorem Taken.keep (ht : Taken h w) (hs : step w a = some (w', evs)) : Taken h w' := by
  refine ⟨le_trans ht.le (step_next_le hs), ?_, ?_⟩
  · intro t spec ht'
    rcases task_origin hs ht' with ho | ⟨op, hop⟩ | ⟨os, task, -, ho, hm, -⟩
    · exact ht.spawn t spec ho
    · cases op <;> cases hop
    · have := hm.spawnLaunch_next rfl
      have := ht.le
      lia
  · intro t spec l ht'
    rcases task_origin hs ht' with ho | ⟨op, hop⟩ | ⟨os, task, -, ho, hm, -⟩
    · exact ht.insert t spec l ho
    · cases op <;> cases hop
    · exact ht.spawn t spec (by rw [ho, hm.spawnInsert_next rfl])

/-- An entry that was removed is never inserted again. -/
theorem Taken.stays_none (ht : Taken h w) (hn : w.mgr.procs.lookup h = none)
    (hs : step w a = some (w', evs)) : w'.mgr.procs.lookup h = none := by
  rcases step_entry hs h with heq | ⟨t, os, task, -, htask, hentry⟩
  · exact heq.trans hn
  · rw [hn] at hentry
    generalize w'.mgr.procs.lookup h = y at hentry
    cases hentry with
    | same => rfl
    | insert spec l => exact absurd htask (ht.insert t spec l)

end

end MeshSupervisor
