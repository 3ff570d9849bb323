import MeshSupervisor.Lifecycle
import MeshSupervisor.Finality

/-! # Which child an escalation hits

`stop` starts a `terminate` task that keeps a pid over the stop deadline and then looks only
at the status of the handle.  `Pinned` is what a `stop` that found the child running leaves
behind: nothing will be launched for the handle, and whoever still waits for a child of it
waits for that one.

* `recorded_run` and `watched_run` tie the recorded exits and the running entries to the
  tasks: no task waits for a child whose exit is recorded, and for the child of every running
  entry some task waits.
* `escalation_pinned`: after such a `stop` the entry keeps its pid and its restarts, and
  when the escalation finds it running, the exit of the stopped child is not recorded. -/

namespace MeshSupervisor

open Wire (Codec)

/-! ### Who waits for which child -/

namespace Moves

variable [Codec Record] {m m' : Manager} {os : Os} {task : Task} {next : Option Task}
  {evs : List Event}

theorem holds_next (hm : Moves m os task m' next evs) {task' : Task} (hn : next = some task')
    {n : LaunchId} (hh : task'.holds = some n) :
    task.holds = some n ∨ n = m.children.length ∧
      ((∃ id spec, task = .spawnLaunch id spec) ∨
        ∃ s code, task = .supervise s ∧ s.pc = .relaunch code) := by
  cases hm with
  | spawnLaunches id spec _ l hl =>
      obtain rfl := Option.some.inj hn
      obtain ⟨hl', -⟩ := Manager.launchChild_some hl
      rw [hl'] at hh
      exact .inr ⟨(Option.some.inj hh).symm, .inl ⟨id, spec, rfl⟩⟩
  | relaunches s code _ l hpc hl =>
      obtain rfl := Option.some.inj hn
      obtain ⟨hl', -⟩ := Manager.launchChild_some hl
      rw [hl'] at hh
      exact .inr ⟨(Option.some.inj hh).symm, .inr ⟨s, code, rfl, hpc⟩⟩
  | applyLaunch s code l hpc | saveLaunch s l hpc =>
      obtain rfl := Option.some.inj hn
      refine .inl ?_
      simp only [Task.holds, hpc]
      exact hh
  | spawnInsert | spawnSave | spawnReturn =>
      obtain rfl := Option.some.inj hn
      exact .inl hh
  | _ => cases hn <;> cases hh

theorem holds_owner (hm : Moves m os task m' next evs) {n : LaunchId} (hh : task.holds = some n)
    {o : Handle × Spec} (ho : task.owner = some o) :
    ∃ task', next = some task' ∧ task'.owner = some o := by
  cases hm with
  | spawnInsert | spawnSave | spawnReturn => exact ⟨_, rfl, ho⟩
  | wait | applyLaunch | saveLaunch => exact ⟨_, rfl, ho⟩
  | saveExit s _ hpc | removeLeaf s _ hpc | readArmed s _ hpc | finished s _ _ hpc
  | capHit s _ hpc | toBackoff s _ hpc | backoff s _ hpc | dropped s _ _ hpc
  | toRelaunch s _ hpc | relaunchFails s _ _ hpc | relaunches s _ _ _ hpc =>
      simp [Task.holds, hpc] at hh
  | _ => cases hh

/-- The exit that is recorded is that of the child the task waited for. -/
theorem exitRecorded_mem (hm : Moves m os task m' next evs) {id : Handle} {n : LaunchId}
    {code : Option ℤ} (h : .exitRecorded id n code ∈ evs) :
    ∃ s, task = .supervise s ∧ s.id = id ∧ s.pc = .wait ∧ s.child = n ∧
      next = some (.supervise { s with pc := .saveExit code }) := by
  cases hm with
  | wait s code' hpc hx =>
      split_ifs at h
      · simp only [List.mem_singleton, Event.exitRecorded.injEq] at h
        obtain ⟨rfl, rfl, rfl⟩ := h
        exact ⟨s, rfl, rfl, hpc, rfl, rfl⟩
      · cases h
  | terminateForce id pid => split_ifs at h <;> simp at h
  | _ => simp at h

end Moves

theorem Task.holds_of_running {task : Task} {procs : Table Handle ProcEntry}
    (hA : task.Agrees procs) {h : Handle} {spec : Spec} (ho : task.owner = some (h, spec))
    {e : ProcEntry} (he : procs.lookup h = some e) (hr : e.status = .running) :
    ∃ n, task.holds = some n := by
  cases task with
  | spawnLaunch id spec' =>
      obtain ⟨rfl, -⟩ := Prod.mk.inj (Option.some.inj ho)
      have hnone : procs.lookup id = none := hA
      rw [hnone] at he
      cases he
  | spawnInsert id spec' l | spawnSave id spec' l | spawnReturn id spec' l => exact ⟨l.child, rfl⟩
  | supervise s =>
      obtain ⟨rfl, -⟩ := Prod.mk.inj (Option.some.inj ho)
      rcases Task.Agrees.pc_of_running hA he hr with hpc | ⟨l, hpc⟩
      · exact ⟨s.child, by simp only [Task.holds, hpc]⟩
      · exact ⟨l.child, by simp only [Task.holds, hpc]⟩
  | _ => cases ho

section
variable [Codec Record] {id : Handle} {w₀ w w' : World} {l : List (Lts.Tr World Action Event)}
  {a : Action} {evs : List Event}

theorem children_length_le (hs : step w a = some (w', evs)) :
    w.mgr.children.length ≤ w'.mgr.children.length := by
  rcases step_moves hs with ⟨t, op, -, -, -, rfl⟩ | ⟨t, os, task, m', next, -, -, hm, rfl⟩ |
    ⟨n, code, c, -, -, -, -, rfl⟩
  · exact le_rfl
  · rcases hm.children_eq with heq | ⟨_, _, _, _, heq, -⟩
    · exact heq.symm ▸ le_rfl
    · rw [heq, List.length_append]
      exact Nat.le_add_right _ _
  · simp [Manager.exitChild]

/-- No task waits for a child whose exit is recorded. -/
theorem recorded_run (h₀ : Initial w₀) (hr : Lts.Run step w₀ l w) :
    ∀ id n code, .exitRecorded id n code ∈ Lts.events l →
      n < w.mgr.children.length ∧ ∀ t task, w.tasks t = some task → task.holds ≠ some n := by
  induction hr with
  | nil =>
      intro id n code h
      cases h
  | @snoc l w w' a evs hr hs ih =>
      intro id n code h
      have hI := (inv_run h₀ hr).1
      have hlen := children_length_le hs
      simp only [Lts.events_append, Lts.events_cons, Lts.events_nil, List.append_nil,
        List.mem_append] at h
      rcases h with h | h
      · obtain ⟨hlt, hnone⟩ := ih id n code h
        refine ⟨lt_of_lt_of_le hlt hlen, ?_⟩
        intro t task ht hh
        rcases task_origin hs ht with ht | ⟨op, rfl⟩ | ⟨os, task₀, -, ht₀, hm, -⟩
        · exact hnone t task ht hh
        · cases op <;> cases hh
        · rcases hm.holds_next rfl hh with hh' | ⟨rfl, -⟩
          · exact hnone t task₀ ht₀ hh'
          · exact absurd hlt (lt_irrefl _)
      · rcases step_moves hs with ⟨t, op, -, -, rfl, -⟩ | ⟨t, os, task, m', next, rfl, ht, hm, rfl⟩ |
          ⟨_, _, _, -, -, -, rfl, -⟩
        · cases h
        · obtain ⟨s, rfl, rfl, hpc, rfl, rfl⟩ := hm.exitRecorded_mem h
          have hholds : (Task.supervise s).holds = some s.child := by simp only [Task.holds, hpc]
          obtain ⟨c, hc, hh, -⟩ := hI.tracks t _ s.child s.id s.spec ht rfl hholds
          refine ⟨lt_of_lt_of_le (List.getElem?_eq_some_iff.mp hc).1 hlen, ?_⟩
          intro t' task' ht' hh'
          rcases tasks_update ht' with ⟨-, hn⟩ | ⟨hne, ht'⟩
          · obtain rfl := Option.some.inj hn
            cases hh'
          · -- two tasks that wait for one child work on its handle
            cases ho' : task'.owner with
            | none => cases task' <;> first | cases hh' | cases ho'
            | some o =>
                obtain ⟨c', hc', hh'', -⟩ := hI.tracks t' task' s.child o.1 o.2 ht' ho' hh'
                obtain rfl := Option.some.inj (hc.symm.trans hc')
                exact hne (hI.unique t' t task' _ o.1 o.2 s.spec ht' ht ho' (by rw [← hh'', hh]; rfl))
        · cases h

/-- Some task works on the handle of every running entry. -/
def Watched (w : World) : Prop :=
  ∀ h e, w.mgr.procs.lookup h = some e → e.status = .running →
    ∃ t task spec, w.tasks t = some task ∧ task.owner = some (h, spec)

theorem Watched.keep (h : Watched w) (hI : Inv w) (hs : step w a = some (w', evs)) : Watched w' := by
  intro id e' he' hr'
  -- the task of an entry that was running goes on
  have hstays : ∀ e, w.mgr.procs.lookup id = some e → e.status = .running →
      ∃ t task spec, w'.tasks t = some task ∧ task.owner = some (id, spec) := by
    intro e he hr
    obtain ⟨t, task, spec, ht, ho⟩ := h id e he hr
    rcases step_tasks hs ht with ht' | ⟨os, rfl⟩
    · exact ⟨t, task, spec, ht', ho⟩
    · obtain ⟨m', next, hm, rfl⟩ := step_of_task hs ht
      obtain ⟨n, hh⟩ := Task.holds_of_running (hI.agrees t task ht) ho he hr
      obtain ⟨task', rfl, ho'⟩ := hm.holds_owner hh ho
      exact ⟨t, task', spec, Function.update_self .., ho'⟩
  rcases step_moves hs with ⟨t', op, rfl, hnone, -, rfl⟩ | ⟨t', os, task', m', next, rfl, ht', hm, rfl⟩ |
    ⟨n, code, c, -, -, -, -, rfl⟩
  · exact hstays e' he' hr'
  · have hentry := hm.entry id
    have he'' : m'.procs.lookup id = some e' := he'
    rw [he''] at hentry
    generalize hx : w.mgr.procs.lookup id = x at hentry
    cases hentry with
    | same => exact hstays e' hx hr'
    | insert spec l =>
        cases hm
        exact ⟨t', _, spec, Function.update_self .., rfl⟩
    | exit s code e hid hpc => cases hr'
    | relaunch s code l e hid hpc =>
        obtain ⟨task'', rfl, ho⟩ := hm.holds_owner (n := l.child) (by simp only [Task.holds, hpc]) rfl
        exact ⟨t', task'', s.spec, Function.update_self .., by rw [ho, hid]⟩
    | disarm e => exact hstays e hx hr'
  · exact hstays e' he' hr'

theorem watched_run (h₀ : Initial w₀) (hr : Lts.Run step w₀ l w) : Watched w := by
  have hboth := hr.invariant (I := fun w => Inv w ∧ Watched w) ⟨inv_initial h₀, ?_⟩
    (fun _ hv h => ⟨inv_step hv h.1, h.2.keep h.1 hv⟩)
  · exact hboth.1.2
  · intro h e he hrun
    obtain ⟨r, rfl⟩ := h₀.idle.2.2 h e he
    cases hst : r.status <;> simp [ProcEntry.stale, hst, reloaded] at hrun

end

/-! ### A stop that found the child running -/

/-- The task will not launch: it does not look at `armed` any more with a relaunch in mind. -/
def SupPc.settled : SupPc → Bool
  | .wait | .saveLaunch _ | .saveExit _ | .removeLeaf _ | .readArmed _ => true
  | .readShutdown _ armed => !armed
  | _ => false

/-- The entry of `id` keeps this pid and these restarts, and only the child of launch `n` is
still waited for. -/
structure Pinned (id : Handle) (pid : Pid) (restarts : ℕ) (n : LaunchId) (w : World) : Prop where
  disarmed : Disarmed id w
  settled : ∀ t s, w.tasks t = some (.supervise s) → s.id = id → s.pc.settled = true
  entry : ∀ e, w.mgr.procs.lookup id = some e → e.pid = pid ∧ e.restarts = restarts
  child : ∀ t task spec k, w.tasks t = some task → task.owner = some (id, spec) →
    task.holds = some k → k = n

section
variable [Codec Record] {id : Handle} {pid : Pid} {restarts : ℕ} {n : LaunchId}
  {w₀ w w' : World} {l : List (Lts.Tr World Action Event)} {a : Action} {evs : List Event}

/-- A settled `supervise` task stays so as long as its handle is disarmed. -/
theorem Moves.settled_next {m m' : Manager} {os : Os} {task : Task} {next : Option Task}
    (hm : Moves m os task m' next evs) {s' : Sup} (hn : next = some (.supervise s')) :
    (∃ spec l, task = .spawnReturn s'.id spec l ∧ s'.pc = .wait) ∨
      ∃ s, task = .supervise s ∧ s.id = s'.id ∧
        (s.pc.settled = true → m.isArmed s.id = false → s'.pc.settled = true) := by
  cases hm with
  | spawnReturn id spec l =>
      obtain rfl := Task.supervise.inj (Option.some.inj hn)
      exact .inl ⟨spec, l, rfl, rfl⟩
  | wait s | saveExit s | removeLeaf s | saveLaunch s | applyLaunch s =>
      obtain rfl := Task.supervise.inj (Option.some.inj hn)
      exact .inr ⟨s, rfl, rfl, fun _ _ => rfl⟩
  | readArmed s code hpc =>
      obtain rfl := Task.supervise.inj (Option.some.inj hn)
      refine .inr ⟨s, rfl, rfl, ?_⟩
      intro _ harmed
      simp only [SupPc.settled, harmed, Bool.not_false]
  | toBackoff s _ hpc | backoff s _ hpc | toRelaunch s _ hpc | relaunches s _ _ _ hpc =>
      obtain rfl := Task.supervise.inj (Option.some.inj hn)
      refine .inr ⟨s, rfl, rfl, ?_⟩
      intro hset
      rw [hpc] at hset
      cases hset
  | _ => cases hn

theorem Pinned.keep (h : Pinned id pid restarts n w) (hs : step w a = some (w', evs)) :
    Pinned id pid restarts n w' := by
  refine ⟨h.disarmed.keep hs, ?_, ?_, ?_⟩
  · intro t s' ht' hid
    rcases task_origin hs ht' with ht | ⟨op, hop⟩ | ⟨os, task, -, ht, hm, -⟩
    · exact h.settled t s' ht hid
    · cases op <;> cases hop
    · rcases hm.settled_next rfl with ⟨spec, la, -, hpc⟩ | ⟨s, rfl, hs', hkeep⟩
      · rw [hpc]
        rfl
      · refine hkeep (h.settled t s ht (hs'.trans hid)) ?_
        rw [hs'.trans hid]
        exact Bool.eq_false_iff.mpr h.disarmed.isArmed
  · intro e' he'
    rcases step_entry hs id with heq | ⟨t, os, task, -, ht, hentry⟩
    · exact h.entry e' (heq.symm.trans he')
    · rw [he'] at hentry
      generalize hx : w.mgr.procs.lookup id = x at hentry
      cases hentry with
      | same => exact h.entry e' hx
      | insert spec la => exact absurd ht (h.disarmed.taken.insert t spec la)
      | exit s code e => exact h.entry e hx
      | relaunch s code la e hid hpc =>
          have hset := h.settled t s ht hid
          rw [hpc] at hset
          cases hset
      | disarm e => exact h.entry e hx
  · intro t task' spec k ht' ho' hh'
    rcases task_origin hs ht' with ht | ⟨op, rfl⟩ | ⟨os, task, -, ht, hm, -⟩
    · exact h.child t task' spec k ht ho' hh'
    · cases op <;> cases hh'
    · have howner := hm.owner rfl ho'
      rcases hm.holds_next rfl hh' with hh | ⟨-, ⟨id', spec', rfl⟩ | ⟨s, code, rfl, hpc⟩⟩
      · rcases howner with ho | ⟨spec', rfl, -⟩
        · exact h.child t task spec k ht ho hh
        · cases hh
      · rcases howner with ho | ⟨_, hx, -⟩
        · obtain ⟨rfl, -⟩ := Prod.mk.inj (Option.some.inj ho)
          exact absurd ht (h.disarmed.taken.spawn t spec')
        · cases hx
      · rcases howner with ho | ⟨_, hx, -⟩
        · have hset := h.settled t s ht (Prod.mk.inj (Option.some.inj ho)).1
          rw [hpc] at hset
          cases hset
        · cases hx

omit [Codec Record] in
/-- What a `stop` that finds the child running leaves behind. -/
theorem Pinned.of_stop (hI : Inv w) (hW : Watched w) (t : ℕ) {e : ProcEntry}
    (he : w.mgr.procs.lookup id = some e) (hr : e.status = .running) {m' : Manager}
    {pid' : Option Pid} (hd : w.mgr.disarm id = .ok (m', pid')) :
    ∃ n c, w.mgr.children[n]? = some c ∧ c.handle = id ∧ c.pid = e.pid ∧
      (∃ t' task spec, w.tasks t' = some task ∧ task.owner = some (id, spec) ∧ task.holds = some n) ∧
      Pinned id e.pid e.restarts n ⟨m', Function.update w.tasks t (some (.stopReturn id pid'))⟩ := by
  obtain ⟨t₀, task₀, spec₀, ht₀, ho₀⟩ := hW id e he hr
  have hA := hI.agrees t₀ task₀ ht₀
  obtain ⟨n, hh₀⟩ := Task.holds_of_running hA ho₀ he hr
  obtain ⟨c, hc, hhandle, -, -, hpid⟩ := hI.tracks t₀ task₀ n id spec₀ ht₀ ho₀ hh₀
  refine ⟨n, c, hc, hhandle, (hpid e he hr).symm, ⟨t₀, task₀, spec₀, ht₀, ho₀, hh₀⟩, ?_⟩
  -- a `supervise` task of a running entry waits or is about to
  have hsup : ∀ t s, w.tasks t = some (.supervise s) → s.id = id →
      s.pc.settled = true ∧ s.pc.due = false := by
    intro t s ht hid
    subst hid
    rcases (hI.agrees t _ ht).pc_of_running he hr with hpc | ⟨l, hpc⟩
    · rw [hpc]
      exact ⟨rfl, rfl⟩
    · rw [hpc]
      exact ⟨rfl, rfl⟩
  have hclear : ¬ LaunchDue w id := by
    rintro ⟨t, s, code, ht, hid, hpc⟩
    have hdue := (hsup t s ht hid).2
    rcases hpc with hpc | ⟨hpc, -⟩ <;> rw [hpc] at hdue <;> cases hdue
  have hold : ∀ t' task, Function.update w.tasks t (some (.stopReturn id pid')) t' = some task →
      task = .stopReturn id pid' ∨ w.tasks t' = some task := by
    intro t' task ht'
    rcases tasks_update ht' with ⟨-, hn⟩ | ⟨-, ht'⟩
    · exact .inl (Option.some.inj hn).symm
    · exact .inr ht'
  refine ⟨.of_disarm hI t hd hclear, ?_, ?_, ?_⟩
  · intro t' s ht' hid
    rcases hold t' _ ht' with hx | ht'
    · cases hx
    · exact (hsup t' s ht' hid).1
  · intro e' he'
    obtain ⟨e₁, he₁, rfl, -⟩ := Manager.disarm_ok hd
    rw [Table.lookup_modify, if_pos rfl, he] at he'
    obtain rfl := Option.some.inj he'
    exact ⟨rfl, rfl⟩
  · intro t' task spec k ht' ho hh
    rcases hold t' _ ht' with rfl | ht'
    · cases ho
    · obtain rfl := hI.unique t' t₀ task task₀ id spec spec₀ ht' ht₀ ho ho₀
      obtain rfl := Option.some.inj (ht'.symm.trans ht₀)
      exact Option.some.inj (hh.symm.trans hh₀)

/-- A `stop` that finds its handle running goes on to its `terminate`. -/
theorem Moves.stop_running {m m' : Manager} {os : Os} {next : Option Task}
    (hm : Moves m os (.stop id) m' next evs) {e : ProcEntry} (he : m.procs.lookup id = some e)
    (hr : e.status = .running) :
    m.disarm id = .ok (m', some e.pid) ∧ next = some (.stopReturn id (some e.pid)) ∧ evs = [] := by
  cases hm with
  | stopFails _ _ hd =>
      simp only [Manager.disarm, he] at hd
      cases hd
  | stop _ _ pid hd =>
      obtain ⟨e₁, he₁, -, hpid⟩ := Manager.disarm_ok hd
      obtain rfl := Option.some.inj (he.symm.trans he₁)
      rw [if_pos (ProcState.isRunning_iff.mpr hr)] at hpid
      subst hpid
      exact ⟨hd, rfl, rfl⟩

/-- **The escalation hits the child that was stopped.**  When `stop` finds the child of launch
`n` running, the entry keeps its pid and its restarts from then on, nothing is launched for
the handle, and whenever the `terminate` task finds the entry running, the exit of that child
is not recorded. -/
theorem escalation_pinned (h₀ : Initial w₀) {l₁ l₂ : List (Lts.Tr World Action Event)}
    {tr : Lts.Tr World Action Event} (hr : Lts.Run step w₀ (l₁ ++ tr :: l₂) w)
    (hact : actor tr = some (.stop id)) {e : ProcEntry} (he : tr.pre.entry id = some e)
    (hrun : e.status = .running) :
    ∃ t os n c, tr.act = .sched t os ∧ tr.post.tasks t = some (.stopReturn id (some e.pid)) ∧
      tr.pre.mgr.children[n]? = some c ∧ c.handle = id ∧ c.pid = e.pid ∧
      (∀ tr' ∈ tr :: l₂, ∀ e', tr'.post.entry id = some e' →
        e'.pid = e.pid ∧ e'.restarts = e.restarts) ∧
      (∀ tr' ∈ tr :: l₂, ∀ r, .launchChild id r ∉ tr'.evs) ∧
      ∀ l₃ tr' l₄, l₂ = l₃ ++ tr' :: l₄ → actor tr' = some (.terminateSleep id e.pid) →
        tr'.pre.mgr.isRunning id = true →
        (∃ e', tr'.pre.entry id = some e' ∧ e'.pid = e.pid) ∧
          ∀ code, .exitRecorded id n code ∉ Lts.events (l₁ ++ tr :: l₃) := by
  obtain ⟨hr₁, hv, hr₂⟩ := hr.split rfl
  obtain ⟨pre, a, evs, post⟩ := tr
  have hv' : step pre a = some (post, evs) := hv
  have hI := (inv_run h₀ hr₁).1
  obtain ⟨t, os, m', next, rfl, ht, hm, rfl⟩ := step_of_actor hv' hact
  obtain ⟨hd, rfl, rfl⟩ := hm.stop_running he hrun
  obtain ⟨n, c, hc, hh, hp, -, hpin⟩ := Pinned.of_stop hI (watched_run h₀ hr₁) t he hrun hd
  have hpinned : ∀ {l₃ w'}, Lts.Run step _ l₃ w' → Pinned id e.pid e.restarts n w' := fun hr' =>
    (hr'.invariant (I := Pinned id e.pid e.restarts n) hpin (fun _ hv h => h.keep hv)).1
  refine ⟨t, os, n, c, rfl, Function.update_self .., hc, hh, hp, ?_, ?_, ?_⟩
  · intro tr' htr' e' he''
    rcases List.mem_cons.mp htr' with rfl | htr'
    · exact hpin.entry e' he''
    · obtain ⟨l₃, l₄, rfl, hr₃, hv₃, -⟩ := hr₂.mem_split htr'
      exact ((hpinned hr₃).keep hv₃).entry e' he''
  · intro tr' htr' r hlaunch
    rcases List.mem_cons.mp htr' with rfl | htr'
    · cases hlaunch
    · obtain ⟨l₃, l₄, rfl, hr₃, hv₃, -⟩ := hr₂.mem_split htr'
      exact (hpinned hr₃).disarmed.no_launch hv₃ r hlaunch
  · rintro l₃ tr' l₄ rfl - hrunning
    obtain ⟨hr₃, -, -⟩ := hr₂.split rfl
    have hpin₃ := hpinned hr₃
    have hwhole := (hr₁.append (Lts.Run.cons hv' hr₃))
    obtain ⟨e', he'', hrun'⟩ := Manager.isRunning_iff.mp hrunning
    refine ⟨⟨e', he'', (hpin₃.entry e' he'').1⟩, ?_⟩
    intro code hrec
    obtain ⟨t', task', spec, ht', ho'⟩ := watched_run h₀ hwhole id e' he'' hrun'
    obtain ⟨k, hh'⟩ := Task.holds_of_running ((inv_run h₀ hwhole).1.agrees t' task' ht') ho' he'' hrun'
    obtain rfl := hpin₃.child t' task' spec k ht' ho' hh'
    exact (recorded_run h₀ hwhole id k code hrec).2 t' task' ht' hh'

end

/-- Handle 2 is stopped while it runs, and its child ignores SIGTERM. -/
theorem escalation_pinned_forced : ∃ l₁ tr l₂ w,
    Lts.Run (@step recordCodec) (World.start .new) (l₁ ++ tr :: l₂) w ∧
    actor tr = some (.stop 2) ∧ (∃ tr' ∈ tr :: l₂, .killGroup 100 sigKill ∈ tr'.evs) ∧
    ∀ tr' ∈ tr :: l₂, ∀ e', tr'.post.entry 2 = some e' → e'.pid = 100 ∧ e'.restarts = 0 := by
  obtain ⟨l, w, hr, hp⟩ := Lts.run_of_exec (@step recordCodec) (World.start .new)
    (spawnTwo ++ [.call 1 (.stop 2), .sched 1 {}, .sched 1 {}, .sched 1 {}, .sched 1 {}, .sched 1 {}])
    (fun p => (p.1.drop 7).any (fun tr => decide (.killGroup 100 sigKill ∈ tr.evs)) &&
      (p.1[7]?).any (fun tr => decide (actor tr = some (.stop 2) ∧
        tr.pre.entry 2 = some ⟨100, .running, some 0, some 0, 0, true⟩))) (by decide)
  rw [Bool.and_eq_true] at hp
  obtain ⟨hforced, hstop⟩ := hp
  obtain ⟨tr', htr', hkill⟩ := List.any_eq_true.mp hforced
  obtain ⟨tr, htr, hact⟩ := (Option.any_eq_true _ _).mp hstop
  rw [decide_eq_true_eq] at hact
  obtain ⟨hlt, rfl⟩ := List.getElem?_eq_some_iff.mp htr
  have hdrop := List.drop_eq_getElem_cons hlt
  rw [← List.take_append_drop 7 l, hdrop] at hr
  rw [hdrop] at htr'
  obtain ⟨t, os, n, c, -, -, -, -, -, hpin, -⟩ :=
    @escalation_pinned recordCodec 2 _ _ (.inl rfl) _ _ _ hr hact.1 _ hact.2 rfl
  exact ⟨_, _, _, w, hr, hact.1, ⟨tr', htr', of_decide_eq_true hkill⟩, hpin⟩

end MeshSupervisor
