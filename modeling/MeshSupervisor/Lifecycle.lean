import MeshSupervisor.Ownership

/-! # The lifecycle of a table entry

`LifeStep` is the automaton of one handle: which change of its entry a transition may
make, given the transitions before it.  `Lifecycle` collects what a whole run does to one
handle: every change follows the automaton, reloaded entries stand still, `restarts`
counts the relaunches, and a removed handle does not come back.  `lifecycle` shows it for
every run of the step-by-step interleaving.

Two invariants tie a `supervise` task to its handle: the task of a spawned entry carries
the specification the handle was inserted with (`Inserted`), and the handles tasks work on
are above the counter the run started with, so that a reloaded entry has none
(`lifecycle_tasks`). -/

namespace MeshSupervisor

open Wire (Codec)

/-! ### The automaton -/

/-- The table entry of a handle. -/
def World.entry (w : World) (h : Handle) : Option ProcEntry := w.mgr.procs.lookup h

/-- `spawn` inserted `h` with this specification. -/
def Inserted (h : Handle) (spec : Spec) (l : List (Lts.Tr World Action Event)) : Prop :=
  ∃ tr ∈ l, ∃ la, actor tr = some (.spawnInsert h spec la)

/-- How the entry of `h` may change in the transition `tr`, after the transitions `past`. -/
inductive LifeStep (h : Handle) (past : List (Lts.Tr World Action Event))
    (tr : Lts.Tr World Action Event) : Option ProcEntry → Option ProcEntry → Prop
  | same (e : Option ProcEntry) : LifeStep h past tr e e
  | spawn (spec : Spec) (la : Launched) : actor tr = some (.spawnInsert h spec la) →
      LifeStep h past tr none (some ⟨la.pid, .running, some la.stdin, some la.stdout, 0, true⟩)
  | exit (e : ProcEntry) (code : Option ℤ) : e.status = .running →
      LifeStep h past tr (some e) (some { e with status := .exited code })
  | restart (e : ProcEntry) (code : Option ℤ) (spec : Spec) (la : Launched) :
      e.status = .exited code → Inserted h spec past → shouldRestart spec.policy code = true →
      LifeStep h past tr (some e) (some { e with
        pid := la.pid
        status := .running
        stdin := some la.stdin
        stdout := some la.stdout
        restarts := e.restarts + 1 })
  | stop (e : ProcEntry) : LifeStep h past tr (some e) (some { e with armed := false })
  | forget (e : ProcEntry) : actor tr = some (.forget h) → e.status ≠ .running →
      LifeStep h past tr (some e) none

def reruns : Option ProcEntry → Option ProcEntry → Bool
  | some ⟨_, .exited _, _, _, _, _⟩, some ⟨_, .running, _, _, _, _⟩ => true
  | _, _ => false

def restarted (h : Handle) (tr : Lts.Tr World Action Event) : Bool :=
  reruns (tr.pre.entry h) (tr.post.entry h)

theorem LifeStep.restarts {h : Handle} {past : List (Lts.Tr World Action Event)}
    {tr : Lts.Tr World Action Event} {x : Option ProcEntry} {e' : ProcEntry}
    (hl : LifeStep h past tr x (some e')) :
    (∃ spec la, actor tr = some (.spawnInsert h spec la) ∧ x = none ∧ e'.restarts = 0) ∨
      ∃ e, x = some e ∧ e'.restarts = e.restarts + if reruns x (some e') then 1 else 0 := by
  cases hl with
  | same =>
      refine .inr ⟨e', rfl, ?_⟩
      obtain ⟨pid, status, stdin, stdout, n, armed⟩ := e'
      cases status <;> rfl
  | spawn spec la hact => exact .inl ⟨spec, la, hact, rfl, rfl⟩
  | exit e code hst =>
      obtain ⟨pid, status, stdin, stdout, n, armed⟩ := e
      obtain rfl : status = .running := hst
      exact .inr ⟨_, rfl, rfl⟩
  | restart e code spec la hst =>
      obtain ⟨pid, status, stdin, stdout, n, armed⟩ := e
      obtain rfl : status = .exited code := hst
      exact .inr ⟨_, rfl, rfl⟩
  | stop e =>
      refine .inr ⟨e, rfl, ?_⟩
      obtain ⟨pid, status, stdin, stdout, n, armed⟩ := e
      cases status <;> rfl

/-- What a run from `w₀` to `w` does to the entry of `h`. -/
structure Lifecycle (h : Handle) (w₀ w : World) (l : List (Lts.Tr World Action Event)) : Prop where
  /-- An entry that is there at the start is a tombstone. -/
  reload : ∀ e, w₀.entry h = some e →
    (e.status = .stale ∨ ∃ code, e.status = .exited code) ∧ e.armed = false ∧ e.restarts = 0
  change : ∀ l₁ tr l₂, l = l₁ ++ tr :: l₂ → LifeStep h l₁ tr (tr.pre.entry h) (tr.post.entry h)
  /-- `spawn` never overwrites an entry. -/
  absent : ∀ tr ∈ l, ∀ spec la, actor tr = some (.spawnInsert h spec la) → tr.pre.entry h = none
  armed : ∀ tr ∈ l, ∀ e e', tr.pre.entry h = some e → tr.post.entry h = some e' →
    e.armed = false → e'.armed = false
  restarts : ∀ e, w.entry h = some e → e.restarts = l.countP (restarted h)
  frozen : ∀ e₀, w₀.entry h = some e₀ → ∀ e, w.entry h = some e →
    e.status = e₀.status ∧ e.pid = e₀.pid ∧ e.restarts = e₀.restarts
  final : ∀ l₁ tr l₂, l = l₁ ++ tr :: l₂ → (tr.pre.entry h).isSome = true →
    tr.post.entry h = none → ∀ tr' ∈ l₂, tr'.post.entry h = none

/-! ### The tasks behind the entries -/

/-- The task has inserted its handle. -/
def Task.inserted : Task → Bool
  | .spawnSave _ _ _ | .spawnReturn _ _ _ | .supervise _ => true
  | _ => false

section
variable [Codec Record] {w₀ w w' : World} {l : List (Lts.Tr World Action Event)} {a : Action}
  {evs : List Event}

theorem Moves.inserted_next {m m' : Manager} {os : Os} {task task' : Task} {next : Option Task}
    (hm : Moves m os task m' next evs) (hn : next = some task') (hi : task'.inserted = true)
    {o : Handle × Spec} (ho : task'.owner = some o) :
    (task.inserted = true ∧ task.owner = some o) ∨ ∃ la, task = .spawnInsert o.1 o.2 la := by
  cases hm with
  | spawnInsert id spec la =>
      obtain rfl := Option.some.inj hn
      obtain rfl := Option.some.inj ho
      exact .inr ⟨la, rfl⟩
  | _ => first
      | (cases hn; exact .inl ⟨rfl, ho⟩)
      | (cases hn; done)
      | (cases hn; cases hi)

theorem lifecycle_tasks (h₀ : Initial w₀) (hr : Lts.Run step w₀ l w) :
    ∀ t task h spec, w.tasks t = some task → task.owner = some (h, spec) →
      w₀.mgr.next < h ∧ (task.inserted = true → Inserted h spec l) := by
  have hnext : ∀ {l w}, Lts.Run step w₀ l w → w₀.mgr.next ≤ w.mgr.next := fun hr =>
    (hr.invariant (I := fun w => w₀.mgr.next ≤ w.mgr.next) le_rfl
      (fun tr hv h => le_trans h (step_next_le hv))).1
  induction hr with
  | nil =>
      intro t task h spec ht
      rw [h₀.idle.1 t] at ht
      cases ht
  | @snoc l w w' a evs hr hs ih =>
      intro t task' h spec ht' ho
      have hmono : ∀ {spec}, Inserted h spec l → Inserted h spec (l ++ [⟨w, a, evs, w'⟩]) := by
        rintro spec ⟨tr, htr, hact⟩
        exact ⟨tr, List.mem_append_left _ htr, hact⟩
      rcases task_origin hs ht' with ht | ⟨op, rfl⟩ | ⟨os, task, rfl, ht, hm, -⟩
      · obtain ⟨h1, h2⟩ := ih t task' h spec ht ho
        exact ⟨h1, fun hi => hmono (h2 hi)⟩
      · rw [op.task_owner] at ho; cases ho
      · refine ⟨?_, ?_⟩
        · rcases hm.owner rfl ho with ho' | ⟨spec', -, heq⟩
          · exact (ih t task h spec ht ho').1
          · have := hnext hr
            have := (Prod.mk.inj heq).1
            lia
        · intro hi
          rcases hm.inserted_next rfl hi ho with ⟨hi', ho'⟩ | ⟨la, rfl⟩
          · exact hmono ((ih t task h spec ht ho').2 hi')
          · exact ⟨_, List.mem_append_right _ (List.mem_singleton.mpr rfl), la, ht⟩

/-! ### Runs follow the automaton -/

/-- One transition after a run follows the automaton. -/
theorem lifeStep (h₀ : Initial w₀) (hr : Lts.Run step w₀ l w) (hs : step w a = some (w', evs))
    (h : Handle) : LifeStep h l ⟨w, a, evs, w'⟩ (w.entry h) (w'.entry h) := by
  have hI := (inv_run h₀ hr).1
  rcases step_entry hs h with heq | ⟨t, os, task, rfl, ht, hentry⟩
  · simp only [World.entry, heq]
    exact .same _
  · have hact : actor ⟨w, .sched t os, evs, w'⟩ = some task := ht
    unfold World.entry
    generalize hx : w.mgr.procs.lookup h = x at hentry
    generalize w'.mgr.procs.lookup h = y at hentry
    cases hentry with
    | same => exact .same _
    | insert spec la =>
        have : w.mgr.procs.lookup h = none := hI.agrees t _ ht
        obtain rfl := hx.symm.trans this
        exact .spawn spec la hact
    | exit s code e hid hpc =>
        subst hid
        have := (hI.agrees t _ ht).1 e hx
        rw [hpc] at this
        exact .exit e code this
    | relaunch s code la e hid hpc =>
        subst hid
        obtain ⟨h1, h2⟩ := hI.agrees t _ ht
        rw [hpc] at h1 h2
        exact .restart e code s.spec la (h1 e hx)
          ((lifecycle_tasks h₀ hr t _ s.id s.spec ht rfl).2 rfl) (h2 code rfl rfl)
    | disarm e => exact .stop e
    | forget e hrun => exact .forget e hact hrun

theorem restarts_count (h₀ : Initial w₀) (h : Handle) (hr : Lts.Run step w₀ l w) :
    (∀ e, w.entry h = some e → e.restarts = l.countP (restarted h)) ∧
      (¬ Taken h w → l.countP (restarted h) = 0) := by
  induction hr with
  | nil =>
      refine ⟨?_, fun _ => rfl⟩
      intro e he
      obtain ⟨r, rfl⟩ := h₀.idle.2.2 h e he
      rfl
  | @snoc l w w' a evs hr hs ih =>
      have hI := (inv_run h₀ hr).1
      rw [List.countP_append, List.countP_singleton]
      refine ⟨?_, ?_⟩
      · intro e' he'
        have hlife := lifeStep h₀ hr hs h
        rw [he'] at hlife
        simp only [restarted, he']
        rcases hlife.restarts with ⟨spec, la, hact, hnone, hzero⟩ | ⟨e, he, hcount⟩
        · -- the handle was not taken before
          have hnot : ¬ Taken h w := by
            intro htaken
            cases a with
            | sched t os => exact htaken.insert t spec la hact
            | _ => cases hact
          rw [ih.2 hnot, hzero, hnone]
          rfl
        · rw [hcount, ih.1 e he]
      · intro hnot
        have hnot' : ¬ Taken h w := fun htaken => hnot (htaken.keep hs)
        have hnone : w.entry h = none := by
          cases he : w.entry h with
          | none => rfl
          | some e => exact absurd (Taken.of_entry hI he) hnot'
        rw [ih.2 hnot', restarted, hnone]
        rfl

theorem reloaded_frozen (h₀ : Initial w₀) (hr : Lts.Run step w₀ l w) {h : Handle}
    {e₀ : ProcEntry} (he₀ : w₀.entry h = some e₀) :
    ∀ e, w.entry h = some e →
      e.status = e₀.status ∧ e.pid = e₀.pid ∧ e.restarts = e₀.restarts := by
  have hle : h ≤ w₀.mgr.next := (inv_initial h₀).key_le h e₀ he₀
  induction hr with
  | nil =>
      intro e he
      obtain rfl := Option.some.inj (he₀.symm.trans he)
      exact ⟨rfl, rfl, rfl⟩
  | @snoc l w w' a evs hr hs ih =>
      intro e' he'
      -- no task works on the handle
      have hfree : ∀ t task spec, w.tasks t = some task → task.owner ≠ some (h, spec) := by
        intro t task spec ht ho
        have := (lifecycle_tasks h₀ hr t task h spec ht ho).1
        lia
      rcases step_entry hs h with heq | ⟨t, os, task, rfl, ht, hentry⟩
      · exact ih e' (heq.symm.trans he')
      · have he'' : w'.mgr.procs.lookup h = some e' := he'
        rw [he''] at hentry
        generalize hx : w.mgr.procs.lookup h = x at hentry
        cases hentry with
        | same => exact ih e' hx
        | insert spec la => exact absurd rfl (hfree t _ spec ht)
        | exit s code e hid => exact absurd (by rw [← hid]; rfl) (hfree t _ s.spec ht)
        | relaunch s code la e hid => exact absurd (by rw [← hid]; rfl) (hfree t _ s.spec ht)
        | disarm e => exact ih e hx

/-- **The lifecycle of every handle, along every run.** -/
theorem lifecycle (h₀ : Initial w₀) (hr : Lts.Run step w₀ l w) (h : Handle) :
    Lifecycle h w₀ w l := by
  have hchange : ∀ l₁ tr l₂, l = l₁ ++ tr :: l₂ →
      LifeStep h l₁ tr (tr.pre.entry h) (tr.post.entry h) := by
    rintro l₁ tr l₂ rfl
    obtain ⟨hr₁, hv, -⟩ := hr.split rfl
    exact lifeStep h₀ hr₁ hv h
  refine ⟨?_, hchange, ?_, ?_, (restarts_count h₀ h hr).1, ?_, ?_⟩
  · intro e he
    obtain ⟨r, rfl⟩ := h₀.idle.2.2 h e he
    refine ⟨?_, rfl, rfl⟩
    cases hst : r.status with
    | running => exact .inl (by simp [ProcEntry.stale, hst, reloaded])
    | exited code => exact .inr ⟨code, by simp [ProcEntry.stale, hst, reloaded]⟩
    | stale => exact .inl (by simp [ProcEntry.stale, hst, reloaded])
  · intro tr htr spec la hact
    have hI := (inv_run h₀ hr).2 tr htr
    cases ha : tr.act with
    | sched t os =>
        rw [actor, ha] at hact
        exact hI.agrees t _ hact
    | _ => rw [actor, ha] at hact; cases hact
  · intro tr htr e e' he he' harm
    obtain ⟨l₁, l₂, rfl⟩ := List.append_of_mem htr
    have hlife := hchange l₁ tr l₂ rfl
    rw [he, he'] at hlife
    cases hlife <;> first | exact harm | rfl
  · intro e₀ he₀ e he
    exact reloaded_frozen h₀ hr he₀ e he
  · rintro l₁ tr l₂ rfl hsome hnone
    obtain ⟨hr₁, hv, htail⟩ := hr.split rfl
    obtain ⟨e, he⟩ := Option.isSome_iff_exists.mp hsome
    have htaken := (Taken.of_entry (inv_run h₀ hr₁).1 he).keep hv
    have hnever := htail.never (Q := fun w => Taken h w ∧ w.entry h = none)
      (B := fun tr => tr.post.entry h ≠ none) ⟨htaken, hnone⟩
      (fun tr hv hq => by
        have hpost := hq.1.stays_none hq.2 hv
        exact ⟨⟨hq.1.keep hv, hpost⟩, not_not.mpr hpost⟩)
    intro tr' htr'
    exact not_not.mp (hnever.2 tr' htr')

end

def relaunchRun : List Action :=
  [.call 0 (.spawn { cmd := "sleep", policy := .always }), .sched 0 {},
    .sched 0 { spawn := some 100 }, .sched 0 {}, .sched 0 {}, .sched 0 {}, .exit 0 (some 1)] ++
  List.replicate 7 (.sched 0 {}) ++ [.sched 0 { spawn := some 101 }, .sched 0 {}]

theorem lifecycle_relaunch : ∃ l w, Lts.Run (@step recordCodec) (World.start .new) l w ∧
    (w.entry 2).map ProcEntry.restarts = some 1 ∧ Lifecycle 2 (World.start .new) w l := by
  obtain ⟨l, w, hr, hp⟩ := Lts.run_of_exec (@step recordCodec) (World.start .new)
    relaunchRun (fun p => decide ((p.2.entry 2).map ProcEntry.restarts = some 1))
    (by decide)
  exact ⟨l, w, hr, of_decide_eq_true hp, @lifecycle recordCodec _ _ _ (.inl rfl) hr 2⟩

end MeshSupervisor
