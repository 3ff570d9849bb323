import MeshSupervisor.Ownership

/-! # Stop and forget are final, up to one window

`supervise` looks at `armed` a last time after the backoff sleep, then at the shutdown
flag, and launches later, outside the lock.  `LaunchDue` is the window between that last
look and the launch.

* `stop_final`: along every run in which no `stop` of the handle finds its entry inside the
  window, nothing is launched for the handle once `stop` has returned; and from every
  state in which a `stop` is about to run inside the window, a launch after its return is
  possible.
* `forget_final`: the same for `forget`, whose window also covers the time between the
  launch and the table update (`LaunchOpen`).
* `stop_races_relaunch` and `forget_races_relaunch` are runs through the window. -/

namespace MeshSupervisor

open Wire (Codec)

/-! ### The window -/

/-- The `supervise` task of `id` has taken its last look at `armed`, and its launch is still
to come. -/
def LaunchDue (w : World) (id : Handle) : Prop :=
  ∃ t s code, w.tasks t = some (.supervise s) ∧ s.id = id ∧
    (s.pc = .relaunch code ∨ s.pc = .rereadShutdown code true ∧ w.mgr.shutdown = false)

/-- `LaunchDue`, or a launch has been made that the table does not show yet: its child is
alive, or its record is still to be written. -/
def LaunchOpen (w : World) (id : Handle) : Prop :=
  LaunchDue w id ∨
    ∃ t s code l, w.tasks t = some (.supervise s) ∧ s.id = id ∧ s.pc = .applyLaunch code l ∧
      (w.mgr.store.isSome = true ∨ ∃ c, w.mgr.children[l.child]? = some c ∧ c.alive = true)

/-- A `stop` of `id` that finds the entry does not run inside the window. -/
def StopClear (id : Handle) (tr : Lts.Tr World Action Event) : Prop :=
  actor tr = some (.stop id) → (tr.pre.mgr.procs.lookup id).isSome = true → ¬ LaunchDue tr.pre id

/-- A `forget` of `id` that finds the entry does not run inside the window. -/
def ForgetClear (id : Handle) (tr : Lts.Tr World Action Event) : Prop :=
  actor tr = some (.forget id) → (tr.pre.mgr.procs.lookup id).isSome = true →
    ¬ LaunchOpen tr.pre id

/-- After `stop id` has returned `Ok`, nothing is launched for `id`. -/
def StopFinal (id : Handle) (l : List (Lts.Tr World Action Event)) : Prop :=
  ∀ l₁ tr l₂, l = l₁ ++ tr :: l₂ → .stopped id (.ok ()) ∈ tr.evs →
    ∀ tr' ∈ l₂, ∀ r, .launchChild id r ∉ tr'.evs

/-- Nothing is left of `id`: no live child, no entry, no record. -/
structure Gone (id : Handle) (w : World) : Prop where
  child : ∀ (n : LaunchId) (c : Child), w.mgr.children[n]? = some c → c.handle = id →
    c.alive = false
  entry : w.mgr.procs.lookup id = none
  record : ∀ st, w.mgr.store = some st → id ∉ st.records

/-- After `forget id` has returned `Ok`, nothing is left of `id` and nothing is launched
for it. -/
def ForgetFinal (id : Handle) (l : List (Lts.Tr World Action Event)) : Prop :=
  ∀ l₁ tr l₂, l = l₁ ++ tr :: l₂ → .forgotten id (.ok ()) ∈ tr.evs → Gone id tr.post ∧
    ∀ tr' ∈ l₂, Gone id tr'.post ∧ ∀ r, .launchChild id r ∉ tr'.evs

/-! ### Concrete runs -/

def restartSpec : Spec := { cmd := "sleep", policy := .always }

def spawnTwo : List Action :=
  [.call 0 (.spawn restartSpec), .sched 0 {}, .sched 0 { spawn := some 100 }, .sched 0 {},
    .sched 0 {}, .sched 0 {}]

/-- The child exits and the `supervise` task goes on up to its launch, inside the window. -/
def intoWindow : List Action := spawnTwo ++ .exit 0 (some 1) :: List.replicate 7 (.sched 0 {})

/-- The handle is stopped while it runs and forgotten after its `supervise` task has ended. -/
def outsideWindow : List Action :=
  spawnTwo ++ [.call 1 (.stop 2), .sched 1 {}, .sched 1 {}, .exit 0 (some 1)] ++
    List.replicate 5 (.sched 0 {}) ++ [.call 2 (.forget 2), .sched 2 {}, .sched 2 {}]

/-- No task of the first `n` slots is between its last look at `armed` and the table update. -/
def clearOf (n : ℕ) (w : World) : Bool :=
  (List.range n).all (fun t =>
    match w.tasks t with
    | some (.supervise s) =>
        match s.pc with
        | .relaunch _ | .rereadShutdown _ true | .applyLaunch _ _ => false
        | _ => true
    | _ => true)

theorem not_launchOpen {n : ℕ} {w : World} (hc : clearOf n w = true)
    (hfree : ∀ t, n ≤ t → w.tasks t = none) (id : Handle) : ¬ LaunchOpen w id := by
  have key : ∀ t s, w.tasks t = some (.supervise s) → t < n := by
    intro t s ht
    by_contra hge
    rw [hfree t (by lia)] at ht
    cases ht
  have hslot : ∀ t s, w.tasks t = some (.supervise s) → (∀ c, s.pc ≠ .relaunch c) ∧
      (∀ c, s.pc ≠ .rereadShutdown c true) ∧ ∀ c l, s.pc ≠ .applyLaunch c l := by
    intro t s ht
    have := List.all_eq_true.mp hc t (List.mem_range.mpr (key t s ht))
    simp only [ht] at this
    refine ⟨?_, ?_, ?_⟩
    · intro c hpc; rw [hpc] at this; cases this
    · intro c hpc; rw [hpc] at this; cases this
    · intro c l hpc; rw [hpc] at this; cases this
  rintro (⟨t, s, code, ht, -, hpc⟩ | ⟨t, s, code, l, ht, -, hpc, -⟩)
  · rcases hpc with hpc | ⟨hpc, -⟩
    · exact (hslot t s ht).1 code hpc
    · exact (hslot t s ht).2.1 code hpc
  · exact (hslot t s ht).2.2 code l hpc

/-- The calls of a run take only the first `n` slots, and every state it leaves is clear. -/
def clearRun (n : ℕ) (l : List (Lts.Tr World Action Event)) : Bool :=
  l.all (fun tr => clearOf n tr.pre &&
    match tr.act with
    | .call t _ => decide (t < n)
    | _ => true)

theorem clearRun_spec [Codec Record] {n : ℕ} {m : Manager} {l : List (Lts.Tr World Action Event)}
    {w : World} (hr : Lts.Run step (World.start m) l w) (hc : clearRun n l = true) :
    ∀ tr ∈ l, ∀ id, ¬ LaunchOpen tr.pre id := by
  have hall := List.all_eq_true.mp hc
  have hfree : ∀ tr ∈ l, ∀ t, n ≤ t → tr.pre.tasks t = none := by
    refine (hr.guarded (I := fun w => ∀ t, n ≤ t → w.tasks t = none)
      (G := fun tr => ∀ t op, tr.act = .call t op → t < n) (fun _ _ => rfl) ?_ ?_).2
    · intro tr htr t op hact
      have := hall tr htr
      rw [hact, Bool.and_eq_true] at this
      exact of_decide_eq_true this.2
    · intro tr hv hI hG t ht
      cases hpost : tr.post.tasks t with
      | none => rfl
      | some task' =>
          rcases step_moves hv with ⟨t', op, ha, -, -, heq⟩ | ⟨t', _, _, _, _, -, ht', -, heq⟩ |
            ⟨_, _, _, -, -, -, -, heq⟩ <;> rw [heq] at hpost
          · rcases tasks_update hpost with ⟨rfl, -⟩ | ⟨-, h⟩
            · exact absurd (hG t op ha) (by lia)
            · rw [hI t ht] at h; cases h
          · rcases tasks_update hpost with ⟨rfl, -⟩ | ⟨-, h⟩
            · rw [hI t ht] at ht'; cases ht'
            · rw [hI t ht] at h; cases h
          · rw [← hpost]; exact hI t ht
  intro tr htr id
  have := hall tr htr
  rw [Bool.and_eq_true] at this
  exact not_launchOpen this.1 (hfree tr htr) id

/-! ### The two looks at `armed` -/

namespace Moves

variable [Codec Record] {m m' : Manager} {os : Os} {task : Task} {next : Option Task}
  {evs : List Event}

theorem from_reread (hm : Moves m os task m' next evs) {s' : Sup} {code : Option ℤ}
    (hn : next = some (.supervise s')) (hpc : s'.pc = .relaunch code) :
    ∃ s, task = .supervise s ∧ s.id = s'.id ∧ s.pc = .rereadShutdown code true ∧
      m.shutdown = false := by
  cases hm with
  | toRelaunch s _ h hs =>
      obtain rfl := Task.supervise.inj (Option.some.inj hn)
      obtain rfl := SupPc.relaunch.inj hpc
      exact ⟨s, rfl, rfl, h, hs⟩
  | _ => cases hn <;> cases hpc

theorem from_backoff (hm : Moves m os task m' next evs) {s' : Sup} {code : Option ℤ}
    (hn : next = some (.supervise s')) (hpc : s'.pc = .rereadShutdown code true) :
    ∃ s, task = .supervise s ∧ s.id = s'.id ∧ s.pc = .backoff code ∧
      m.isArmed s.id = true := by
  cases hm with
  | backoff s _ h =>
      obtain rfl := Task.supervise.inj (Option.some.inj hn)
      obtain ⟨rfl, ha⟩ := SupPc.rereadShutdown.inj hpc
      exact ⟨s, rfl, rfl, h, ha⟩
  | _ => cases hn <;> cases hpc

theorem stopReturn_next (hm : Moves m os task m' next evs) {id : Handle} {pid : Option Pid}
    (hn : next = some (.stopReturn id pid)) : task = .stop id ∧ m.disarm id = .ok (m', pid) := by
  cases hm with
  | stop _ _ _ hd =>
      obtain ⟨rfl, rfl⟩ := Task.stopReturn.inj (Option.some.inj hn)
      exact ⟨rfl, hd⟩
  | _ => cases hn

theorem forgetStore_next (hm : Moves m os task m' next evs) {id : Handle}
    (hn : next = some (.forgetStore id)) : task = .forget id ∧ m.removeEntry id = .ok m' := by
  cases hm with
  | forget _ _ hr =>
      obtain rfl := Task.forgetStore.inj (Option.some.inj hn)
      exact ⟨rfl, hr⟩
  | _ => cases hn

end Moves

/-! ### A stopped handle stays stopped -/

/-- `id` is disarmed and nobody is about to launch for it. -/
structure Disarmed (id : Handle) (w : World) : Prop where
  taken : Taken id w
  armed : ∀ e, w.mgr.procs.lookup id = some e → e.armed = false
  launch : ¬ LaunchDue w id

section
variable [Codec Record] {id : Handle} {w : World}

omit [Codec Record] in
theorem Disarmed.isArmed (h : Disarmed id w) : w.mgr.isArmed id ≠ true := by
  intro ha
  obtain ⟨e, he, ha⟩ := Manager.isArmed_iff.mp ha
  rw [h.armed e he] at ha
  cases ha

theorem Disarmed.keep (h : Disarmed id w) {a : Action} {w' : World} {evs : List Event}
    (hs : step w a = some (w', evs)) : Disarmed id w' := by
  refine ⟨h.taken.keep hs, ?_, ?_⟩
  · intro e he
    rcases step_entry hs id with heq | ⟨t, os, task, -, ht, hentry⟩
    · exact h.armed e (heq.symm.trans he)
    · rw [he] at hentry
      generalize hx : w.mgr.procs.lookup id = x at hentry
      cases hentry with
      | same => exact h.armed e hx
      | insert spec l => exact absurd ht (h.taken.insert t spec l)
      | exit s code e₀ => exact h.armed e₀ hx
      | relaunch s code l e₀ => exact h.armed e₀ hx
      | disarm e₀ => rfl
  · rintro ⟨t, s', code, ht', hid, hpc⟩
    rcases task_origin hs ht' with ht | ⟨op, hop⟩ | ⟨os, task, -, ht, hm, -⟩
    · refine h.launch ⟨t, s', code, ht, hid, ?_⟩
      rcases hpc with hpc | ⟨hpc, hsd⟩
      · exact .inl hpc
      · refine .inr ⟨hpc, ?_⟩
        cases hx : w.mgr.shutdown with
        | false => rfl
        | true => rw [step_shutdown_mono hs hx] at hsd; cases hsd
    · cases op <;> cases hop
    · rcases hpc with hpc | ⟨hpc, -⟩
      · obtain ⟨s, rfl, hs', hpc', hsd⟩ := hm.from_reread rfl hpc
        exact h.launch ⟨t, s, code, ht, hs'.trans hid, .inr ⟨hpc', hsd⟩⟩
      · obtain ⟨s, rfl, hs', -, ha⟩ := hm.from_backoff rfl hpc
        rw [hs'.trans hid] at ha
        exact h.isArmed ha

theorem Disarmed.no_launch (h : Disarmed id w) {a : Action} {w' : World} {evs : List Event}
    (hs : step w a = some (w', evs)) (r : Option Launched) : .launchChild id r ∉ evs := by
  intro hr
  rcases step_acts hs with ⟨t, os, task, next, -, ht, hm⟩ | ⟨-, -, -, -, rfl⟩
  · rcases hm.launchChild_mem hr with ⟨spec, rfl⟩ | ⟨s, code, rfl, hid, hpc⟩
    · exact h.taken.spawn t spec ht
    · exact h.launch ⟨t, s, code, ht, hid, .inl hpc⟩
  · cases hr

omit [Codec Record] in
/-- The section of a `stop` outside the window disarms the handle. -/
theorem Disarmed.of_disarm (hI : Inv w) (t : ℕ) {m' : Manager} {pid : Option Pid}
    (hd : w.mgr.disarm id = .ok (m', pid)) (hclear : ¬ LaunchDue w id) :
    Disarmed id ⟨m', Function.update w.tasks t (some (.stopReturn id pid))⟩ := by
  obtain ⟨e, he, rfl, -⟩ := Manager.disarm_ok hd
  have hpre : ∀ t' task, Function.update w.tasks t (some (.stopReturn id pid)) t' = some task →
      task = .stopReturn id pid ∨ w.tasks t' = some task := by
    intro t' task ht'
    rcases tasks_update ht' with ⟨-, hn⟩ | ⟨-, ht'⟩
    · exact .inl (Option.some.inj hn).symm
    · exact .inr ht'
  have htaken := Taken.of_entry hI he
  refine ⟨⟨htaken.le, ?_, ?_⟩, ?_, ?_⟩
  · intro t' spec ht'
    rcases hpre t' _ ht' with hx | ht'
    · cases hx
    · exact htaken.spawn t' spec ht'
  · intro t' spec l ht'
    rcases hpre t' _ ht' with hx | ht'
    · cases hx
    · exact htaken.insert t' spec l ht'
  · intro e' he'
    rw [Table.lookup_modify, if_pos rfl, he] at he'
    obtain rfl := Option.some.inj he'
    rfl
  · rintro ⟨t', s, code, ht', hrest⟩
    rcases hpre t' _ ht' with hx | ht'
    · cases hx
    · exact hclear ⟨t', s, code, ht', hrest⟩

/-- Whoever is about to return from `stop id` left the handle disarmed. -/
def StopSettled (id : Handle) (w : World) : Prop :=
  Inv w ∧ ∀ t pid, w.tasks t = some (.stopReturn id pid) → Disarmed id w

theorem StopSettled.keep {tr : Lts.Tr World Action Event} (hv : tr.Valid step)
    (h : StopSettled id tr.pre) (hclear : StopClear id tr) : StopSettled id tr.post := by
  refine ⟨inv_step hv h.1, ?_⟩
  intro t pid ht'
  rcases task_origin hv ht' with ht | ⟨op, hop⟩ | ⟨os, task, ha, ht, hm, hw⟩
  · exact (h.2 t pid ht).keep hv
  · cases op <;> cases hop
  · obtain ⟨rfl, hd⟩ := hm.stopReturn_next rfl
    obtain ⟨e, he, -⟩ := Manager.disarm_ok hd
    have hact : actor tr = some (.stop id) := by simp only [actor, ha, ht]
    rw [hw]
    exact .of_disarm h.1 t hd (hclear hact (by rw [he]; rfl))

omit [Codec Record] in
/-- A step of another task that leaves the shutdown flag alone keeps the window open. -/
theorem LaunchDue.other (h : LaunchDue w id) {t : ℕ} (ht : ∀ s, w.tasks t ≠ some (.supervise s))
    {m' : Manager} (hs : m'.shutdown = w.mgr.shutdown) (next : Option Task) :
    LaunchDue ⟨m', Function.update w.tasks t next⟩ id := by
  obtain ⟨t', s, code, ht', hid, hpc⟩ := h
  have hne : t' ≠ t := by
    rintro rfl
    exact ht s ht'
  refine ⟨t', s, code, by simp only [Function.update_apply, if_neg hne]; exact ht', hid, ?_⟩
  rw [← hs] at hpc
  exact hpc

/-- Inside the window the launch can follow. -/
theorem LaunchDue.launches (h : LaunchDue w id) :
    ∃ l w', Lts.Run step w l w' ∧ ∃ tr ∈ l, ∃ r, .launchChild id r ∈ tr.evs := by
  obtain ⟨t, s, code, ht, rfl, hpc⟩ := h
  have hrelaunch : ∀ (w : World) (s : Sup), w.tasks t = some (.supervise s) →
      s.pc = .relaunch code → ∃ w' evs, step w (.sched t { spawn := some 1 }) = some (w', evs) ∧
        ∃ r, .launchChild s.id r ∈ evs := by
    intro w s ht hpc
    refine ⟨_, _, step_sched _ ?_ ht ?_, ?_⟩
    · exact ((w.mgr.launchChild s.id s.spec { spawn := some 1 }).1,
        some (.supervise { s with pc := .applyLaunch code ⟨w.mgr.children.length, 1,
          w.mgr.children.length, w.mgr.children.length⟩ }),
        [.launchChild s.id (some ⟨w.mgr.children.length, 1,
          w.mgr.children.length, w.mgr.children.length⟩)])
    · simp only [advance, Sup.advance, hpc]
      rfl
    · exact ⟨_, List.mem_singleton.mpr rfl⟩
  rcases hpc with hpc | ⟨hpc, hs⟩
  · obtain ⟨w', evs, hstep, hr⟩ := hrelaunch w s ht hpc
    exact ⟨_, w', Lts.Run.single hstep, _, List.mem_singleton.mpr rfl, hr⟩
  · have hadv : advance w.mgr {} (.supervise s) =
        some (w.mgr, some (.supervise { s with pc := .relaunch code }), []) := by
      simp [advance, Sup.advance, hpc, hs]
    obtain ⟨w', evs, hstep, hr⟩ :=
      hrelaunch ⟨w.mgr, Function.update w.tasks t (some (.supervise { s with pc := .relaunch code }))⟩
        { s with pc := .relaunch code } (Function.update_self ..) rfl
    exact ⟨_, w', Lts.Run.cons (step_sched {} _ ht hadv) (Lts.Run.single hstep), _,
      List.mem_cons_of_mem _ (List.mem_singleton.mpr rfl), hr⟩

theorem stop_returns {t : ℕ} (ht : w.tasks t = some (.stop id)) {e : ProcEntry}
    (he : w.mgr.procs.lookup id = some e) :
    ∃ tr₁ tr₂ m' next, Lts.Run step w [tr₁, tr₂] ⟨m', Function.update w.tasks t next⟩ ∧
      .stopped id (.ok ()) ∈ tr₂.evs ∧ m'.shutdown = w.mgr.shutdown := by
  obtain ⟨⟨m', pid⟩, hd⟩ : ∃ r, w.mgr.disarm id = .ok r := by
    simp only [Manager.disarm, he]
    exact ⟨_, rfl⟩
  have h₁ := step_sched {} (m', some (.stopReturn id pid), []) ht
    (by simp only [advance, hd])
  have h₂ := step_sched (w := ⟨m', Function.update w.tasks t (some (.stopReturn id pid))⟩) (t := t)
    {} (m', pid.map (Task.terminate id), [.stopped id (.ok ())])
    (Function.update_self ..) rfl
  have hrun := Lts.Run.cons h₁ (Lts.Run.single h₂)
  simp only [Function.update_idem] at hrun
  refine ⟨_, _, m', _, hrun, List.mem_singleton.mpr rfl, ?_⟩
  obtain ⟨_, _, rfl, _⟩ := Manager.disarm_ok hd
  rfl

/-- **Stop is final, outside the window.** -/
theorem stop_final (id : Handle) {w₀ : World} (h₀ : Initial w₀) :
    (∀ l w, Lts.Run step w₀ l w → (∀ tr ∈ l, StopClear id tr) → StopFinal id l) ∧
    ∀ l w t, Lts.Run step w₀ l w → w.tasks t = some (.stop id) →
      (w.mgr.procs.lookup id).isSome = true → LaunchDue w id →
      ∃ l' w', Lts.Run step w l' w' ∧ ¬ StopFinal id (l ++ l') := by
  refine ⟨?_, ?_⟩
  · rintro l w hr hclear l₁ tr l₂ rfl hev tr' htr'
    have hset₀ : StopSettled id w₀ := by
      refine ⟨inv_initial h₀, ?_⟩
      intro t pid ht
      rw [h₀.idle.1 t] at ht
      cases ht
    obtain ⟨-, hset⟩ := hr.guarded hset₀ hclear (fun tr hv h hc => h.keep hv hc)
    obtain ⟨-, hv, htail⟩ := hr.split rfl
    -- the transition that returns `Ok` starts in a settled state
    rcases step_acts hv with ⟨t, os, task, next, -, ht, hm⟩ | ⟨-, -, -, -, hnil⟩
    · obtain ⟨pid, rfl⟩ := hm.stopped_mem hev
      have hdis := ((hset tr (by simp)).2 t pid ht).keep hv
      have hnever := htail.never (B := fun tr => ∃ r, .launchChild id r ∈ tr.evs) hdis
        (fun tr hv h => ⟨h.keep hv, fun ⟨r, hr⟩ => h.no_launch hv r hr⟩)
      exact not_exists.mp (hnever.2 tr' htr')
    · rw [hnil] at hev; cases hev
  · intro l w t hr ht he hdue
    obtain ⟨e, he⟩ := Option.isSome_iff_exists.mp he
    obtain ⟨tr₁, tr₂, m', next, hrun, hstop, hsd⟩ := stop_returns ht he
    have hdue' := hdue.other (t := t) (by rw [ht]; intro s hs; cases hs) hsd next
    obtain ⟨l', w', hl', tr, htr, r, hlaunch⟩ := hdue'.launches
    refine ⟨_, w', hrun.append hl', ?_⟩
    intro hfinal
    exact hfinal (l ++ [tr₁]) tr₂ l' (by simp) hstop tr htr r hlaunch

end

theorem stop_final_outside : ∃ l w, Lts.Run (@step recordCodec) (World.start .new) l w ∧
    .stopped 2 (.ok ()) ∈ Lts.events l ∧ StopFinal 2 l := by
  obtain ⟨l, w, hr, hp⟩ := Lts.run_of_exec (@step recordCodec) (World.start .new)
    outsideWindow (fun p => clearRun 3 p.1 &&
      decide (.stopped 2 (.ok ()) ∈ Lts.events p.1)) (by decide)
  rw [Bool.and_eq_true, decide_eq_true_eq] at hp
  have hclear := @clearRun_spec recordCodec 3 _ l w hr hp.1
  exact ⟨l, w, hr, hp.2, (@stop_final recordCodec 2 _ (.inl rfl)).1 l w hr
    (fun tr htr _ _ hdue => hclear tr htr 2 (.inl hdue))⟩

/-- `stop` in the window: the launch follows its return. -/
theorem stop_races_relaunch :
    ∃ l w, Lts.Run (@step recordCodec) (World.start .new) l w ∧ ¬ StopFinal 2 l := by
  obtain ⟨l, w, hr, hp⟩ := Lts.run_of_exec (@step recordCodec) (World.start .new)
    (intoWindow ++ [.call 1 (.stop 2), .sched 1 {}, .sched 1 {}, .sched 0 { spawn := some 101 }])
    (fun p => Lts.followed (· == .stopped 2 (.ok ()))
      (· == .launchChild 2 (some ⟨1, 101, 1, 1⟩)) p.1) (by decide)
  obtain ⟨l₁, tr, l₂, rfl, ⟨_, hstop, he₁⟩, tr', htr', _, hlaunch, he₂⟩ := Lts.followed_split hp
  obtain rfl := beq_iff_eq.mp he₁
  obtain rfl := beq_iff_eq.mp he₂
  exact ⟨_, w, hr, fun hfinal => hfinal l₁ tr l₂ rfl hstop tr' htr' _ hlaunch⟩

/-! ### A forgotten handle stays forgotten -/

/-- The child of launch `n` has exited. -/
def Manager.Exited (m : Manager) (n : LaunchId) : Prop :=
  ∃ c, m.children[n]? = some c ∧ c.alive = false

/-- A `supervise` task that, its entry being gone, ends without a launch and without leaving
anything behind. -/
def Sup.Settled (s : Sup) (m : Manager) : Prop :=
  match s.pc with
  | .saveExit _ | .removeLeaf _ | .readArmed _ | .readShutdown _ _ | .backoff _ => True
  | .rereadShutdown _ armed => armed = true → m.shutdown = true
  | .relaunch _ => False
  | .wait => m.store = none ∧ m.Exited s.child
  | .applyLaunch _ l | .saveLaunch l => m.store = none ∧ m.Exited l.child

/-- The entry of `id` is gone, and the task that worked on it is settled. -/
structure Forgotten (id : Handle) (w : World) : Prop where
  inv : Inv w
  le : id ≤ w.mgr.next
  entry : w.mgr.procs.lookup id = none
  settled : ∀ t task spec, w.tasks t = some task → task.owner = some (id, spec) →
    ∃ s, task = .supervise s ∧ s.Settled w.mgr

section
variable [Codec Record] {id : Handle} {w w' : World} {a : Action} {evs : List Event}

theorem step_store_none (h : step w a = some (w', evs)) (hs : w.mgr.store = none) :
    w'.mgr.store = none := by
  rcases step_acts h with ⟨t, os, task, next, -, -, hm⟩ | ⟨-, -, hx, -⟩
  · rcases hm.store_eq with hx | ⟨_, _, _, hx, -⟩ | ⟨s, code, -, -, hx⟩ | ⟨_, -, hx⟩
    · rw [hx, hs]
    · rw [hx, hs]; rfl
    · rw [hx, Manager.saveExit, hs]; rfl
    · rw [hx, hs]; rfl
  · rw [hx, hs]

theorem step_exited (h : step w a = some (w', evs)) {n : LaunchId} (hn : w.mgr.Exited n) :
    w'.mgr.Exited n := by
  obtain ⟨c, hc, hd⟩ := hn
  obtain ⟨c', hc', -, -, -, hx⟩ := step_child h hc
  refine ⟨c', hc', ?_⟩
  rw [Child.alive, hx hd]
  exact hd

theorem Sup.Settled.other {s : Sup} (hset : s.Settled w.mgr) (h : step w a = some (w', evs)) :
    s.Settled w'.mgr := by
  unfold Sup.Settled at hset ⊢
  cases hpc : s.pc with
  | wait | applyLaunch | saveLaunch =>
      rw [hpc] at hset
      exact ⟨step_store_none h hset.1, step_exited h hset.2⟩
  | rereadShutdown code armed =>
      rw [hpc] at hset
      exact fun ha => step_shutdown_mono h (hset ha)
  | relaunch code => rw [hpc] at hset; exact hset
  | _ => trivial

theorem Sup.Settled.moves {s : Sup} {m m' : Manager} {os : Os} {task' : Task}
    (hset : s.Settled m) (hentry : m.procs.lookup s.id = none)
    (hm : Moves m os (.supervise s) m' (some task') evs) :
    ∃ s', task' = .supervise s' ∧ s'.Settled m' := by
  unfold Sup.Settled at hset
  cases hm with
  | wait _ code hpc hx => exact ⟨_, rfl, trivial⟩
  | saveExit _ code hpc => exact ⟨_, rfl, trivial⟩
  | removeLeaf _ code hpc => exact ⟨_, rfl, trivial⟩
  | readArmed _ code hpc => exact ⟨_, rfl, trivial⟩
  | toBackoff _ code hpc => exact ⟨_, rfl, trivial⟩
  | backoff _ code hpc =>
      refine ⟨_, rfl, ?_⟩
      intro ha
      obtain ⟨e, he, -⟩ := Manager.isArmed_iff.mp ha
      rw [hentry] at he; cases he
  | toRelaunch _ code hpc hs =>
      rw [hpc] at hset
      rw [hset rfl] at hs; cases hs
  | relaunches _ code _ l hpc hl => rw [hpc] at hset; exact hset.elim
  | applyLaunch _ code l hpc =>
      rw [hpc] at hset
      exact ⟨_, rfl, hset⟩
  | saveLaunch _ l hpc =>
      rw [hpc] at hset
      refine ⟨_, rfl, ?_, hset.2⟩
      simp only [Manager.persist, hset.1, Option.map_none]

theorem Forgotten.keep (h : Forgotten id w) (hs : step w a = some (w', evs)) :
    Forgotten id w' := by
  refine ⟨inv_step hs h.inv, le_trans h.le (step_next_le hs), ?_, ?_⟩
  · rcases step_entry hs id with heq | ⟨t, os, task, -, ht, hentry⟩
    · exact heq.trans h.entry
    · rw [h.entry] at hentry
      generalize w'.mgr.procs.lookup id = y at hentry
      cases hentry with
      | same => rfl
      | insert spec l =>
          obtain ⟨s, hx, -⟩ := h.settled t _ spec ht rfl
          cases hx
  · intro t task' spec ht' ho
    rcases task_origin hs ht' with ht | ⟨op, rfl⟩ | ⟨os, task, -, ht, hm, -⟩
    · obtain ⟨s, rfl, hset⟩ := h.settled t task' spec ht ho
      exact ⟨s, rfl, hset.other hs⟩
    · rw [op.task_owner] at ho; cases ho
    · rcases hm.owner rfl ho with ho' | ⟨spec', -, heq⟩
      · obtain ⟨s, rfl, hset⟩ := h.settled t task spec ht ho'
        obtain ⟨hid, -⟩ := Prod.mk.inj (Option.some.inj ho')
        exact hset.moves (by rw [hid]; exact h.entry) hm
      · have := (Prod.mk.inj heq).1
        have := h.le
        lia

theorem Forgotten.no_launch (h : Forgotten id w) (hs : step w a = some (w', evs))
    (r : Option Launched) : .launchChild id r ∉ evs := by
  intro hr
  rcases step_acts hs with ⟨t, os, task, next, -, ht, hm⟩ | ⟨-, -, -, -, rfl⟩
  · rcases hm.launchChild_mem hr with ⟨spec, rfl⟩ | ⟨s, code, rfl, rfl, hpc⟩
    · obtain ⟨s, hx, -⟩ := h.settled t _ spec ht rfl
      cases hx
    · obtain ⟨s', hx, hset⟩ := h.settled t _ s.spec ht rfl
      obtain rfl := Task.supervise.inj hx
      simp only [Sup.Settled, hpc] at hset
  · cases hr

def NoRecord (id : Handle) (w : World) : Prop := ∀ st, w.mgr.store = some st → id ∉ st.records

theorem Forgotten.no_record (h : Forgotten id w) (hrec : NoRecord id w)
    (hs : step w a = some (w', evs)) : NoRecord id w' := by
  rcases step_acts hs with ⟨t, os, task, next, -, ht, hm⟩ | ⟨-, -, hx, -⟩
  · rcases hm.store_eq with hx | ⟨k, spec, pid, hx, hwho⟩ | ⟨s, code, -, -, hx⟩ | ⟨k, -, hx⟩
    · unfold NoRecord; rw [hx]; exact hrec
    · intro st hst
      rw [hx] at hst
      obtain ⟨st₀, hst₀, rfl⟩ := Option.map_eq_some_iff.mp hst
      rw [Store.mem_put, not_or]
      refine ⟨?_, hrec st₀ hst₀⟩
      rintro rfl
      rcases hwho with ⟨l, rfl, -⟩ | ⟨s, l, rfl, hpc, rfl, rfl, -⟩
      · obtain ⟨s, hx, -⟩ := h.settled t _ spec ht rfl
        cases hx
      · obtain ⟨s', hx, hset⟩ := h.settled t _ s.spec ht rfl
        obtain rfl := Task.supervise.inj hx
        simp only [Sup.Settled, hpc, hst₀] at hset
        cases hset.1
    · intro st hst
      rw [hx, Manager.saveExit] at hst
      obtain ⟨st₀, hst₀, rfl⟩ := Option.map_eq_some_iff.mp hst
      cases hset : st₀.setStatus s.id (.exited code) with
      | error e => exact hrec st₀ hst₀
      | ok st' =>
          simp only
          rw [(Store.setStatus_frame hset).1]
          exact hrec st₀ hst₀
    · intro st hst
      rw [hx] at hst
      obtain ⟨st₀, hst₀, rfl⟩ := Option.map_eq_some_iff.mp hst
      rw [Store.mem_remove]
      exact fun hmem => hrec st₀ hst₀ hmem.2
  · unfold NoRecord; rw [hx]; exact hrec

omit [Codec Record] in
theorem Forgotten.gone (h : Forgotten id w) (hrec : NoRecord id w) : Gone id w := by
  refine ⟨?_, h.entry, hrec⟩
  intro n c hc hid
  by_contra halive
  obtain ⟨t, task, ht, ho, hh⟩ := h.inv.held n c hc (by simpa using halive)
  rw [hid] at ho
  obtain ⟨s, rfl, hset⟩ := h.settled t task _ ht ho
  -- what a settled task holds has exited
  have hdead : w.mgr.Exited n := by
    unfold Sup.Settled at hset
    simp only [Task.holds] at hh
    cases hpc : s.pc with
    | wait | applyLaunch | saveLaunch =>
        rw [hpc] at hset hh
        obtain rfl := Option.some.inj hh
        exact hset.2
    | _ => rw [hpc] at hh; cases hh
  obtain ⟨c', hc', hd⟩ := hdead
  obtain rfl := Option.some.inj (hc.symm.trans hc')
  exact halive hd

omit [Codec Record] in
/-- Outside the window the supervisor of an entry that shows an exit is settled. -/
theorem Sup.Settled.of_clear (hI : Inv w) {t : ℕ} {s : Sup} (ht : w.tasks t = some (.supervise s))
    {e : ProcEntry} (he : w.mgr.procs.lookup s.id = some e) (hrun : e.status ≠ .running)
    (hclear : ¬ LaunchOpen w s.id) : s.Settled w.mgr := by
  have hstatus := (hI.agrees t _ ht).1 e he
  unfold Sup.Settled
  cases hpc : s.pc with
  | wait | saveLaunch => rw [hpc] at hstatus; exact absurd hstatus hrun
  | rereadShutdown code armed =>
      intro harmed
      obtain rfl : armed = true := harmed
      by_contra hsd
      exact hclear (.inl ⟨t, s, code, ht, rfl, .inr ⟨hpc, by simpa using hsd⟩⟩)
  | relaunch code => exact hclear (.inl ⟨t, s, code, ht, rfl, .inl hpc⟩)
  | applyLaunch code l =>
      obtain ⟨c, hc, -⟩ := hI.tracks t _ l.child s.id s.spec ht rfl (by simp only [Task.holds, hpc])
      by_contra hopen
      refine hclear (.inr ⟨t, s, code, l, ht, rfl, hpc, ?_⟩)
      by_contra hno
      rw [not_or] at hno
      refine hopen ⟨by simpa using hno.1, c, hc, ?_⟩
      by_contra halive
      exact hno.2 ⟨c, hc, by simpa using halive⟩
  | _ => trivial

omit [Codec Record] in
theorem Forgotten.of_removeEntry (hI : Inv w) {m' : Manager} {t : ℕ}
    (hI' : Inv ⟨m', Function.update w.tasks t (some (.forgetStore id))⟩)
    (hr : w.mgr.removeEntry id = .ok m') (hclear : ¬ LaunchOpen w id) :
    Forgotten id ⟨m', Function.update w.tasks t (some (.forgetStore id))⟩ := by
  obtain ⟨e, he, hrun, rfl⟩ := Manager.removeEntry_ok hr
  refine ⟨hI', hI.key_le id e he, by simp, ?_⟩
  intro t' task spec ht' ho
  rcases tasks_update ht' with ⟨-, hn⟩ | ⟨-, ht⟩
  · obtain rfl := Option.some.inj hn
    cases ho
  · have hA := hI.agrees t' task ht
    cases task with
    | spawnLaunch k _ | spawnInsert k _ _ =>
        obtain ⟨rfl, -⟩ := Prod.mk.inj (Option.some.inj ho)
        have hA' : w.mgr.procs.lookup k = none := hA
        rw [he] at hA'; cases hA'
    | spawnSave k _ _ | spawnReturn k _ _ =>
        obtain ⟨rfl, -⟩ := Prod.mk.inj (Option.some.inj ho)
        obtain ⟨e', he', hs'⟩ := hA
        obtain rfl := Option.some.inj (he.symm.trans he')
        exact absurd hs' hrun
    | supervise s =>
        obtain ⟨rfl, rfl⟩ := Prod.mk.inj (Option.some.inj ho)
        exact ⟨s, rfl, Sup.Settled.of_clear hI ht he hrun hclear⟩
    | _ => cases ho

/-- Whoever is about to return from `forget id` left the handle forgotten. -/
def ForgetSettled (id : Handle) (w : World) : Prop :=
  Inv w ∧ ∀ t, w.tasks t = some (.forgetStore id) → Forgotten id w

theorem ForgetSettled.keep {tr : Lts.Tr World Action Event} (hv : tr.Valid step)
    (h : ForgetSettled id tr.pre) (hclear : ForgetClear id tr) : ForgetSettled id tr.post := by
  have hI' := inv_step hv h.1
  refine ⟨hI', ?_⟩
  intro t ht'
  rcases task_origin hv ht' with ht | ⟨op, hop⟩ | ⟨os, task, ha, ht, hm, hw⟩
  · exact (h.2 t ht).keep hv
  · cases op <;> cases hop
  · obtain ⟨rfl, hr⟩ := hm.forgetStore_next rfl
    obtain ⟨e, he, -⟩ := Manager.removeEntry_ok hr
    have hact : actor tr = some (.forget id) := by simp only [actor, ha, ht]
    rw [hw] at hI' ⊢
    exact .of_removeEntry h.1 hI' hr (hclear hact (by rw [he]; rfl))

/-- The last step of `forget` leaves nothing of the handle. -/
theorem Forgotten.removed (h : Forgotten id w) {t : ℕ} (ht : w.tasks t = some (.forgetStore id))
    {os : Os} (hs : step w (.sched t os) = some (w', evs)) : Forgotten id w' ∧ NoRecord id w' := by
  refine ⟨h.keep hs, ?_⟩
  rw [step_sched os (w.mgr.removeRecord id, none, [.forgotten id (.ok ())]) ht rfl] at hs
  obtain rfl := (Prod.mk.inj (Option.some.inj hs)).1
  intro st hst
  obtain ⟨st₀, -, rfl⟩ := Option.map_eq_some_iff.mp hst
  rw [Store.mem_remove]
  exact fun hmem => hmem.1 rfl

omit [Codec Record] in
theorem LaunchOpen.not_running (h : LaunchOpen w id) (hI : Inv w) {e : ProcEntry}
    (he : w.mgr.procs.lookup id = some e) : e.status ≠ .running := by
  intro hr
  rcases h with ⟨t, s, code, ht, rfl, hpc⟩ | ⟨t, s, code, l, ht, rfl, hpc, -⟩
  · have := (hI.agrees t _ ht).1 e he
    rcases hpc with hpc | ⟨hpc, -⟩ <;> rw [hpc, hr] at this <;> cases this
  · have := (hI.agrees t _ ht).1 e he
    rw [hpc, hr] at this
    cases this

theorem forget_returns {t : ℕ} (ht : w.tasks t = some (.forget id)) {e : ProcEntry}
    (he : w.mgr.procs.lookup id = some e) (hrun : e.status ≠ .running) :
    ∃ tr₁ tr₂, Lts.Run step w [tr₁, tr₂] tr₂.post ∧ .forgotten id (.ok ()) ∈ tr₂.evs ∧
      tr₂.post = ⟨Manager.removeRecord { w.mgr with procs := AList.erase id w.mgr.procs } id,
        Function.update w.tasks t none⟩ := by
  have hr : w.mgr.removeEntry id = .ok { w.mgr with procs := AList.erase id w.mgr.procs } := by
    simp only [Manager.removeEntry, he]
    rw [if_neg (by simpa using hrun)]
  have h₁ := step_sched {}
    ({ w.mgr with procs := AList.erase id w.mgr.procs }, some (.forgetStore id), []) ht
    (by simp only [advance, hr])
  have h₂ := step_sched (w := ⟨{ w.mgr with procs := AList.erase id w.mgr.procs },
      Function.update w.tasks t (some (.forgetStore id))⟩) (t := t) {}
    (Manager.removeRecord { w.mgr with procs := AList.erase id w.mgr.procs } id, none,
      [.forgotten id (.ok ())]) (Function.update_self ..) rfl
  have hrun := Lts.Run.cons h₁ (Lts.Run.single h₂)
  simp only [Function.update_idem] at hrun
  exact ⟨_, _, hrun, List.mem_singleton.mpr rfl, rfl⟩

/-- A launch on its way to the table is persisted, whether or not the entry is there. -/
theorem applyLaunch_persists {t : ℕ} {s : Sup} (ht : w.tasks t = some (.supervise s))
    {code : Option ℤ} {l : Launched} (hpc : s.pc = .applyLaunch code l)
    (hst : w.mgr.store.isSome = true) :
    ∃ l' w', Lts.Run step w l' w' ∧ ∃ tr ∈ l', ¬ NoRecord s.id tr.post := by
  obtain ⟨st, hst⟩ := Option.isSome_iff_exists.mp hst
  have h₁ := step_sched {} (w.mgr.applyLaunch s.id l,
    some (.supervise { s with pc := .saveLaunch l }), []) ht (by simp only [advance, Sup.advance, hpc])
  have h₂ := step_sched (w := ⟨w.mgr.applyLaunch s.id l,
      Function.update w.tasks t (some (.supervise { s with pc := .saveLaunch l }))⟩) (t := t) {}
    ((w.mgr.applyLaunch s.id l).persist s.id s.spec l.pid .running,
      some (.supervise { s with child := l.child, pc := .wait }), []) (Function.update_self ..) rfl
  refine ⟨_, _, Lts.Run.cons h₁ (Lts.Run.single h₂), _,
    List.mem_cons_of_mem _ (List.mem_singleton.mpr rfl), ?_⟩
  intro hno
  refine hno (st.put s.id ⟨s.spec.cmd, s.spec.args, s.spec.env, l.pid, .running⟩) ?_
    (Store.mem_put.mpr (.inl rfl))
  simp only [Manager.persist, Manager.applyLaunch, hst, Option.map_some]

/-- A `forget` inside the window can leave a child or a record, or be followed by a launch. -/
theorem forget_races (hI : Inv w) {t : ℕ} (ht : w.tasks t = some (.forget id))
    (he : (w.mgr.procs.lookup id).isSome = true) (hopen : LaunchOpen w id) :
    ∃ tr₁ tr₂ l w', Lts.Run step w ([tr₁, tr₂] ++ l) w' ∧ .forgotten id (.ok ()) ∈ tr₂.evs ∧
      (¬ Gone id tr₂.post ∨
        ∃ tr ∈ l, ¬ (Gone id tr.post ∧ ∀ r, .launchChild id r ∉ tr.evs)) := by
  obtain ⟨e, he⟩ := Option.isSome_iff_exists.mp he
  obtain ⟨tr₁, tr₂, hrun, hev, hpost⟩ := forget_returns ht he (hopen.not_running hI he)
  have hnosup : ∀ s, w.tasks t ≠ some (.supervise s) := by rw [ht]; intro s hs; cases hs
  rcases hopen with hdue | ⟨t', s, code, l, ht', rfl, hpc, hleft⟩
  · have hsd : tr₂.post.mgr.shutdown = w.mgr.shutdown := by rw [hpost]; rfl
    obtain ⟨l, w', hl, tr, htr, r, hlaunch⟩ := (hdue.other hnosup hsd none).launches
    rw [show (⟨tr₂.post.mgr, Function.update w.tasks t none⟩ : World) = tr₂.post by rw [hpost]] at hl
    exact ⟨tr₁, tr₂, l, w', hrun.append hl, hev, .inr ⟨tr, htr, fun hx => hx.2 r hlaunch⟩⟩
  · have hne : t' ≠ t := by
      rintro rfl
      exact hnosup s ht'
    rcases hleft with hst | ⟨c, hc, halive⟩
    · have ht₂ : tr₂.post.tasks t' = some (.supervise s) := by
        rw [hpost]
        simp only [Function.update_apply, if_neg hne]
        exact ht'
      obtain ⟨l', w', hl, tr, htr, hrec⟩ := applyLaunch_persists ht₂ hpc
        (by rw [hpost]; simp only [Manager.removeRecord, Option.isSome_map]; exact hst)
      exact ⟨tr₁, tr₂, l', w', hrun.append hl, hev, .inr ⟨tr, htr, fun hx => hrec hx.1.record⟩⟩
    · obtain ⟨c', hc', hh, -⟩ :=
        hI.tracks t' _ l.child s.id s.spec ht' rfl (by simp only [Task.holds, hpc])
      obtain rfl := Option.some.inj (hc.symm.trans hc')
      refine ⟨tr₁, tr₂, [], tr₂.post, hrun, hev, .inl ?_⟩
      intro hgone
      have := hgone.child l.child c (by rw [hpost]; exact hc) hh
      rw [halive] at this; cases this

/-- **Forget is final, outside the window.** -/
theorem forget_final (id : Handle) {w₀ : World} (h₀ : Initial w₀) :
    (∀ l w, Lts.Run step w₀ l w → (∀ tr ∈ l, ForgetClear id tr) → ForgetFinal id l) ∧
    ∀ l w t, Lts.Run step w₀ l w → w.tasks t = some (.forget id) →
      (w.mgr.procs.lookup id).isSome = true → LaunchOpen w id →
      ∃ l' w', Lts.Run step w l' w' ∧ ¬ ForgetFinal id (l ++ l') := by
  refine ⟨?_, ?_⟩
  · rintro l w hr hclear l₁ tr l₂ rfl hev
    have hset₀ : ForgetSettled id w₀ := by
      refine ⟨inv_initial h₀, ?_⟩
      intro t ht
      rw [h₀.idle.1 t] at ht
      cases ht
    obtain ⟨-, hset⟩ := hr.guarded hset₀ hclear (fun tr hv h hc => h.keep hv hc)
    obtain ⟨-, hv, htail⟩ := hr.split rfl
    rcases step_acts hv with ⟨t, os, task, next, ha, ht, hm⟩ | ⟨-, -, -, -, hnil⟩
    · obtain rfl := hm.forgotten_mem hev
      have hv' := hv
      rw [Lts.Tr.Valid, ha] at hv'
      obtain ⟨hf, hrec⟩ := ((hset tr (by simp)).2 t ht).removed ht hv'
      refine ⟨hf.gone hrec, ?_⟩
      have hnever := htail.never (Q := fun w => Forgotten id w ∧ NoRecord id w)
        (B := fun tr => ¬ (Gone id tr.post ∧ ∀ r, .launchChild id r ∉ tr.evs)) ⟨hf, hrec⟩
        (fun tr hv h => by
          have hf' := h.1.keep hv
          have hrec' := h.1.no_record h.2 hv
          exact ⟨⟨hf', hrec'⟩, not_not.mpr ⟨hf'.gone hrec', h.1.no_launch hv⟩⟩)
      intro tr' htr'
      exact not_not.mp (hnever.2 tr' htr')
    · rw [hnil] at hev; cases hev
  · intro l w t hr ht he hopen
    obtain ⟨tr₁, tr₂, l', w', hrun, hforgot, hbad⟩ := forget_races (inv_run h₀ hr).1 ht he hopen
    refine ⟨_, w', hrun, ?_⟩
    intro hfinal
    obtain ⟨h1, h2⟩ := hfinal (l ++ [tr₁]) tr₂ l' (by simp) hforgot
    rcases hbad with hbad | ⟨tr, htr, hbad⟩
    · exact hbad h1
    · exact hbad (h2 tr htr)

end

theorem forget_final_outside : ∃ l w, Lts.Run (@step recordCodec) (World.start .new) l w ∧
    .forgotten 2 (.ok ()) ∈ Lts.events l ∧ ForgetFinal 2 l := by
  obtain ⟨l, w, hr, hp⟩ := Lts.run_of_exec (@step recordCodec) (World.start .new)
    outsideWindow (fun p => clearRun 3 p.1 &&
      decide (.forgotten 2 (.ok ()) ∈ Lts.events p.1)) (by decide)
  rw [Bool.and_eq_true, decide_eq_true_eq] at hp
  have hclear := @clearRun_spec recordCodec 3 _ l w hr hp.1
  exact ⟨l, w, hr, hp.2, (@forget_final recordCodec 2 _ (.inl rfl)).1 l w hr
    (fun tr htr _ _ => hclear tr htr 2)⟩

/-- `forget` in the window: the launch follows its return. -/
theorem forget_races_relaunch :
    ∃ l w, Lts.Run (@step recordCodec) (World.start .new) l w ∧ ¬ ForgetFinal 2 l := by
  obtain ⟨l, w, hr, hp⟩ := Lts.run_of_exec (@step recordCodec) (World.start .new)
    (intoWindow ++ [.call 1 (.forget 2), .sched 1 {}, .sched 1 {}, .sched 0 { spawn := some 101 }])
    (fun p => Lts.followed (· == .forgotten 2 (.ok ()))
      (· == .launchChild 2 (some ⟨1, 101, 1, 1⟩)) p.1) (by decide)
  obtain ⟨l₁, tr, l₂, rfl, ⟨_, hforgot, he₁⟩, tr', htr', _, hlaunch, he₂⟩ := Lts.followed_split hp
  obtain rfl := beq_iff_eq.mp he₁
  obtain rfl := beq_iff_eq.mp he₂
  exact ⟨_, w, hr, fun hfinal => ((hfinal l₁ tr l₂ rfl hforgot).2 tr' htr').2 _ hlaunch⟩

end MeshSupervisor
