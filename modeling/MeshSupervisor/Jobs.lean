import MeshSupervisor.ForcedKill

/-! # What a stop leaves of a job

A child and the processes it has started are a job.  With cgroups the leaf of the child is
killed once more when its exit is handled, so that what is left of the job goes with it.
Without cgroups `terminate` sends SIGTERM to the child alone and looks only at the child
after the deadline.

`job_taken_down`: when the `terminate` task has ended and the exit of the child is recorded,
the whole job has exited or been sent SIGKILL, if the child joined a leaf and `supervise` is
not between recording the exit and removing the leaf, or there was a way to force the child
and `terminate` still found it running, or the rest of the job exited by itself.
`job_survives` is a run in which a process of the job survives. -/

namespace MeshSupervisor

open Wire (Codec)

/-- The processes that a child has started, directly or through others, and that stayed in its
process group and in its leaf (neither kill looks at who started whom); and those of them that
have exited by themselves. -/
structure Job where
  processes : List Pid
  exited : List Pid

/-- Every process of the job of launch `n` has exited or has been sent SIGKILL. -/
def TakenDown (l : List (Lts.Tr World Action Event)) (n : LaunchId) (job : Job) : Prop :=
  ∀ p ∈ job.processes, p ∈ job.exited ∨ ∃ tr ∈ l, Sigkilled tr n

/-- The exit of launch `n` is recorded in the entry of `id`. -/
def ExitRecorded (l : List (Lts.Tr World Action Event)) (id : Handle) (n : LaunchId) : Prop :=
  ∃ tr ∈ l, ∃ code, .exitRecorded id n code ∈ tr.evs

/-- `supervise` has seen the exit of launch `n` and has not removed the leaf yet. -/
def Reaping (id : Handle) (n : LaunchId) (w : World) : Prop :=
  ∃ t s code, w.tasks t = some (.supervise s) ∧ s.id = id ∧ s.child = n ∧
    (s.pc = .saveExit code ∨ s.pc = .removeLeaf code)

/-- `supervise` has removed the leaf after the exit of launch `n`. -/
def Reaped (l : List (Lts.Tr World Action Event)) (id : Handle) (n : LaunchId) : Prop :=
  ∃ tr ∈ l, ∃ s code, actor tr = some (.supervise s) ∧ s.id = id ∧ s.child = n ∧
    s.pc = .removeLeaf code

/-- The `terminate` task in slot `t` has ended. -/
def Terminated (t : ℕ) (id : Handle) (pid : Pid) (w : World) : Prop :=
  ∀ task, w.tasks t = some task → task.target ≠ some (id, pid)

/-- The `terminate` task in slot `t`, when it looks, finds the handle running. -/
def FoundRunning (t : ℕ) (id : Handle) (pid : Pid) (l : List (Lts.Tr World Action Event)) : Prop :=
  ∀ tr ∈ l, (∃ os, tr.act = .sched t os) → actor tr = some (.terminateSleep id pid) →
    tr.pre.mgr.isRunning id = true

section
variable [Codec Record] {w₀ w w' : World} {l l₁ l₂ : List (Lts.Tr World Action Event)}
  {tr : Lts.Tr World Action Event} {id : Handle} {pid : Pid} {t : ℕ} {n : LaunchId}

theorem cgroups_run (hr : Lts.Run step w l w') : w'.mgr.cgroups.isSome = w.mgr.cgroups.isSome := by
  refine (hr.invariant (I := fun w' => w'.mgr.cgroups.isSome = w.mgr.cgroups.isSome) rfl ?_).1
  intro tr hv h
  rcases step_moves hv with ⟨_, _, -, -, -, hpost⟩ | ⟨_, _, _, _, _, -, -, hm, hpost⟩ |
    ⟨_, _, _, -, -, -, -, hpost⟩ <;> rw [hpost]
  · exact h
  · exact hm.cgroups_isSome.trans h
  · exact h

theorem child_run (hr : Lts.Run step w l w') {c : Child} (hc : w.mgr.children[n]? = some c) :
    ∃ c', w'.mgr.children[n]? = some c' ∧ c'.pid = c.pid := by
  refine (hr.invariant (I := fun w' => ∃ c', w'.mgr.children[n]? = some c' ∧ c'.pid = c.pid)
    ⟨c, hc, rfl⟩ ?_).1
  rintro tr hv ⟨c', hc', hp⟩
  obtain ⟨c'', hc'', -, -, hp', -⟩ := step_child hv hc'
  exact ⟨c'', hc'', hp'.trans hp⟩

theorem Moves.next_saveExit {m m' : Manager} {os : Os} {s : Sup} {next : Option Task}
    {evs : List Event} (hm : Moves m os (.supervise s) m' next evs) {code : Option ℤ}
    (hpc : s.pc = .saveExit code) : next = some (.supervise { s with pc := .removeLeaf code }) := by
  cases hm with
  | saveExit _ _ h =>
      rw [hpc] at h
      cases h
      rfl
  | _ => simp_all

/-- A step of a handle that is being reaped goes on reaping it or removes the leaf. -/
theorem Reaping.step {a : Action} {evs : List Event} (h : Reaping id n w)
    (hs : step w a = some (w', evs)) : Reaping id n w' ∨ Reaped [⟨w, a, evs, w'⟩] id n := by
  obtain ⟨t, s, code, ht, hid, hn, hpc⟩ := h
  rcases step_tasks hs ht with ht' | ⟨os, rfl⟩
  · exact .inl ⟨t, s, code, ht', hid, hn, hpc⟩
  · rcases hpc with hpc | hpc
    · left
      obtain ⟨m', next, hm, rfl⟩ := step_of_task hs ht
      refine ⟨t, { s with pc := .removeLeaf code }, code, ?_, hid, hn, .inr rfl⟩
      rw [hm.next_saveExit hpc]
      exact Function.update_self ..
    · exact .inr ⟨_, List.mem_singleton.mpr rfl, s, code, ht, hid, hn, hpc⟩

/-- Once the exit is recorded, `supervise` is about to remove the leaf or has removed it. -/
theorem reaped_run (hr : Lts.Run step w l w') (h : ExitRecorded l id n) :
    Reaping id n w' ∨ Reaped l id n := by
  induction hr with
  | nil =>
      obtain ⟨tr, htr, -⟩ := h
      cases htr
  | @snoc l w₁ w₂ a evs hr hs ih =>
      obtain ⟨tr, htr, code, hev⟩ := h
      rcases List.mem_append.mp htr with htr | htr
      · rcases ih ⟨tr, htr, code, hev⟩ with hing | ⟨tr', htr', hrest⟩
        · rcases hing.step hs with hing | ⟨tr', htr', hrest⟩
          · exact .inl hing
          · exact .inr ⟨tr', List.mem_append_right _ htr', hrest⟩
        · exact .inr ⟨tr', List.mem_append_left _ htr', hrest⟩
      · obtain rfl := List.mem_singleton.mp htr
        have hev : .exitRecorded id n code ∈ evs := hev
        rcases step_moves hs with ⟨_, _, -, -, rfl, -⟩ | ⟨t, os, _, m', _, rfl, ht, hm, rfl⟩ |
          ⟨_, _, _, -, -, -, rfl, -⟩
        · cases hev
        · obtain ⟨s, rfl, hid, -, hn, rfl⟩ := hm.exitRecorded_mem hev
          exact .inl ⟨t, _, code, Function.update_self .., hid, hn, .inl rfl⟩
        · cases hev

/-- A `terminate` task is under way, or it has forced its child, or it found it gone. -/
theorem terminate_run (hr : Lts.Run step w l w')
    (ht : w.tasks t = some (.stopReturn id (some pid))) :
    (∃ task, w'.tasks t = some task ∧ task.target = some (id, pid)) ∨
      (∃ tr ∈ l, actor tr = some (.terminateForce id pid)) ∨
      ∃ tr ∈ l, (∃ os, tr.act = .sched t os) ∧ actor tr = some (.terminateSleep id pid) ∧
        tr.pre.mgr.isRunning id = false := by
  induction hr with
  | nil => exact .inl ⟨_, ht, rfl⟩
  | @snoc l w₁ w₂ a evs hr hs ih =>
      rcases ih with ⟨task, ht₁, htarget⟩ | ⟨tr, htr, h⟩ | ⟨tr, htr, h⟩
      · rcases step_tasks hs ht₁ with ht₂ | ⟨os, rfl⟩
        · exact .inl ⟨task, ht₂, htarget⟩
        · obtain ⟨m', next, hm, rfl⟩ := step_of_task hs ht₁
          have hlast : ∀ {P : Lts.Tr World Action Event → Prop} {m'' next' evs'},
              P ⟨w₁, .sched t os, evs', ⟨m'', Function.update w₁.tasks t next'⟩⟩ →
              ∃ tr ∈ l ++ [⟨w₁, .sched t os, evs', ⟨m'', Function.update w₁.tasks t next'⟩⟩], P tr :=
            fun h => ⟨_, List.mem_append_right _ (List.mem_singleton.mpr rfl), h⟩
          cases hm with
          | stopRunning | terminate | terminateForces =>
              exact .inl ⟨_, Function.update_self .., htarget⟩
          | terminateEnds _ _ hnot =>
              obtain ⟨rfl, rfl⟩ := Prod.mk.inj (Option.some.inj htarget)
              exact .inr (.inr (hlast ⟨⟨os, rfl⟩, ht₁, hnot⟩))
          | terminateForce =>
              obtain ⟨rfl, rfl⟩ := Prod.mk.inj (Option.some.inj htarget)
              exact .inr (.inl (hlast ht₁))
          | _ => cases htarget
      · exact .inr (.inl ⟨tr, List.mem_append_left _ htr, h⟩)
      · exact .inr (.inr ⟨tr, List.mem_append_left _ htr, h⟩)

theorem forced_events {a : Action} {evs : List Event} (hs : step w a = some (w', evs))
    (hact : actor ⟨w, a, evs, w'⟩ = some (.terminateForce id pid)) :
    evs = if w.mgr.cgroups.isSome then [.cgroupKill id] else [.killGroup pid sigKill] := by
  obtain ⟨t, os, m', next, rfl, ht, hm, rfl⟩ := step_of_actor hs hact
  cases hm
  rfl

theorem JoinedAt.sigkilled (h₀ : Initial w₀) {found : Bool}
    (hcg : w₀.mgr.cgroups = Cgroups.detect found) (hj : JoinedAt l₁ id n)
    (hr : Lts.Run step w₀ (l₁ ++ tr :: l₂) w) {tr' : Lts.Tr World Action Event} (htr' : tr' ∈ l₂)
    (hk : KillsLeaf tr' id) : ∃ tr'' ∈ l₁ ++ tr :: l₂, Sigkilled tr'' n := by
  obtain ⟨l₃, l₄, rfl⟩ := List.append_of_mem htr'
  rw [← List.cons_append, ← List.append_assoc] at hr
  obtain ⟨hr₃, -, -⟩ := hr.split rfl
  obtain ⟨tr₀, htr₀, hrest⟩ := hj
  rcases ((leaves_run h₀ hcg hr₃).joined id n ⟨tr₀, List.mem_append_left _ htr₀, hrest⟩).2 with
    hin | ⟨tr'', htr'', hk', -⟩
  · exact ⟨tr', by simp, .inr ⟨id, hin, hk⟩⟩
  · refine ⟨tr'', ?_, hk'⟩
    rw [← List.cons_append, ← List.append_assoc]
    exact List.mem_append_left _ htr''

/-- A `terminate` task that has ended and found its handle running took the forced step. -/
theorem FoundRunning.forced (hfound : FoundRunning t id pid l)
    (hr : Lts.Run step w l w') (ht : w.tasks t = some (.stopReturn id (some pid)))
    (hend : Terminated t id pid w') : ∃ tr ∈ l, actor tr = some (.terminateForce id pid) := by
  rcases terminate_run hr ht with ⟨task, ht', htarget⟩ | hforce | ⟨tr', htr', hslot, hlook, hnot⟩
  · exact absurd htarget (hend task ht')
  · exact hforce
  · rw [hfound tr' htr' hslot hlook] at hnot
    cases hnot

/-- **Jobs.**  When `stop` finds the child of launch `n` running, the whole job is taken down
once its `terminate` task has ended and the exit is recorded, provided that the child joined
its leaf, and the leaf is removed or `terminate` finds the child running, or that there are no
cgroups and `terminate` finds it running, or that the rest of the job exits by itself. -/
theorem job_taken_down (h₀ : Initial w₀) {found : Bool} (hcg : w₀.mgr.cgroups = Cgroups.detect found)
    (hr : Lts.Run step w₀ (l₁ ++ tr :: l₂) w) {os : Os} (hact : tr.act = .sched t os)
    (hstop : tr.pre.tasks t = some (.stop id)) {e : ProcEntry} (he : tr.pre.entry id = some e)
    (hrun : e.status = .running) :
    ∃ n c, tr.pre.mgr.children[n]? = some c ∧ c.handle = id ∧ c.pid = e.pid ∧
      (∃ t' task spec, tr.pre.tasks t' = some task ∧ task.owner = some (id, spec) ∧
        task.holds = some n) ∧
      ∀ job : Job, Terminated t id e.pid w → ExitRecorded l₂ id n →
        (JoinedAt l₁ id n ∧ (¬ Reaping id n w ∨ FoundRunning t id e.pid l₂) ∨
          w.mgr.cgroups = none ∧ FoundRunning t id e.pid l₂ ∨
          ∀ p ∈ job.processes, p ∈ job.exited) →
        TakenDown (l₁ ++ tr :: l₂) n job := by
  obtain ⟨hr₁, hv, hr₂⟩ := hr.split rfl
  obtain ⟨pre, a, evs, post⟩ := tr
  obtain rfl : a = .sched t os := hact
  have hv' : step pre (.sched t os) = some (post, evs) := hv
  obtain ⟨m', next, hm, rfl⟩ := step_of_task hv' hstop
  obtain ⟨hd, rfl, rfl⟩ := hm.stop_running he hrun
  obtain ⟨n, c, hc, hh, hp, hheld, -⟩ :=
    Pinned.of_stop (inv_run h₀ hr₁).1 (watched_run h₀ hr₁) t he hrun hd
  refine ⟨n, c, hc, hh, hp, hheld, ?_⟩
  intro job hend hrec hcond p hp'
  have ht := Function.update_self t (some (Task.stopReturn id (some e.pid))) pre.tasks
  rcases hcond with ⟨hjoined, hnot | hfound⟩ | ⟨hnone, hfound⟩ | hall
  · -- the leaf is killed when it is removed, if it is still there
    obtain ⟨tr', htr', hrest⟩ := (reaped_run hr₂ hrec).resolve_left hnot
    obtain ⟨s, code, hact', hid, -, hpc⟩ := hrest
    exact .inr (hjoined.sigkilled h₀ hcg hr htr' (.inr (.inr (.inr ⟨s, code, hact', hid, hpc⟩))))
  · -- the forced step writes `cgroup.kill`
    obtain ⟨tr', htr', hforce⟩ := hfound.forced hr₂ ht hend
    obtain ⟨l₃, l₄, rfl, hr₃, hv₃, -⟩ := hr₂.mem_split htr'
    have hsome : tr'.pre.mgr.cgroups.isSome = true := by
      obtain ⟨tr₀, htr₀, -, -, -, cg, -, -, -, -, hcg₀, -⟩ := hjoined
      obtain ⟨l₅, l₆, rfl, hr₅, hv₅, hr₆⟩ := hr₁.mem_split htr₀
      rw [cgroups_run (Lts.Run.cons hv₅ (hr₆.append (Lts.Run.cons hv' hr₃))), hcg₀]
      rfl
    refine .inr (hjoined.sigkilled h₀ hcg hr htr' (.inl ?_))
    rw [forced_events hv₃ hforce, hsome]
    exact List.mem_singleton.mpr rfl
  · -- the forced step kills the process group
    obtain ⟨tr', htr', hforce⟩ := hfound.forced hr₂ ht hend
    obtain ⟨l₃, l₄, rfl, hr₃, hv₃, hr₄⟩ := hr₂.mem_split htr'
    obtain ⟨c', hc', hpid'⟩ := child_run (Lts.Run.cons hv' hr₃) hc
    have hcgr : tr'.pre.mgr.cgroups.isSome = false := by
      rw [← cgroups_run (Lts.Run.cons hv₃ hr₄), hnone]
      rfl
    refine .inr ⟨tr', by simp, .inl ⟨c', hc', ?_⟩⟩
    rw [forced_events hv₃ hforce, hcgr, hpid', hp]
    exact List.mem_singleton.mpr rfl
  · exact .inl (hall p hp')

end

/-! ### A child that exits on SIGTERM -/

/-- Handle `id` is spawned and stopped, its child exits within the grace period, and the exit
is handled before `terminate` looks. -/
def exitsOnTerm (id : Handle) : List Action :=
  [.call 0 (.spawn restartSpec), .sched 0 {}, .sched 0 { spawn := some 100 }, .sched 0 {}, .sched 0 {},
    .sched 0 {}, .call 1 (.stop id), .sched 1 {}, .sched 1 {}, .sched 1 {}, .exit 0 none, .sched 0 {},
    .sched 0 {}, .sched 0 {}, .sched 1 {}]

/-- Transition 7 of the run stops handle `id`, whose child is the only one; later the exit is
recorded, and at the end the task has ended and the leaf is removed. -/
def stoppedRun (id : Handle) (p : List (Lts.Tr World Action Event) × World) : Bool :=
  (p.1[7]?).any (fun tr =>
    (match tr.act with
      | .sched t _ => decide (t = 1)
      | _ => false) &&
    decide (tr.pre.tasks 1 = some (.stop id) ∧
      tr.pre.entry id = some ⟨100, .running, some 0, some 0, 0, true⟩ ∧
      tr.pre.mgr.children = [⟨id, restartSpec, 100, none⟩])) &&
  (p.1.drop 8).any (fun tr => decide (.exitRecorded id 0 none ∈ tr.evs)) &&
  decide (p.2.tasks 1 = none ∧
    p.2.tasks 0 = some (.supervise ⟨id, restartSpec, 0, 0, .readArmed none⟩))

theorem stoppedRun_spec [Codec Record] {w₀ : World} (h₀ : Initial w₀) {id : Handle}
    {l : List (Lts.Tr World Action Event)} {w : World} (hr : Lts.Run step w₀ l w)
    (h : stoppedRun id (l, w) = true) : ∃ tr os, l[7]? = some tr ∧ l = l.take 7 ++ tr :: l.drop 8 ∧
      tr.act = .sched 1 os ∧ tr.pre.tasks 1 = some (.stop id) ∧
      tr.pre.entry id = some ⟨100, .running, some 0, some 0, 0, true⟩ ∧
      tr.pre.mgr.children = [⟨id, restartSpec, 100, none⟩] ∧ ExitRecorded (l.drop 8) id 0 ∧
      (∀ pid, Terminated 1 id pid w) ∧ ¬ Reaping id 0 w := by
  simp only [stoppedRun, Bool.and_eq_true, decide_eq_true_eq] at h
  obtain ⟨⟨hstop, hrec⟩, hend, hsup⟩ := h
  obtain ⟨tr, htr, hstop⟩ := (Option.any_eq_true _ _).mp hstop
  rw [Bool.and_eq_true, decide_eq_true_eq] at hstop
  obtain ⟨hact, ht, he, hc⟩ := hstop
  obtain ⟨hlt, rfl⟩ := List.getElem?_eq_some_iff.mp htr
  obtain ⟨tr', htr', hev⟩ := List.any_eq_true.mp hrec
  have hslot : ∃ os, l[7].act = .sched 1 os := by
    cases ha : l[7].act with
    | sched t os =>
        rw [ha] at hact
        obtain rfl := of_decide_eq_true hact
        exact ⟨os, rfl⟩
    | _ =>
        rw [ha] at hact
        cases hact
  obtain ⟨os, hslot⟩ := hslot
  refine ⟨l[7], os, htr, ?_, hslot, ht, he, hc, ⟨tr', htr', none, of_decide_eq_true hev⟩, ?_, ?_⟩
  · rw [← List.drop_eq_getElem_cons hlt, List.take_append_drop]
  · intro pid task htask
    rw [hend] at htask
    cases htask
  · -- the task in slot 0 is the only one that works on the handle
    rintro ⟨t, s, code, hs, hid, -, hpc⟩
    obtain rfl := (inv_run h₀ hr).1.unique t 0 _ _ id s.spec restartSpec hs hsup
      (by rw [← hid]; rfl) rfl
    rw [hsup] at hs
    obtain rfl := Task.supervise.inj (Option.some.inj hs)
    rcases hpc with hpc | hpc <;> cases hpc

/-- With cgroups, the rest of the job goes with the leaf. -/
theorem job_taken_down_leaf : ∃ l₁ tr l₂ w os c, Lts.Run (@step recordCodec) cgroupStart (l₁ ++ tr :: l₂) w ∧
    tr.act = .sched 1 os ∧ tr.pre.tasks 1 = some (.stop 1) ∧
    tr.pre.entry 1 = some ⟨c.pid, .running, some 0, some 0, 0, true⟩ ∧
    tr.pre.mgr.children = [c] ∧ c.handle = 1 ∧ JoinedAt l₁ 1 0 ∧ Terminated 1 1 c.pid w ∧
    ExitRecorded l₂ 1 0 ∧ ¬ Reaping 1 0 w ∧ TakenDown (l₁ ++ tr :: l₂) 0 ⟨[200], []⟩ := by
  obtain ⟨l, w, hr, hp⟩ := Lts.run_of_exec (@step recordCodec) cgroupStart (exitsOnTerm 1)
    (fun p => stoppedRun 1 p && (p.1[7]?).all fun tr : Lts.Tr World Action Event =>
      decide ((0 : LaunchId) ∈ tr.pre.mgr.leaf 1)) (by decide)
  rw [Bool.and_eq_true] at hp
  obtain ⟨hstop, hleaf⟩ := hp
  obtain ⟨tr, os, htr, hl, hact, ht, he, hchildren, hrec, hend, hnot⟩ :=
    @stoppedRun_spec recordCodec _ cgroupStart_initial _ _ _ hr hstop
  have hleaf : 0 ∈ tr.pre.mgr.leaf 1 := by simpa [htr] using hleaf
  rw [hl] at hr
  obtain ⟨hr₁, -, -⟩ := hr.split rfl
  have hjoined : JoinedAt (l.take 7) 1 0 :=
    (@leaves_run recordCodec _ _ _ cgroupStart_initial true rfl hr₁).left 1 0 hleaf
  obtain ⟨n, c, hc, -, -, -, hjob⟩ := @job_taken_down recordCodec _ _ _ _ _ _ _ cgroupStart_initial true rfl
    hr _ hact ht _ he rfl
  obtain rfl : n = 0 := by
    have hlt := (List.getElem?_eq_some_iff.mp hc).1
    rw [hchildren, List.length_singleton] at hlt
    exact Nat.lt_one_iff.mp hlt
  exact ⟨l.take 7, tr, l.drop 8, w, os, ⟨1, restartSpec, 100, none⟩, hr, hact, ht, he, hchildren, rfl,
    hjoined, hend _, hrec, hnot, hjob ⟨[200], []⟩ (hend _) hrec (.inl ⟨hjoined, .inl hnot⟩)⟩

/-- No transition of the run sends SIGKILL to a group, and there are no cgroups. -/
def killsNothing (l : List (Lts.Tr World Action Event)) : Bool :=
  l.all fun tr => tr.pre.mgr.cgroups.isNone && tr.evs.all fun
    | .killGroup _ _ => false
    | _ => true

theorem killsNothing_spec {l : List (Lts.Tr World Action Event)} (h : killsNothing l = true)
    (n : LaunchId) : ¬ ∃ tr ∈ l, Sigkilled tr n := by
  rintro ⟨tr, htr, hk⟩
  have := List.all_eq_true.mp h tr htr
  rw [Bool.and_eq_true, Option.isNone_iff_eq_none] at this
  rcases hk with ⟨c, -, hk⟩ | ⟨id, hn, -⟩
  · exact absurd (List.all_eq_true.mp this.2 _ hk) Bool.false_ne_true
  · rw [Manager.leaf_none this.1] at hn
    cases hn

/-- Without cgroups, a process of the job outlives the stop of its child. -/
theorem job_survives : ∃ l₁ tr l₂ w os c, Lts.Run (@step recordCodec) (World.start .new) (l₁ ++ tr :: l₂) w ∧
    tr.act = .sched 1 os ∧ tr.pre.tasks 1 = some (.stop 2) ∧
    tr.pre.entry 2 = some ⟨c.pid, .running, some 0, some 0, 0, true⟩ ∧
    tr.pre.mgr.children = [c] ∧ c.handle = 2 ∧ w.mgr.cgroups = none ∧
    Terminated 1 2 c.pid w ∧ ExitRecorded l₂ 2 0 ∧ ¬ Reaping 2 0 w ∧
    ¬ TakenDown (l₁ ++ tr :: l₂) 0 ⟨[200], []⟩ := by
  obtain ⟨l, w, hr, hp⟩ := Lts.run_of_exec (@step recordCodec) (World.start .new) (exitsOnTerm 2)
    (fun p => stoppedRun 2 p && killsNothing p.1 && p.2.mgr.cgroups.isNone) (by decide)
  rw [Bool.and_eq_true, Bool.and_eq_true, Option.isNone_iff_eq_none] at hp
  obtain ⟨⟨hstop, hnothing⟩, hcg⟩ := hp
  obtain ⟨tr, os, -, hl, hact, ht, he, hchildren, hrec, hend, hnot⟩ :=
    @stoppedRun_spec recordCodec _ (.inl rfl) _ _ _ hr hstop
  refine ⟨l.take 7, tr, l.drop 8, w, os, ⟨2, restartSpec, 100, none⟩, ?_, hact, ht, he, hchildren, rfl,
    hcg, hend _, hrec, hnot, ?_⟩
  · rw [← hl]
    exact hr
  · rw [← hl]
    intro htaken
    rcases htaken 200 (List.mem_singleton.mpr rfl) with hexited | hk
    · cases hexited
    · exact killsNothing_spec hnothing 0 hk

end MeshSupervisor
