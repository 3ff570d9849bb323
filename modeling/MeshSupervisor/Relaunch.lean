import Mathlib.Data.List.Induction
import MeshSupervisor.Lifecycle

/-! # When a child is relaunched

The closed form of the decisions of `supervise`: which exits are followed by a relaunch and
after which delay, in terms of the exits handled so far.

* `fastRun` counts the exits since the last one after a stable run, `granted` says that
  neither the policy nor the retry cap has ended the task up to an exit, and
  `backoffSeconds` is the delay.
* `checkedAttempt` and `checkedDelay` are the source's machine arithmetic, which fails on an
  overflow; with fewer than `2 ^ 32` exits it never does.
* `restarts_exact`: along every run in which the handle is not stopped or forgotten, the
  supervisor is not shut down and the handle's launches succeed, `supervise` relaunches as
  the closed form says. -/

namespace MeshSupervisor

open Wire (Codec)

/-! ### The closed form -/

/-- An exit as `supervise` handles it: the uptime and the exit code. -/
abbrev Handled := Duration × Option ℤ

/-- The exits since the last one that came after a stable run, that one included; all of
them if there was none. -/
def fastRun (exits : List Handled) : ℕ :=
  match exits.reverse.findIdx? (fun x => decide (stableReset ≤ x.1)) with
  | some i => i + 1
  | none => exits.length

/-- Exit `k` itself warrants a relaunch: by the policy, and within the cap. -/
def allowed (spec : Spec) (exits : List Handled) (k : ℕ) : Bool :=
  (exits[k]?).any (fun x => shouldRestart spec.policy x.2) &&
    (spec.maxRetries == 0 || decide (fastRun (exits.take (k + 1)) ≤ spec.maxRetries))

/-- Every exit up to exit `k` warrants a relaunch. -/
def granted (spec : Spec) (exits : List Handled) (k : ℕ) : Bool :=
  (List.range (k + 1)).all (allowed spec exits)

/-- The delay before the relaunch after exit `k`. -/
def backoffSeconds (exits : List Handled) (k : ℕ) : ℕ :=
  min (2 ^ (fastRun (exits.take (k + 1)) - 1)) 30

theorem fastRun_append (exits : List Handled) (x : Handled) :
    fastRun (exits ++ [x]) = nextAttempt (fastRun exits) x.1 := by
  unfold fastRun nextAttempt
  rw [List.reverse_append, List.reverse_singleton, List.singleton_append, List.findIdx?_cons]
  by_cases hx : stableReset ≤ x.1
  · rw [if_pos hx, if_pos (decide_eq_true hx)]
  · rw [if_neg hx, if_neg (by simpa using hx)]
    cases exits.reverse.findIdx? (fun x => decide (stableReset ≤ x.1)) with
    | none => simp only [Option.map_none, List.length_append, List.length_singleton]
    | some i => rfl

theorem fastRun_le (exits : List Handled) : fastRun exits ≤ exits.length := by
  induction exits using List.reverseRecOn with
  | nil => exact Nat.zero_le _
  | append_singleton exits x ih =>
      rw [fastRun_append, nextAttempt, List.length_append, List.length_singleton]
      split_ifs <;> omega

theorem fastRun_take_succ {exits : List Handled} {k : ℕ} {x : Handled} (h : exits[k]? = some x) :
    fastRun (exits.take (k + 1)) = nextAttempt (fastRun (exits.take k)) x.1 := by
  rw [List.take_add_one, h, Option.toList_some, fastRun_append]

theorem one_le_fastRun_take_succ {exits : List Handled} {k : ℕ} (h : k < exits.length) :
    1 ≤ fastRun (exits.take (k + 1)) := by
  rw [fastRun_take_succ (List.getElem?_eq_getElem h), nextAttempt]
  split_ifs <;> omega

theorem allowed_append {spec : Spec} {exits : List Handled} (x : Handled) {k : ℕ}
    (h : k < exits.length) : allowed spec (exits ++ [x]) k = allowed spec exits k := by
  unfold allowed
  rw [List.getElem?_append_left h, List.take_append_of_le_length (by omega)]

theorem allowed_last (spec : Spec) (exits : List Handled) (x : Handled) :
    allowed spec (exits ++ [x]) exits.length = (shouldRestart spec.policy x.2 &&
      (spec.maxRetries == 0 || decide (nextAttempt (fastRun exits) x.1 ≤ spec.maxRetries))) := by
  unfold allowed
  rw [List.getElem?_append_right le_rfl, Nat.sub_self, List.take_of_length_le (by simp),
    fastRun_append]
  rfl

theorem granted_iff {spec : Spec} {exits : List Handled} {k : ℕ} :
    granted spec exits k = true ↔ ∀ j ≤ k, allowed spec exits j = true := by
  simp only [granted, List.all_eq_true, List.mem_range, Nat.lt_succ_iff]

theorem granted_append {spec : Spec} {exits : List Handled} (x : Handled) {k : ℕ}
    (h : k < exits.length) : granted spec (exits ++ [x]) k = granted spec exits k := by
  rw [Bool.eq_iff_iff, granted_iff, granted_iff]
  have hsame : ∀ j ≤ k, allowed spec (exits ++ [x]) j = allowed spec exits j := by
    intro j hj
    exact allowed_append x (by omega)
  constructor
  · intro hall j hj
    rw [← hsame j hj]
    exact hall j hj
  · intro hall j hj
    rw [hsame j hj]
    exact hall j hj

theorem backoffSeconds_append {exits : List Handled} (x : Handled) {k : ℕ}
    (h : k < exits.length) : backoffSeconds (exits ++ [x]) k = backoffSeconds exits k := by
  unfold backoffSeconds
  rw [List.take_append_of_le_length (by omega)]

/-- The capped shift and the capped product are a capped power. -/
theorem backoffDelay_eq {attempt : ℕ} : backoffDelay attempt =
    .fromSecs (min (2 ^ (attempt - 1)) 30) := by
  unfold backoffDelay restartBase restartMax Duration.fromSecs
  rcases Nat.le_total (attempt - 1) 5 with hle | hge
  · rw [min_eq_left hle, one_mul, mul_comm, ← Nat.mul_min_mul_right]
  · have hpow : 2 ^ 5 ≤ 2 ^ (attempt - 1) := Nat.pow_le_pow_right (by omega) hge
    rw [min_eq_right hge, min_eq_right (by omega : 30 ≤ 2 ^ (attempt - 1))]
    rfl

/-! ### Machine arithmetic -/

/-- `attempt + 1` in `u32`, unless the counter is reset; `none`: an overflow. -/
def checkedAttempt (attempt : ℕ) (uptime : Duration) : Option ℕ :=
  if stableReset ≤ uptime then some 1
  else if attempt + 1 < 2 ^ 32 then some (attempt + 1) else none

/-- `(RESTART_BASE * (1 << (attempt - 1).min(5))).min(RESTART_MAX)` with its `u32` subtraction,
shift and factor and its product in the range of a duration; `none`: one of them fails. -/
def checkedDelay (attempt : ℕ) : Option Duration :=
  if attempt < 1 then none
  else if 32 ≤ min (attempt - 1) 5 then none
  else if 2 ^ 32 ≤ 2 ^ min (attempt - 1) 5 then none
  else if 2 ^ 64 * 1000000000 ≤ restartBase * 2 ^ min (attempt - 1) 5 then none
  else some (min (restartBase * 2 ^ min (attempt - 1) 5) restartMax)

theorem checkedAttempt_eq {attempt : ℕ} (h : attempt + 1 < 2 ^ 32) (uptime : Duration) :
    checkedAttempt attempt uptime = some (nextAttempt attempt uptime) := by
  unfold checkedAttempt nextAttempt
  split_ifs <;> rfl

theorem checkedDelay_eq {attempt : ℕ} (h : 1 ≤ attempt) :
    checkedDelay attempt = some (backoffDelay attempt) := by
  have hshift : min (attempt - 1) 5 ≤ 5 := min_le_right _ _
  have hpow : 2 ^ min (attempt - 1) 5 ≤ 2 ^ 5 := Nat.pow_le_pow_right (by omega) hshift
  have hprod : restartBase * 2 ^ min (attempt - 1) 5 ≤ restartBase * 2 ^ 5 :=
    Nat.mul_le_mul_left _ hpow
  unfold checkedDelay
  rw [if_neg (by omega), if_neg (by omega), if_neg (by omega),
    if_neg (not_le.mpr (lt_of_le_of_lt hprod (by decide)))]
  rfl

/-! ### Reading a run -/

/-- The exit that `supervise` of `id` decides on in this transition. -/
def handledIn (id : Handle) (tr : Lts.Tr World Action Event) : Option Handled :=
  match tr.act with
  | .sched t os =>
      match tr.pre.tasks t with
      | some (.supervise s) =>
          match s.pc with
          | .readShutdown code _ => if s.id = id then some (os.uptime, code) else none
          | _ => none
      | _ => none
  | _ => none

/-- The exits of `id` handled in a run, in order. -/
def handled (id : Handle) (l : List (Lts.Tr World Action Event)) : List Handled :=
  l.filterMap (handledIn id)

/-- In this transition `supervise` of `id` calls `launch_child`. -/
def relaunchesIn (id : Handle) (tr : Lts.Tr World Action Event) : Bool :=
  match actor tr with
  | some (.supervise s) =>
      match s.pc with
      | .relaunch _ => decide (s.id = id)
      | _ => false
  | _ => false

/-- How often a run relaunches `id`. -/
def relaunches (id : Handle) (l : List (Lts.Tr World Action Event)) : ℕ := l.countP (relaunchesIn id)

/-- The delays before the relaunches of `id`. -/
def delaysOf (id : Handle) (evs : List Event) : List Duration :=
  evs.filterMap fun
    | .backoff id' delay => if id' = id then some delay else none
    | _ => none

/-- Nobody calls for a stop, a forget or a shutdown, and no launch for `id` fails. -/
def Undisturbed (id : Handle) (tr : Lts.Tr World Action Event) : Prop :=
  (∀ t op, tr.act = .call t op → op ≠ .stop id ∧ op ≠ .forget id ∧ op ≠ .killAll) ∧
    .launchChild id none ∉ tr.evs

/-- Nobody is about to stop or forget `id` or to shut down. -/
structure Quiet (id : Handle) (w : World) : Prop where
  stop : ∀ t, w.tasks t ≠ some (.stop id)
  forget : ∀ t, w.tasks t ≠ some (.forget id)
  killAll : ∀ t, w.tasks t ≠ some .killAll
  shutdown : w.mgr.shutdown = false

section
variable [Codec Record] {m m' : Manager} {os : Os} {task : Task} {next : Option Task}
  {evs : List Event}

theorem Moves.shutdown_eq (hm : Moves m os task m' next evs) :
    m'.shutdown = m.shutdown ∨ task = .killAll := by
  cases hm with
  | spawnFails _ _ _ hl | spawnLaunches _ _ _ _ hl | relaunchFails _ _ _ _ hl
  | relaunches _ _ _ _ _ hl => exact .inl (Manager.launchChild_frame hl).2.2.2
  | stop id _ pid hd => obtain ⟨_, _, rfl, _⟩ := Manager.disarm_ok hd; exact .inl rfl
  | forget id _ hr => obtain ⟨_, _, _, rfl⟩ := Manager.removeEntry_ok hr; exact .inl rfl
  | killAll => exact .inr rfl
  | _ => exact .inl rfl

/-- No task goes on as the first step of a call. -/
theorem Moves.next_ne_call (hm : Moves m os task m' next evs) (op : Call) :
    next ≠ some op.task := by
  intro hn
  cases op <;> cases hm <;> cases hn

theorem Moves.backoff_mem (hm : Moves m os task m' next evs) {id : Handle} {d : Duration}
    (h : .backoff id d ∈ evs) : ∃ s code, task = .supervise s ∧ s.id = id ∧
      s.pc = .readShutdown code true := by
  cases hm with
  | toBackoff s code hpc =>
      simp only [List.mem_singleton, Event.backoff.injEq] at h
      exact ⟨s, code, rfl, h.1.symm, hpc⟩
  | wait s code hpc hx => split_ifs at h <;> simp at h
  | terminateForce id pid => split_ifs at h <;> simp at h
  | _ => simp at h

end

section
variable [Codec Record] {id : Handle} {spec : Spec} {w w' : World} {a : Action} {evs : List Event}

theorem Quiet.keep (h : Quiet id w) (hs : step w a = some (w', evs))
    (hu : Undisturbed id ⟨w, a, evs, w'⟩) : Quiet id w' := by
  -- a new task at the start of a call was called
  have hcall : ∀ t (op : Call), w'.tasks t = some op.task → (op = .stop id ∨ op = .forget id ∨ op = .killAll) →
      w.tasks t = some op.task := by
    intro t op ht hop
    rcases step_moves hs with ⟨t', op', rfl, -, -, rfl⟩ | ⟨t', os, task, m', next, -, -, hm, rfl⟩ |
      ⟨n, code, c, -, -, -, -, rfl⟩
    · rcases tasks_update ht with ⟨-, hn⟩ | ⟨-, ht⟩
      · have hsame : op' = op := by
          have := Option.some.inj hn
          cases op <;> cases op' <;> cases this <;> rfl
        have := hu.1 t' op' rfl
        rw [hsame] at this
        rcases hop with rfl | rfl | rfl
        · exact absurd rfl this.1
        · exact absurd rfl this.2.1
        · exact absurd rfl this.2.2
      · exact ht
    · rcases tasks_update ht with ⟨-, hn⟩ | ⟨-, ht⟩
      · exact absurd hn (hm.next_ne_call op)
      · exact ht
    · exact ht
  refine ⟨?_, ?_, ?_, ?_⟩
  · intro t ht
    exact h.stop t (hcall t (.stop id) ht (.inl rfl))
  · intro t ht
    exact h.forget t (hcall t (.forget id) ht (.inr (.inl rfl)))
  · intro t ht
    exact h.killAll t (hcall t .killAll ht (.inr (.inr rfl)))
  · rcases step_acts hs with ⟨t, os, task, next, -, ht, hm⟩ | ⟨-, -, -, hx, -⟩
    · rcases hm.shutdown_eq with hx | rfl
      · rw [hx, h.shutdown]
      · exact absurd ht (h.killAll t)
    · rw [hx, h.shutdown]

end

/-! ### The task keeps the books -/

def SupPc.outstanding : SupPc → ℕ
  | .backoff _ | .rereadShutdown _ _ | .relaunch _ => 1
  | _ => 0

/-- The relaunch has been made and is not in the table yet. -/
def SupPc.unapplied : SupPc → ℕ
  | .applyLaunch _ _ => 1
  | _ => 0

/-- The last look at `armed`, if its result is still needed, saw it set. -/
def SupPc.sawArmed : SupPc → Bool
  | .readShutdown _ armed | .rereadShutdown _ armed => armed
  | _ => true

/-- The entry of `id` is armed and shows `n` restarts. -/
def ArmedWith (id : Handle) (n : ℕ) (w : World) : Prop :=
  ∃ e, w.mgr.procs.lookup id = some e ∧ e.armed = true ∧ e.restarts = n

/-- Where the task of `id` stands after these exits and `n` relaunches. -/
inductive Restarting (id : Handle) (spec : Spec) (exits : List Handled) (n : ℕ) (w : World) : Prop
  /-- `spawn` has inserted the handle and not returned. -/
  | starting (t : ℕ) (task : Task) : w.tasks t = some task → task.owner = some (id, spec) →
      task.inserted = true → (∀ s, task ≠ .supervise s) → exits = [] → n = 0 →
      ArmedWith id 0 w → Restarting id spec exits n w
  | supervising (t : ℕ) (s : Sup) : w.tasks t = some (.supervise s) → s.id = id → s.spec = spec →
      s.attempt = fastRun exits → (∀ k < exits.length, allowed spec exits k = true) →
      s.pc.sawArmed = true → n + s.pc.outstanding = exits.length →
      ArmedWith id (n - s.pc.unapplied) w → s.pc.unapplied ≤ n → Restarting id spec exits n w
  /-- The last exit was not followed by a relaunch. -/
  | ended : (∀ t task spec', w.tasks t = some task → task.owner ≠ some (id, spec')) →
      (∀ k < n, allowed spec exits k = true) → allowed spec exits n = false →
      n + 1 = exits.length → ArmedWith id n w → Restarting id spec exits n w

section
variable [Codec Record] {id : Handle} {spec : Spec} {w w' : World} {a : Action} {evs : List Event}
  {exits : List Handled} {n : ℕ}

/-- Only the `supervise` task of `id` handles its exits and relaunches it. -/
theorem unhandled (hs : step w a = some (w', evs))
    (hnot : ∀ s, actor ⟨w, a, evs, w'⟩ = some (.supervise s) → s.id ≠ id) :
    handledIn id ⟨w, a, evs, w'⟩ = none ∧ relaunchesIn id ⟨w, a, evs, w'⟩ = false ∧
      delaysOf id evs = [] := by
  refine ⟨?_, ?_, ?_⟩
  · unfold handledIn
    cases a with
    | sched t os =>
        dsimp only
        split
        · rename_i s ht
          split
          · rw [if_neg (hnot s ht)]
          · rfl
        · rfl
    | _ => rfl
  · unfold relaunchesIn
    split
    · rename_i s ht
      split
      · exact decide_eq_false (hnot s ht)
      · rfl
    · rfl
  · refine List.filterMap_eq_nil_iff.mpr ?_
    intro ev hev
    split
    · rename_i id' d
      rw [if_neg]
      rintro rfl
      rcases step_acts hs with ⟨t, os, task, next, rfl, ht, hm⟩ | ⟨-, -, -, -, rfl⟩
      · obtain ⟨s, code, rfl, hid, -⟩ := hm.backoff_mem hev
        exact hnot s ht hid
      · cases hev
    · rfl

theorem other_entry (hq : Quiet id w) (hs : step w a = some (w', evs))
    (hother : ∀ task spec', actor ⟨w, a, evs, w'⟩ = some task → task.owner ≠ some (id, spec')) :
    w'.mgr.procs.lookup id = w.mgr.procs.lookup id := by
  have hnot : ∀ s, actor ⟨w, a, evs, w'⟩ = some (.supervise s) → s.id ≠ id := by
    rintro s ha rfl
    exact hother _ s.spec ha rfl
  rcases step_entry hs id with heq | ⟨t, os, task, rfl, ht, hentry⟩
  · exact heq
  · generalize w.mgr.procs.lookup id = x at hentry ⊢
    generalize w'.mgr.procs.lookup id = y at hentry ⊢
    cases hentry with
    | same => rfl
    | insert spec la => exact absurd rfl (hother _ spec ht)
    | exit s code e hid => exact absurd hid (hnot s ht)
    | relaunch s code la e hid => exact absurd hid (hnot s ht)
    | disarm e => exact absurd ht (hq.stop t)
    | forget e hrun => exact absurd ht (hq.forget t)

theorem Restarting.other (h : Restarting id spec exits n w) (hI : Inv w) (hs : step w a = some (w', evs))
    (hentry : w'.mgr.procs.lookup id = w.mgr.procs.lookup id)
    (hother : ∀ task spec', actor ⟨w, a, evs, w'⟩ = some task → task.owner ≠ some (id, spec')) :
    Restarting id spec exits n w' := by
  have harmed : ∀ {k}, ArmedWith id k w → ArmedWith id k w' := by
    rintro k ⟨e, he, hrest⟩
    exact ⟨e, hentry.trans he, hrest⟩
  have hstays : ∀ t task, w.tasks t = some task → task.owner = some (id, spec) →
      w'.tasks t = some task := by
    intro t task ht ho
    rcases step_tasks hs ht with ht' | ⟨os, rfl⟩
    · exact ht'
    · exact absurd ho (hother task spec ht)
  cases h with
  | starting t task ht ho hi hsup hnil hzero he =>
      exact .starting t task (hstays t task ht ho) ho hi hsup hnil hzero (harmed he)
  | supervising t s ht hid hspec hatt hall hsaw hn he hle =>
      refine .supervising t s (hstays t _ ht ?_) hid hspec hatt hall hsaw hn (harmed he) hle
      rw [← hid, ← hspec]
      rfl
  | ended hfree hall hlast hn he =>
      refine .ended ?_ hall hlast hn (harmed he)
      intro t task spec' ht ho
      rcases task_origin hs ht with ht | ⟨op, rfl⟩ | ⟨os, task₀, rfl, ht₀, hm, -⟩
      · exact hfree t task spec' ht ho
      · rw [op.task_owner] at ho
        cases ho
      · rcases hm.owner rfl ho with ho' | ⟨spec₀, rfl, heq⟩
        · exact hfree t task₀ spec' ht₀ ho'
        · -- a new handle is not in the table
          obtain ⟨e, he', -⟩ := he
          have hle := hI.key_le id e he'
          have hid := (Prod.mk.inj heq).1
          lia

def grantedDelays (spec : Spec) (exits : List Handled) : List Duration :=
  ((List.range exits.length).filter (granted spec exits)).map
    (fun k => .fromSecs (backoffSeconds exits k))

omit [Codec Record] in
theorem grantedDelays_append (spec : Spec) (exits : List Handled) (x : Handled) :
    grantedDelays spec (exits ++ [x]) = grantedDelays spec exits ++
      if granted spec (exits ++ [x]) exits.length then
        [.fromSecs (backoffSeconds (exits ++ [x]) exits.length)] else [] := by
  have hold : ((List.range exits.length).filter (granted spec (exits ++ [x]))).map
      (fun k => Duration.fromSecs (backoffSeconds (exits ++ [x]) k)) = grantedDelays spec exits := by
    unfold grantedDelays
    rw [List.filter_congr (fun k hk => granted_append x (List.mem_range.mp hk))]
    refine List.map_congr_left ?_
    intro k hk
    rw [backoffSeconds_append x (List.mem_range.mp (List.mem_filter.mp hk).1)]
  rw [← hold]
  unfold grantedDelays
  rw [List.length_append, List.length_singleton, List.range_succ, List.filter_append, List.map_append,
    List.filter_singleton]
  cases granted spec (exits ++ [x]) exits.length <;> rfl

/-- What a transition adds to the books. -/
def Booked (id : Handle) (spec : Spec) (exits : List Handled) (n : ℕ)
    (tr : Lts.Tr World Action Event) : Prop :=
  Restarting id spec (exits ++ (handledIn id tr).toList) (n + (relaunchesIn id tr).toNat) tr.post ∧
    grantedDelays spec (exits ++ (handledIn id tr).toList) =
      grantedDelays spec exits ++ delaysOf id tr.evs

omit [Codec Record] in
theorem Booked.quiet {tr : Lts.Tr World Action Event} (h : Restarting id spec exits n tr.post)
    (hx : handledIn id tr = none) (hn : relaunchesIn id tr = false) (hd : delaysOf id tr.evs = []) :
    Booked id spec exits n tr := by
  unfold Booked
  rw [hx, hn, hd, Option.toList_none, List.append_nil, List.append_nil]
  exact ⟨h, rfl⟩

omit [Codec Record] in
theorem granted_last {x : Handled} (hall : ∀ k < exits.length, allowed spec exits k = true) :
    granted spec (exits ++ [x]) exits.length = allowed spec (exits ++ [x]) exits.length := by
  rw [Bool.eq_iff_iff, granted_iff]
  constructor
  · intro h
    exact h exits.length le_rfl
  · intro h k hk
    rcases Nat.lt_or_eq_of_le hk with hlt | rfl
    · rw [allowed_append x hlt]
      exact hall k hlt
    · exact h

omit [Codec Record] in
theorem Booked.exit {tr : Lts.Tr World Action Event} {x : Handled}
    (h : Restarting id spec (exits ++ [x]) n tr.post) (hx : handledIn id tr = some x)
    (hn : relaunchesIn id tr = false)
    (hall : ∀ k < exits.length, allowed spec exits k = true)
    (hd : delaysOf id tr.evs = if allowed spec (exits ++ [x]) exits.length then
      [.fromSecs (backoffSeconds (exits ++ [x]) exits.length)] else []) :
    Booked id spec exits n tr := by
  unfold Booked
  rw [hx, hn, Option.toList_some, grantedDelays_append, granted_last hall, hd]
  exact ⟨h, rfl⟩

omit [Codec Record] in
theorem Booked.ends {tr : Lts.Tr World Action Event} {x : Handled}
    (hall : ∀ k < exits.length, allowed spec exits k = true)
    (hlast : allowed spec (exits ++ [x]) exits.length = false)
    (hfree : ∀ t task spec', tr.post.tasks t = some task → task.owner ≠ some (id, spec'))
    (he : ArmedWith id exits.length tr.post) (hx : handledIn id tr = some x)
    (hn : relaunchesIn id tr = false) (hd : delaysOf id tr.evs = []) :
    Booked id spec exits exits.length tr := by
  have hbefore : ∀ k < exits.length, allowed spec (exits ++ [x]) k = true := by
    intro k hk
    rw [allowed_append x hk]
    exact hall k hk
  refine Booked.exit (.ended hfree hbefore hlast (by simp) he) hx hn hall ?_
  rw [hlast, hd]
  rfl

section Acting

variable {t : ℕ} {os : Os} {s : Sup} {m' : Manager} {next : Option Task}

omit [Codec Record] in
theorem handledIn_supervise (ht : w.tasks t = some (.supervise s)) :
    handledIn id ⟨w, .sched t os, evs, w'⟩ =
      match s.pc with
      | .readShutdown code _ => if s.id = id then some (os.uptime, code) else none
      | _ => none := by
  simp only [handledIn, ht]

omit [Codec Record] in
theorem relaunchesIn_supervise (ht : w.tasks t = some (.supervise s)) :
    relaunchesIn id ⟨w, .sched t os, evs, w'⟩ =
      match s.pc with
      | .relaunch _ => decide (s.id = id)
      | _ => false := by
  simp only [relaunchesIn, actor, ht]

omit [Codec Record] in
/-- The task goes on from `s` to `s'`, with an entry that shows the same. -/
theorem Restarting.goOn {s' : Sup} (hid : s.id = id) (hspec : s.spec = spec)
    (hatt : s.attempt = fastRun exits) (hall : ∀ k < exits.length, allowed spec exits k = true)
    (hs' : s'.id = s.id ∧ s'.spec = s.spec ∧ s'.attempt = s.attempt) (hsaw : s'.pc.sawArmed = true)
    (hn : n + s'.pc.outstanding = exits.length)
    (he : ArmedWith id (n - s'.pc.unapplied) ⟨m', Function.update w.tasks t (some (.supervise s'))⟩)
    (hle : s'.pc.unapplied ≤ n) :
    Restarting id spec exits n ⟨m', Function.update w.tasks t (some (.supervise s'))⟩ :=
  .supervising t s' (Function.update_self ..) (hs'.1.trans hid) (hs'.2.1.trans hspec)
    (hs'.2.2.trans hatt) hall hsaw hn he hle

theorem Restarting.supervise (hI : Inv w) (hq : Quiet id w) (ht : w.tasks t = some (.supervise s))
    (hid : s.id = id) (hspec : s.spec = spec) (hatt : s.attempt = fastRun exits)
    (hall : ∀ k < exits.length, allowed spec exits k = true) (hsaw : s.pc.sawArmed = true)
    (hn : n + s.pc.outstanding = exits.length) (he : ArmedWith id (n - s.pc.unapplied) w)
    (hle : s.pc.unapplied ≤ n) (hm : Moves w.mgr os (.supervise s) m' next evs)
    (hu : .launchChild id none ∉ evs) :
    Booked id spec exits n ⟨w, .sched t os, evs, ⟨m', Function.update w.tasks t next⟩⟩ := by
  obtain ⟨e, hlook, harmed, hrest⟩ := he
  have hsd := hq.shutdown
  -- the task is the only one that works on the handle
  have hfree : ∀ t' task spec', Function.update w.tasks t none t' = some task →
      task.owner ≠ some (id, spec') := by
    intro t' task spec' ht' ho
    rcases tasks_update ht' with ⟨-, hx⟩ | ⟨hne, ht'⟩
    · cases hx
    · exact hne (hI.unique t' t task _ id spec' s.spec ht' ht ho (by rw [← hid]; rfl))
  cases hm with
  | wait _ code hpc hx =>
      rw [hpc] at hn hrest hle
      refine Booked.quiet (.goOn hid hspec hatt hall ⟨rfl, rfl, rfl⟩ rfl hn ?_ hle)
        (by rw [handledIn_supervise ht, hpc]) (by rw [relaunchesIn_supervise ht, hpc]) ?_
      · refine ⟨{ e with status := .exited code }, ?_, harmed, hrest⟩
        rw [Manager.lookup_recordExit, hid, if_pos rfl, hlook]
        rfl
      · dsimp only
        split_ifs <;> rfl
  | saveExit _ code hpc | removeLeaf _ code hpc =>
      rw [hpc] at hn hrest hle
      exact Booked.quiet (.goOn hid hspec hatt hall ⟨rfl, rfl, rfl⟩ rfl hn ⟨e, hlook, harmed, hrest⟩ hle)
        (by rw [handledIn_supervise ht, hpc]) (by rw [relaunchesIn_supervise ht, hpc]) rfl
  | readArmed _ code hpc | backoff _ code hpc =>
      rw [hpc] at hn hrest hle
      have hisArmed : w.mgr.isArmed s.id = true :=
        Manager.isArmed_iff.mpr ⟨e, by rw [hid]; exact hlook, harmed⟩
      exact Booked.quiet (.goOn hid hspec hatt hall ⟨rfl, rfl, rfl⟩ hisArmed hn
        ⟨e, hlook, harmed, hrest⟩ hle)
        (by rw [handledIn_supervise ht, hpc]) (by rw [relaunchesIn_supervise ht, hpc]) rfl
  | finished _ code armed hpc hstop =>
      rw [hpc] at hsaw hn hrest
      obtain rfl : armed = true := hsaw
      obtain rfl : n = exits.length := hn
      rw [hsd, hspec] at hstop
      have hlast : allowed spec (exits ++ [(os.uptime, code)]) exits.length = false := by
        rw [allowed_last]
        simp only [Bool.false_or, Bool.not_true, Bool.not_eq_true'] at hstop
        rw [hstop, Bool.false_and]
      exact Booked.ends hall hlast hfree ⟨e, hlook, harmed, hrest⟩
        (by rw [handledIn_supervise ht, hpc, hid]; exact if_pos rfl)
        (by rw [relaunchesIn_supervise ht, hpc]) rfl
  | capHit _ code hpc _ hr hmax hcap =>
      rw [hpc] at hn hrest
      obtain rfl : n = exits.length := hn
      rw [hspec, hatt] at hcap
      rw [hspec] at hmax
      have hlast : allowed spec (exits ++ [(os.uptime, code)]) exits.length = false := by
        rw [allowed_last]
        simp only [Bool.and_eq_false_iff, Bool.or_eq_false_iff, beq_eq_false_iff_ne,
          decide_eq_false_iff_not, not_le]
        exact .inr ⟨hmax, hcap⟩
      exact Booked.ends hall hlast hfree ⟨e, hlook, harmed, hrest⟩
        (by rw [handledIn_supervise ht, hpc, hid]; exact if_pos rfl)
        (by rw [relaunchesIn_supervise ht, hpc]) rfl
  | toBackoff _ code hpc _ hr hcap =>
      rw [hpc] at hn hrest
      obtain rfl : n = exits.length := hn
      rw [hspec, hatt] at hcap
      have hlast : allowed spec (exits ++ [(os.uptime, code)]) exits.length = true := by
        rw [hspec] at hr
        rw [allowed_last]
        simp only [hr, Bool.true_and, Bool.or_eq_true, beq_iff_eq, decide_eq_true_eq]
        exact hcap
      have hattempt : nextAttempt s.attempt os.uptime = fastRun (exits ++ [(os.uptime, code)]) := by
        rw [hatt, fastRun_append]
      refine Booked.exit (x := (os.uptime, code)) ?_
        (by rw [handledIn_supervise ht, hpc, hid]; exact if_pos rfl)
        (by rw [relaunchesIn_supervise ht, hpc]) hall ?_
      · refine .supervising t _ (Function.update_self ..) hid hspec hattempt ?_ rfl (by simp [SupPc.outstanding])
          ⟨e, hlook, harmed, hrest⟩ (Nat.zero_le _)
        intro k hk
        rw [List.length_append, List.length_singleton] at hk
        rcases Nat.lt_or_eq_of_le (Nat.lt_succ_iff.mp hk) with hlt | rfl
        · rw [allowed_append _ hlt]
          exact hall k hlt
        · exact hlast
      · rw [hlast, if_pos rfl, hattempt, backoffDelay_eq, backoffSeconds,
          List.take_of_length_le (by simp), hid]
        simp only [delaysOf, List.filterMap_cons, List.filterMap_nil, if_true]
  | dropped _ code armed hpc hstop =>
      rw [hpc] at hsaw
      obtain rfl : armed = true := hsaw
      rw [hsd] at hstop
      cases hstop
  | toRelaunch _ code hpc =>
      rw [hpc] at hn hrest hle
      exact Booked.quiet (.goOn hid hspec hatt hall ⟨rfl, rfl, rfl⟩ rfl hn ⟨e, hlook, harmed, hrest⟩ hle)
        (by rw [handledIn_supervise ht, hpc]) (by rw [relaunchesIn_supervise ht, hpc]) rfl
  | relaunchFails _ code _ hpc hl => exact absurd (by rw [hid]; exact List.mem_singleton.mpr rfl) hu
  | relaunches _ code _ la hpc hl =>
      rw [hpc] at hn hrest
      have hframe := (Manager.launchChild_frame hl).1
      unfold Booked
      rw [handledIn_supervise ht, relaunchesIn_supervise ht, hpc]
      dsimp only
      rw [Option.toList_none, List.append_nil, decide_eq_true hid]
      refine ⟨.goOn hid hspec hatt hall ⟨rfl, rfl, rfl⟩ rfl hn ?_ (Nat.le_add_left _ _), ?_⟩
      · exact ⟨e, by rw [hframe]; exact hlook, harmed, hrest⟩
      · exact (List.append_nil _).symm
  | applyLaunch _ code la hpc =>
      rw [hpc] at hn hrest hle
      refine Booked.quiet (.goOn hid hspec hatt hall ⟨rfl, rfl, rfl⟩ rfl hn ?_ (Nat.zero_le _))
        (by rw [handledIn_supervise ht, hpc]) (by rw [relaunchesIn_supervise ht, hpc]) rfl
      refine ⟨{ e with
          pid := la.pid
          status := .running
          stdin := some la.stdin
          stdout := some la.stdout
          restarts := e.restarts + 1 }, ?_, harmed, ?_⟩
      · rw [Manager.lookup_applyLaunch, hid, if_pos rfl, hlook]
        rfl
      · show e.restarts + 1 = n
        rw [hrest]
        exact Nat.sub_add_cancel hle
  | saveLaunch _ la hpc =>
      rw [hpc] at hn hrest hle
      exact Booked.quiet (.goOn hid hspec hatt hall ⟨rfl, rfl, rfl⟩ rfl hn ⟨e, hlook, harmed, hrest⟩ hle)
        (by rw [handledIn_supervise ht, hpc]) (by rw [relaunchesIn_supervise ht, hpc]) rfl

end Acting

theorem Restarting.step (h : Restarting id spec exits n w) (hI : Inv w) (hq : Quiet id w)
    (hs : step w a = some (w', evs)) (hu : Undisturbed id ⟨w, a, evs, w'⟩) :
    Booked id spec exits n ⟨w, a, evs, w'⟩ := by
  by_cases hown : ∃ task spec', actor ⟨w, a, evs, w'⟩ = some task ∧ task.owner = some (id, spec')
  · obtain ⟨task, spec', hact, ho⟩ := hown
    obtain ⟨t, os, m', next, rfl, ht, hm, rfl⟩ := step_of_actor hs hact
    cases h with
    | starting t₀ task₀ ht₀ ho₀ hi hsup hnil hzero he =>
        obtain rfl := hI.unique t t₀ _ _ id _ _ ht ht₀ ho ho₀
        obtain rfl := Option.some.inj (ht.symm.trans ht₀)
        subst hnil hzero
        obtain ⟨hx, hn, hd⟩ := unhandled hs (fun s hact =>
          absurd (Option.some.inj (ht.symm.trans hact)) (hsup s))
        cases hm with
        | spawnSave id' spec₀ la =>
            exact Booked.quiet (.starting t _ (Function.update_self ..) ho₀ rfl
              (fun s hx => by cases hx) rfl rfl he) hx hn hd
        | spawnReturn id' spec₀ la =>
            obtain ⟨rfl, rfl⟩ := Prod.mk.inj (Option.some.inj ho₀)
            refine Booked.quiet (.supervising t _ (Function.update_self ..) rfl rfl rfl ?_ rfl rfl he
              le_rfl) hx hn hd
            intro k hk
            exact absurd hk (Nat.not_lt_zero k)
        | spawnFails | spawnLaunches | spawnInsert => cases hi
        | _ => first
            | (cases ho; done)
            | exact absurd rfl (hsup _)
    | supervising t₀ s ht₀ hid hspec hatt hall hsaw hn he hle =>
        obtain rfl := hI.unique t t₀ _ _ id _ _ ht ht₀ ho (by rw [← hid]; rfl)
        obtain rfl := Option.some.inj (ht.symm.trans ht₀)
        exact Restarting.supervise hI hq ht hid hspec hatt hall hsaw hn he hle hm hu.2
    | ended hfree => exact absurd ho (hfree t task spec' ht)
  · have hother : ∀ task spec', actor ⟨w, a, evs, w'⟩ = some task → task.owner ≠ some (id, spec') :=
      fun task spec' hact ho => hown ⟨task, spec', hact, ho⟩
    have hnot : ∀ s, actor ⟨w, a, evs, w'⟩ = some (.supervise s) → s.id ≠ id := by
      rintro s hact rfl
      exact hother _ s.spec hact rfl
    obtain ⟨hx, hn, hd⟩ := unhandled hs hnot
    exact Booked.quiet (h.other hI hs (other_entry hq hs hother) hother) hx hn hd

end

/-! ### Along a run -/

def RelaunchedBy (t : ℕ) (id : Handle) [Codec Record] (w : World) : Prop :=
  ∃ l w', Lts.Run step w l w' ∧ (∀ tr ∈ l, ∃ os, tr.act = .sched t os) ∧ relaunches id l = 1

/-- The relaunch after the last exit is still to be made, and the task makes it by going on. -/
def Relaunching (id : Handle) [Codec Record] (w : World) : Prop :=
  ∃ t s, w.tasks t = some (.supervise s) ∧ s.id = id ∧ s.pc.outstanding = 1 ∧ RelaunchedBy t id w

/-- What the run `l` to `w` does with the exits of `id`. -/
structure RestartsExactly (id : Handle) (spec : Spec) [Codec Record] (w : World)
    (l : List (Lts.Tr World Action Event)) : Prop where
  /-- Relaunch `k` comes between exit `k` and the next one. -/
  order : relaunches id l ≤ (handled id l).length ∧ (handled id l).length ≤ relaunches id l + 1
  sound : ∀ k < relaunches id l, granted spec (handled id l) k = true
  complete : ∀ k < (handled id l).length, granted spec (handled id l) k = true →
    k < relaunches id l ∨ Relaunching id w
  delays : delaysOf id (Lts.events l) = grantedDelays spec (handled id l)
  arithmetic : ∀ k x, (handled id l)[k]? = some x →
    checkedAttempt (fastRun ((handled id l).take k)) x.1 =
        some (fastRun ((handled id l).take (k + 1))) ∧
      checkedDelay (fastRun ((handled id l).take (k + 1))) =
        some (.fromSecs (backoffSeconds (handled id l) k))
  restarts : ∃ e, w.entry id = some e ∧ (e.restarts = relaunches id l ∨
    e.restarts + 1 = relaunches id l ∧ ∃ t s code la, w.tasks t = some (.supervise s) ∧ s.id = id ∧
      s.pc = .applyLaunch code la)

section
variable [Codec Record] {id : Handle} {spec : Spec} {w₀ w w' : World}
  {l : List (Lts.Tr World Action Event)} {exits : List Handled} {n : ℕ}

omit [Codec Record] in
theorem Restarting.entry (h : Restarting id spec exits n w) : ∃ k, ArmedWith id k w := by
  cases h with
  | starting _ _ _ _ _ _ _ _ he => exact ⟨_, he⟩
  | supervising _ _ _ _ _ _ _ _ _ he _ => exact ⟨_, he⟩
  | ended _ _ _ _ he => exact ⟨_, he⟩

theorem restarting_run (h₀ : Initial w₀) (hr : Lts.Run step w₀ l w)
    (hu : ∀ tr ∈ l, Undisturbed id tr) :
    Quiet id w ∧
    (∀ spec, Inserted id spec l → Restarting id spec (handled id l) (relaunches id l) w ∧
      grantedDelays spec (handled id l) = delaysOf id (Lts.events l)) ∧
    ((∀ spec, ¬ Inserted id spec l) → handled id l = [] ∧ relaunches id l = 0 ∧
      delaysOf id (Lts.events l) = []) := by
  induction hr with
  | nil =>
      refine ⟨⟨?_, ?_, ?_, ?_⟩, ?_, fun _ => ⟨rfl, rfl, rfl⟩⟩
      · intro t ht
        rw [h₀.idle.1 t] at ht
        cases ht
      · intro t ht
        rw [h₀.idle.1 t] at ht
        cases ht
      · intro t ht
        rw [h₀.idle.1 t] at ht
        cases ht
      · rcases h₀ with rfl | ⟨st, loaded, cg, -, rfl⟩ <;> rfl
      · rintro spec ⟨tr, htr, -⟩
        cases htr
  | @snoc l w w' a evs hr hs ih =>
      obtain ⟨hq, hins, hnot⟩ := ih (fun tr htr => hu tr (List.mem_append_left _ htr))
      have hu' := hu ⟨w, a, evs, w'⟩ (List.mem_append_right _ (List.mem_singleton.mpr rfl))
      have hI := (inv_run h₀ hr).1
      have hhandled : handled id (l ++ [⟨w, a, evs, w'⟩]) =
          handled id l ++ (handledIn id ⟨w, a, evs, w'⟩).toList := by
        unfold handled
        rw [List.filterMap_append]
        cases hx : handledIn id ⟨w, a, evs, w'⟩ <;> simp [hx]
      have hrelaunches : relaunches id (l ++ [⟨w, a, evs, w'⟩]) =
          relaunches id l + (relaunchesIn id ⟨w, a, evs, w'⟩).toNat := by
        unfold relaunches
        rw [List.countP_append, List.countP_singleton]
        cases relaunchesIn id ⟨w, a, evs, w'⟩ <;> rfl
      have hdelays : delaysOf id (Lts.events (l ++ [⟨w, a, evs, w'⟩])) =
          delaysOf id (Lts.events l) ++ delaysOf id evs := by
        rw [Lts.events_append, Lts.events_cons, Lts.events_nil, List.append_nil]
        exact List.filterMap_append
      -- a `supervise` task of the handle acts only after the insertion
      have hquiet : (∀ spec, ¬ Inserted id spec l) → handledIn id ⟨w, a, evs, w'⟩ = none ∧
          relaunchesIn id ⟨w, a, evs, w'⟩ = false ∧ delaysOf id evs = [] := by
        intro hno
        refine unhandled hs ?_
        rintro s hact rfl
        cases a with
        | sched t os =>
            exact hno s.spec ((lifecycle_tasks h₀ hr t _ s.id s.spec hact rfl).2 rfl)
        | _ => cases hact
      refine ⟨hq.keep hs hu', ?_, ?_⟩
      · rintro spec ⟨tr, htr, la, hact⟩
        rw [hhandled, hrelaunches, hdelays]
        rcases List.mem_append.mp htr with htr | htr
        · obtain ⟨h, hd⟩ := hins spec ⟨tr, htr, la, hact⟩
          obtain ⟨h', hd'⟩ := h.step hI hq hs hu'
          exact ⟨h', by rw [hd', hd]⟩
        · obtain rfl := List.mem_singleton.mp htr
          cases a with
          | sched t os =>
              have ht : w.tasks t = some (.spawnInsert id spec la) := hact
              -- the handle was not inserted before
              have hno : ∀ spec', ¬ Inserted id spec' l := by
                intro spec' hins'
                obtain ⟨k, e, he, -⟩ := (hins spec' hins').1.entry
                have hnone : w.mgr.procs.lookup id = none := hI.agrees t _ ht
                rw [hnone] at he
                cases he
              obtain ⟨h1, h2, h3⟩ := hnot hno
              obtain ⟨g1, g2, g3⟩ := hquiet hno
              rw [h1, h2, h3, g1, g2, g3]
              refine ⟨?_, rfl⟩
              obtain ⟨m', next, hm, rfl⟩ := step_of_task hs ht
              cases hm
              refine .starting t _ (Function.update_self ..) rfl rfl (fun s hx => by cases hx) rfl rfl
                ⟨_, (w.mgr.lookup_insertEntry id id la).trans (if_pos rfl), rfl, rfl⟩
          | _ => cases hact
      · intro hno
        have hno' : ∀ spec, ¬ Inserted id spec l := by
          rintro spec ⟨tr, htr, hact⟩
          exact hno spec ⟨tr, List.mem_append_left _ htr, hact⟩
        obtain ⟨h1, h2, h3⟩ := hnot hno'
        obtain ⟨g1, g2, g3⟩ := hquiet hno'
        rw [hhandled, hrelaunches, hdelays, h1, h2, h3, g1, g2, g3]
        exact ⟨rfl, rfl, rfl⟩

theorem RelaunchedBy.after {t : ℕ} {os : Os} {evs : List Event} (h : RelaunchedBy t id w')
    (hs : step w (.sched t os) = some (w', evs))
    (hn : relaunchesIn id ⟨w, .sched t os, evs, w'⟩ = false) : RelaunchedBy t id w := by
  obtain ⟨l, w'', hr, hact, hcount⟩ := h
  refine ⟨_, w'', Lts.Run.cons hs hr, ?_, ?_⟩
  · intro tr htr
    rcases List.mem_cons.mp htr with rfl | htr
    · exact ⟨os, rfl⟩
    · exact hact tr htr
  · rw [relaunches, List.countP_cons, hn, ← relaunches, hcount]
    rfl

/-- Nothing keeps the task from a relaunch it has decided on. -/
theorem relaunchedBy {t : ℕ} {s : Sup} (ht : w.tasks t = some (.supervise s)) (hid : s.id = id)
    (hsd : w.mgr.shutdown = false) (harmed : w.mgr.isArmed s.id = true) (hsaw : s.pc.sawArmed = true)
    (hpc : s.pc.outstanding = 1) : RelaunchedBy t id w := by
  have hrelaunch : ∀ (w : World) (s : Sup) (code : Option ℤ), w.tasks t = some (.supervise s) →
      s.id = id → s.pc = .relaunch code → RelaunchedBy t id w := by
    intro w s code ht hid hpc
    let l : Launched := ⟨w.mgr.children.length, 1, w.mgr.children.length, w.mgr.children.length⟩
    have hadv : advance w.mgr { spawn := some 1 } (.supervise s) =
        some ((w.mgr.launchChild s.id s.spec { spawn := some 1 }).1,
          some (.supervise { s with pc := .applyLaunch code l }), [.launchChild s.id (some l)]) := by
      simp only [advance, Sup.advance, hpc]
      rfl
    refine ⟨_, _, Lts.Run.single (step_sched _ _ ht hadv), ?_, ?_⟩
    · intro tr htr
      obtain rfl := List.mem_singleton.mp htr
      exact ⟨_, rfl⟩
    · rw [relaunches, List.countP_singleton, relaunchesIn_supervise ht, hpc]
      simp only [hid, decide_true, if_true]
  have hreread : ∀ (w : World) (s : Sup) (code : Option ℤ), w.tasks t = some (.supervise s) →
      s.id = id → w.mgr.shutdown = false → s.pc = .rereadShutdown code true → RelaunchedBy t id w := by
    intro w s code ht hid hsd hpc
    have hadv : advance w.mgr {} (.supervise s) =
        some (w.mgr, some (.supervise { s with pc := .relaunch code }), []) := by
      simp [advance, Sup.advance, hpc, hsd]
    have hnext := hrelaunch ⟨w.mgr, Function.update w.tasks t (some (.supervise { s with pc := .relaunch code }))⟩
      { s with pc := .relaunch code } code (Function.update_self ..) hid rfl
    exact hnext.after (step_sched _ _ ht hadv) (by rw [relaunchesIn_supervise ht, hpc])
  cases h : s.pc with
  | backoff code =>
      have hadv : advance w.mgr {} (.supervise s) =
          some (w.mgr, some (.supervise { s with pc := .rereadShutdown code true }), []) := by
        simp only [advance, Sup.advance, h, harmed]
      have hnext := hreread
        ⟨w.mgr, Function.update w.tasks t (some (.supervise { s with pc := .rereadShutdown code true }))⟩
        { s with pc := .rereadShutdown code true } code (Function.update_self ..) hid hsd rfl
      exact hnext.after (step_sched _ _ ht hadv) (by rw [relaunchesIn_supervise ht, h])
  | rereadShutdown code armed =>
      rw [h] at hsaw
      obtain rfl : armed = true := hsaw
      exact hreread w s code ht hid hsd h
  | relaunch code => exact hrelaunch w s code ht hid h
  | _ =>
      rw [h] at hpc
      cases hpc

/-- **Exact restarts.**  A handle that is not disturbed is relaunched as the closed form says. -/
theorem restarts_exact (h₀ : Initial w₀) (hr : Lts.Run step w₀ l w) (hins : Inserted id spec l)
    (hu : ∀ tr ∈ l, Undisturbed id tr) (hfew : (handled id l).length < 2 ^ 32) :
    RestartsExactly id spec w l := by
  obtain ⟨hq, hrun, -⟩ := restarting_run h₀ hr hu
  obtain ⟨h, hd⟩ := hrun spec hins
  have harith : ∀ k x, (handled id l)[k]? = some x →
      checkedAttempt (fastRun ((handled id l).take k)) x.1 =
          some (fastRun ((handled id l).take (k + 1))) ∧
        checkedDelay (fastRun ((handled id l).take (k + 1))) =
          some (.fromSecs (backoffSeconds (handled id l) k)) := by
    intro k x hx
    have hk : k < (handled id l).length := (List.getElem?_eq_some_iff.mp hx).1
    have hle := fastRun_le ((handled id l).take k)
    rw [List.length_take] at hle
    refine ⟨?_, ?_⟩
    · rw [fastRun_take_succ hx, checkedAttempt_eq (by omega)]
    · rw [checkedDelay_eq (one_le_fastRun_take_succ hk), backoffDelay_eq, backoffSeconds]
  cases h with
  | starting t task ht ho hi hsup hnil hzero he =>
      obtain ⟨e, he, -, hrest⟩ := he
      refine ⟨?_, ?_, ?_, hd.symm, harith, e, he, .inl (by rw [hrest, hzero])⟩
      · rw [hnil, hzero]
        exact ⟨le_rfl, Nat.zero_le _⟩
      · intro k hk
        rw [hzero] at hk
        exact absurd hk (Nat.not_lt_zero k)
      · intro k hk
        rw [hnil] at hk
        exact absurd hk (Nat.not_lt_zero k)
  | supervising t s ht hid hspec hatt hall hsaw hn he hle =>
      obtain ⟨e, he, harmed, hrest⟩ := he
      have hout : s.pc.outstanding ≤ 1 := by cases s.pc <;> simp [SupPc.outstanding]
      refine ⟨⟨by omega, by omega⟩, ?_, ?_, hd.symm, harith, e, he, ?_⟩
      · intro k hk
        exact granted_iff.mpr (fun j hj => hall j (by omega))
      · intro k hk hg
        rcases Nat.eq_zero_or_pos s.pc.outstanding with hzero | hpos
        · exact .inl (by omega)
        · refine .inr ⟨t, s, ht, hid, by omega, relaunchedBy ht hid hq.shutdown ?_ hsaw (by omega)⟩
          exact Manager.isArmed_iff.mpr ⟨e, by rw [hid]; exact he, harmed⟩
      · cases hpc : s.pc with
        | applyLaunch code la =>
            rw [hpc] at hrest hle
            refine .inr ⟨?_, t, s, code, la, ht, hid, hpc⟩
            rw [hrest]
            exact Nat.sub_add_cancel hle
        | _ =>
            rw [hpc] at hrest
            exact .inl hrest
  | ended hfree hall hlast hn he =>
      obtain ⟨e, he, -, hrest⟩ := he
      refine ⟨⟨by omega, by omega⟩, ?_, ?_, hd.symm, harith, e, he, .inl hrest⟩
      · intro k hk
        exact granted_iff.mpr (fun j hj => hall j (by omega))
      · intro k hk hg
        refine .inl ?_
        by_contra hge
        have := granted_iff.mp hg (relaunches id l) (by omega)
        rw [hlast] at this
        cases this

end

def undisturbed (id : Handle) (l : List (Lts.Tr World Action Event)) : Bool :=
  l.all fun tr =>
    (match tr.act with
      | .call _ op => decide (op ≠ .stop id ∧ op ≠ .forget id ∧ op ≠ .killAll)
      | _ => true) && decide (.launchChild id none ∉ tr.evs)

theorem undisturbed_spec {id : Handle} {l : List (Lts.Tr World Action Event)}
    (h : undisturbed id l = true) : ∀ tr ∈ l, Undisturbed id tr := by
  intro tr htr
  have := List.all_eq_true.mp h tr htr
  rw [Bool.and_eq_true, decide_eq_true_eq] at this
  refine ⟨?_, this.2⟩
  intro t op hact
  rw [hact] at this
  exact of_decide_eq_true this.1

/-- Handle 2 exits three times: at once, after a stable run, and when the cap is reached. -/
def cappedRun : List Action :=
  List.flatten [
    [.call 0 (.spawn { cmd := "sleep", policy := .onFailure, maxRetries := 1 }), .sched 0 {},
      .sched 0 { spawn := some 100 }, .sched 0 {}, .sched 0 {}, .sched 0 {}, .exit 0 (some 1)],
    List.replicate 7 (.sched 0 {}),
    [.sched 0 { spawn := some 101 }, .sched 0 {}, .sched 0 {}, .exit 1 none],
    List.replicate 4 (.sched 0 {}),
    [.sched 0 { uptime := .fromSecs 20 }, .sched 0 {}, .sched 0 {}, .sched 0 { spawn := some 102 },
      .sched 0 {}, .sched 0 {}, .exit 2 (some 1)],
    List.replicate 5 (.sched 0 {})]

theorem restarts_exact_capped : ∃ l w, Lts.Run (@step recordCodec) (World.start .new) l w ∧
    relaunches 2 l = 2 ∧ (handled 2 l).length = 3 ∧
    @RestartsExactly 2 { cmd := "sleep", policy := .onFailure, maxRetries := 1 } recordCodec w l := by
  obtain ⟨l, w, hr, hp⟩ := Lts.run_of_exec (@step recordCodec) (World.start .new) cappedRun
    (fun p => undisturbed 2 p.1 && decide (relaunches 2 p.1 = 2 ∧ (handled 2 p.1).length = 3) &&
      p.1.any (fun tr => decide (actor tr = some (.spawnInsert 2
        { cmd := "sleep", policy := .onFailure, maxRetries := 1 } ⟨0, 100, 0, 0⟩)))) (by decide +kernel)
  rw [Bool.and_eq_true, Bool.and_eq_true, decide_eq_true_eq] at hp
  obtain ⟨⟨hu, hcount⟩, hins⟩ := hp
  obtain ⟨tr, htr, hact⟩ := List.any_eq_true.mp hins
  exact ⟨l, w, hr, hcount.1, hcount.2, @restarts_exact recordCodec _ _ _ _ _ (.inl rfl) hr
    ⟨tr, htr, _, of_decide_eq_true hact⟩ (undisturbed_spec hu) (by rw [hcount.2]; decide)⟩

end MeshSupervisor
