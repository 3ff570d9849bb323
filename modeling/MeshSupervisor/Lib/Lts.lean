import Mathlib.Data.List.Basic
import Mathlib.Logic.Function.Basic

/-! # Labelled transition systems given by an executable step

A system is a partial function `step : σ → α → Option (σ × List ε)`: in state `s` the
action `a` (which carries every choice of the environment) is either refused or leads to
one state and emits a list of events.

* `Tr` is one transition with its two states, its action and its events; `Run step s l s'`
  is a finite run from `s` to `s'` together with the list of its transitions, so that a
  property of a run may speak about states, actions and events alike.
* `Run.split` cuts a run at any of its transitions and `Run.append` pastes runs.
* `Run.invariant` and `Run.guarded` are the invariant rules: what every transition keeps
  holds at the end of the run and before each of its transitions.
* `Run.never` is the rule for "from here on, never": a predicate kept by every transition
  and excluding a kind of transition excludes it from the whole run.
* `Run.unwind` is the two-run rule for systems that must not depend on some of their
  actions: the run without these actions exists and shows the same observable events;
  `Run.eq_of_acts` says that the actions of a run determine it, and `Run.rest` cuts a prefix
  off.
* `exec` runs a list of actions; it is what concrete runs are evaluated with
  (`exec_run`). -/

namespace Lts

variable {σ α ε : Type}

/-- One transition: the state it starts in, the action, the events emitted, the state it
ends in. -/
structure Tr (σ α ε : Type) where
  pre : σ
  act : α
  evs : List ε
  post : σ

/-- `Run step s l s'`: the transitions `l` lead from `s` to `s'`. -/
inductive Run (step : σ → α → Option (σ × List ε)) (s : σ) : List (Tr σ α ε) → σ → Prop
  | nil : Run step s [] s
  | snoc {l : List (Tr σ α ε)} {s₁ s₂ : σ} {a : α} {evs : List ε} :
      Run step s l s₁ → step s₁ a = some (s₂, evs) → Run step s (l ++ [⟨s₁, a, evs, s₂⟩]) s₂

/-- All events of a list of transitions, in order. -/
def events (l : List (Tr σ α ε)) : List ε := l.flatMap Tr.evs

@[simp] theorem events_nil : events ([] : List (Tr σ α ε)) = [] := rfl

@[simp] theorem events_append (l₁ l₂ : List (Tr σ α ε)) :
    events (l₁ ++ l₂) = events l₁ ++ events l₂ := by simp [events]

@[simp] theorem events_cons (tr : Tr σ α ε) (l : List (Tr σ α ε)) :
    events (tr :: l) = tr.evs ++ events l := by simp [events]

variable {step : σ → α → Option (σ × List ε)}

def Tr.Valid (step : σ → α → Option (σ × List ε)) (tr : Tr σ α ε) : Prop :=
  step tr.pre tr.act = some (tr.post, tr.evs)

theorem Run.single {s s' : σ} {a : α} {evs : List ε} (h : step s a = some (s', evs)) :
    Run step s [⟨s, a, evs, s'⟩] s' := by
  have := Run.snoc (Run.nil : Run step s [] s) h
  simpa using this

theorem Run.eq_of_nil {s s' : σ} (h : Run step s [] s') : s' = s := by
  generalize hl : ([] : List (Tr σ α ε)) = l at h
  cases h with
  | nil => rfl
  | snoc => simp at hl

theorem Run.append {s s₁ s₂ : σ} {l₁ l₂ : List (Tr σ α ε)}
    (h₁ : Run step s l₁ s₁) (h₂ : Run step s₁ l₂ s₂) : Run step s (l₁ ++ l₂) s₂ := by
  induction h₂ with
  | nil => simpa using h₁
  | snoc _ hs ih =>
      rw [← List.append_assoc]
      exact Run.snoc ih hs

theorem Run.cons {s s₁ s₂ : σ} {a : α} {evs : List ε} {l : List (Tr σ α ε)}
    (hs : step s a = some (s₁, evs)) (h : Run step s₁ l s₂) :
    Run step s (⟨s, a, evs, s₁⟩ :: l) s₂ :=
  (Run.single hs).append h

/-- A run is cut at any of its transitions. -/
theorem Run.split {s s' : σ} {l : List (Tr σ α ε)} (h : Run step s l s') :
    ∀ {l₁ l₂ : List (Tr σ α ε)} {tr : Tr σ α ε}, l = l₁ ++ tr :: l₂ →
      Run step s l₁ tr.pre ∧ tr.Valid step ∧ Run step tr.post l₂ s' := by
  induction h with
  | nil => intro l₁ l₂ tr he; simp at he
  | @snoc l s₁ s₂ a evs hr hs ih =>
      intro l₁ l₂ tr he
      rcases List.eq_nil_or_concat l₂ with rfl | ⟨l₂', tr', rfl⟩
      · obtain ⟨rfl, htr⟩ := List.append_inj' he rfl
        obtain rfl := (List.cons.inj htr).1
        exact ⟨hr, hs, Run.nil⟩
      · rw [List.concat_eq_append] at he ⊢
        rw [← List.cons_append, ← List.append_assoc] at he
        obtain ⟨rfl, htr⟩ := List.append_inj' he rfl
        obtain rfl := (List.cons.inj htr).1
        obtain ⟨h₁, hv, h₂⟩ := ih rfl
        exact ⟨h₁, hv, Run.snoc h₂ hs⟩

theorem Run.mem_split {s s' : σ} {l : List (Tr σ α ε)} (h : Run step s l s') {tr : Tr σ α ε}
    (htr : tr ∈ l) : ∃ l₁ l₂, l = l₁ ++ tr :: l₂ ∧ Run step s l₁ tr.pre ∧ tr.Valid step ∧
      Run step tr.post l₂ s' := by
  obtain ⟨l₁, l₂, rfl⟩ := List.append_of_mem htr
  exact ⟨l₁, l₂, rfl, h.split rfl⟩

/-- **Invariant rule**, for transitions that meet a guard `G`: what they keep holds at the
end of the run and before every transition of it. -/
theorem Run.guarded {s s' : σ} {l : List (Tr σ α ε)} (h : Run step s l s') {I : σ → Prop}
    {G : Tr σ α ε → Prop} (h0 : I s) (hG : ∀ tr ∈ l, G tr)
    (hstep : ∀ tr : Tr σ α ε, tr.Valid step → I tr.pre → G tr → I tr.post) :
    I s' ∧ ∀ tr ∈ l, I tr.pre := by
  induction h with
  | nil => exact ⟨h0, by simp⟩
  | @snoc l s₁ s₂ a evs hr hs ih =>
      obtain ⟨h1, hl⟩ := ih (fun tr htr => hG tr (by simp [htr]))
      have hlast := hG ⟨s₁, a, evs, s₂⟩ (by simp)
      refine ⟨hstep ⟨s₁, a, evs, s₂⟩ hs h1 hlast, ?_⟩
      intro tr htr
      rcases List.mem_append.mp htr with htr | htr
      · exact hl tr htr
      · obtain rfl := List.mem_singleton.mp htr
        exact h1

/-- **Invariant rule.** -/
theorem Run.invariant {s s' : σ} {l : List (Tr σ α ε)} (h : Run step s l s') {I : σ → Prop}
    (h0 : I s) (hstep : ∀ tr : Tr σ α ε, tr.Valid step → I tr.pre → I tr.post) :
    I s' ∧ ∀ tr ∈ l, I tr.pre :=
  h.guarded (G := fun _ => True) h0 (fun _ _ => trivial) (fun tr hv hI _ => hstep tr hv hI)

/-- **From here on, never**: if every transition keeps `Q`, and no transition out of a
`Q`-state is of the kind `B`, then no transition of the run is. -/
theorem Run.never {s s' : σ} {l : List (Tr σ α ε)} (h : Run step s l s') {Q : σ → Prop}
    {B : Tr σ α ε → Prop} (h0 : Q s)
    (hstep : ∀ tr : Tr σ α ε, tr.Valid step → Q tr.pre → Q tr.post ∧ ¬ B tr) :
    Q s' ∧ ∀ tr ∈ l, ¬ B tr := by
  obtain ⟨hQ, hl⟩ := h.invariant (I := Q) h0 (fun tr hv hq => (hstep tr hv hq).1)
  refine ⟨hQ, ?_⟩
  intro tr htr
  obtain ⟨_, _, _, _, hv, _⟩ := h.mem_split htr
  exact (hstep tr hv (hl tr htr)).2

/-- **Unwinding.**  `R` relates the states of a system to those of a second one that is not
given the hidden actions.  If the second follows every visible transition with the same
action and the observable events, and a hidden transition shows nothing and keeps `R`, then
every run has its counterpart without the hidden actions. -/
theorem Run.unwind {τ : Type} {step' : τ → α → Option (τ × List ε)} (R : σ → τ → Prop)
    (visible : α → Bool) (observable : ε → Bool) (G : Tr σ α ε → Prop)
    (hvis : ∀ (tr : Tr σ α ε) (t : τ), tr.Valid step → G tr → R tr.pre t → visible tr.act = true →
      ∃ t', step' t tr.act = some (t', tr.evs.filter observable) ∧ R tr.post t')
    (hhid : ∀ (tr : Tr σ α ε) (t : τ), tr.Valid step → G tr → R tr.pre t → visible tr.act = false →
      tr.evs.filter observable = [] ∧ R tr.post t)
    {s s' : σ} {l : List (Tr σ α ε)} (h : Run step s l s') (hG : ∀ tr ∈ l, G tr) {t : τ}
    (hR : R s t) : ∃ l' t', Run step' t l' t' ∧ R s' t' ∧
      l'.map Tr.act = (l.map Tr.act).filter visible ∧ events l' = (events l).filter observable := by
  induction h with
  | nil => exact ⟨[], t, Run.nil, hR, rfl, rfl⟩
  | @snoc l s₁ s₂ a evs hr hs ih =>
      obtain ⟨l', t₁, hrun, hR₁, hacts, hevs⟩ := ih (fun tr htr => hG tr (List.mem_append_left _ htr))
      have hlast : G ⟨s₁, a, evs, s₂⟩ := hG _ (List.mem_append_right _ (List.mem_singleton.mpr rfl))
      cases hv : visible a with
      | true =>
          obtain ⟨t₂, hstep, hR₂⟩ := hvis ⟨s₁, a, evs, s₂⟩ t₁ hs hlast hR₁ hv
          refine ⟨_, t₂, Run.snoc hrun hstep, hR₂, ?_, ?_⟩
          · simp [hacts, hv]
          · simp [hevs]
      | false =>
          obtain ⟨hnone, hR₂⟩ := hhid ⟨s₁, a, evs, s₂⟩ t₁ hs hlast hR₁ hv
          refine ⟨l', t₁, hrun, hR₂, ?_, ?_⟩
          · simp [hacts, hv]
          · have hnone' : evs.filter observable = [] := hnone
            simp [hevs, hnone']

theorem Run.eq_of_acts {s s₁ s₂ : σ} {l₁ l₂ : List (Tr σ α ε)} (h₁ : Run step s l₁ s₁)
    (h₂ : Run step s l₂ s₂) (hacts : l₁.map Tr.act = l₂.map Tr.act) : l₁ = l₂ := by
  have hboth : l₁ = l₂ ∧ s₁ = s₂ := by
    induction h₁ generalizing l₂ s₂ with
    | nil =>
        obtain rfl := List.map_eq_nil_iff.mp hacts.symm
        exact ⟨rfl, h₂.eq_of_nil.symm⟩
    | @snoc l s₁ s₁' a evs hr hs ih =>
        cases h₂ with
        | nil => simp at hacts
        | @snoc l' s₂ s₂' a' evs' hr' hs' =>
            rw [List.map_append, List.map_append] at hacts
            obtain ⟨hinit, hlast⟩ := List.append_inj' hacts rfl
            obtain ⟨rfl, rfl⟩ := ih hr' hinit
            obtain rfl : a = a' := (List.cons.inj hlast).1
            obtain ⟨rfl, rfl⟩ := Prod.mk.inj (Option.some.inj (hs.symm.trans hs'))
            exact ⟨rfl, rfl⟩
  exact hboth.1

theorem Run.end_eq {s s₁ s₂ : σ} {l : List (Tr σ α ε)} (h₁ : Run step s l s₁)
    (h₂ : Run step s l s₂) : s₁ = s₂ := by
  cases h₁ with
  | nil => exact h₂.eq_of_nil.symm
  | @snoc l s₁' s₁ a evs hr hs =>
      obtain ⟨-, -, hend⟩ := h₂.split rfl
      exact hend.eq_of_nil.symm

theorem Run.rest {s s₁ s' : σ} {l₁ l₂ : List (Tr σ α ε)} (h : Run step s (l₁ ++ l₂) s')
    (h₁ : Run step s l₁ s₁) : Run step s₁ l₂ s' := by
  cases l₂ with
  | nil =>
      rw [List.append_nil] at h
      rw [h.end_eq h₁]
      exact Run.nil
  | cons tr l₂ =>
      obtain ⟨hpre, hv, hend⟩ := h.split rfl
      obtain rfl := hpre.end_eq h₁
      exact Run.cons hv hend

/-! ### Running a list of actions -/

/-- Run the actions in order; `none` as soon as one is refused. -/
def exec (step : σ → α → Option (σ × List ε)) : σ → List α → Option (List (Tr σ α ε) × σ)
  | s, [] => some ([], s)
  | s, a :: as =>
      match step s a with
      | none => none
      | some (s₁, evs) =>
          match exec step s₁ as with
          | none => none
          | some (l, s₂) => some (⟨s, a, evs, s₁⟩ :: l, s₂)

theorem exec_run {as : List α} {s s' : σ} {l : List (Tr σ α ε)}
    (h : exec step s as = some (l, s')) : Run step s l s' := by
  induction as generalizing s l with
  | nil =>
      simp only [exec, Option.some.injEq, Prod.mk.injEq] at h
      obtain ⟨rfl, rfl⟩ := h
      exact Run.nil
  | cons a as ih =>
      simp only [exec] at h
      cases hs : step s a with
      | none => simp [hs] at h
      | some p =>
          obtain ⟨s₁, evs⟩ := p
          rw [hs] at h
          dsimp only at h
          cases hr : exec step s₁ as with
          | none => simp [hr] at h
          | some q =>
              obtain ⟨l', s₂⟩ := q
              rw [hr] at h
              simp only [Option.some.injEq, Prod.mk.injEq] at h
              obtain ⟨rfl, rfl⟩ := h
              exact Run.cons hs (ih hr)

/-- A list of actions whose execution passes a test is a run that passes it. -/
theorem run_of_exec (step : σ → α → Option (σ × List ε)) (s : σ) (as : List α)
    (p : List (Tr σ α ε) × σ → Bool) (h : (exec step s as).any p = true) : ∃ l s', Run step s l s' ∧ p (l, s') = true := by
  cases hr : exec step s as with
  | none => simp [hr] at h
  | some q =>
      obtain ⟨l, s'⟩ := q
      rw [hr] at h
      exact ⟨l, s', exec_run hr, by simpa using h⟩

/-- The same, with one of the transitions given to the test. -/
theorem run_of_exec_at (step : σ → α → Option (σ × List ε)) (s : σ) (as : List α) (a : α) (bs : List α)
    (p : Tr σ α ε → List (Tr σ α ε) × σ → Bool)
    (h : (exec step s as).any (fun r => (step r.2 a).any (fun q =>
      (exec step q.1 bs).any (p ⟨r.2, a, q.2, q.1⟩))) = true) :
    ∃ l₁ tr l₂ s', Run step s (l₁ ++ tr :: l₂) s' ∧ tr.act = a ∧ p tr (l₂, s') = true := by
  obtain ⟨l₁, s₁, hr₁, h₁⟩ := run_of_exec step s as _ h
  obtain ⟨⟨s₂, evs⟩, hs, h₂⟩ := (Option.any_eq_true _ _).mp h₁
  obtain ⟨l₂, s', hr₂, hp⟩ := run_of_exec step s₂ bs _ h₂
  exact ⟨l₁, ⟨s₁, a, evs, s₂⟩, l₂, s', hr₁.append (Run.cons hs hr₂), rfl, hp⟩

/-- Some transition emits an event of the kind `p` and a later one an event of the kind `q`. -/
def followed (p q : ε → Bool) : List (Tr σ α ε) → Bool
  | [] => false
  | tr :: l => (tr.evs.any p && l.any (fun tr' => tr'.evs.any q)) || followed p q l

theorem followed_split {p q : ε → Bool} {l : List (Tr σ α ε)} (h : followed p q l = true) :
    ∃ l₁ tr l₂, l = l₁ ++ tr :: l₂ ∧ (∃ e ∈ tr.evs, p e = true) ∧
      ∃ tr' ∈ l₂, ∃ e ∈ tr'.evs, q e = true := by
  induction l with
  | nil => cases h
  | cons tr l ih =>
      simp only [followed, Bool.or_eq_true, Bool.and_eq_true, List.any_eq_true] at h
      rcases h with ⟨h₁, h₂⟩ | h
      · exact ⟨[], tr, l, rfl, h₁, h₂⟩
      · obtain ⟨l₁, tr', l₂, rfl, h₁, h₂⟩ := ih h
        exact ⟨tr :: l₁, tr', l₂, rfl, h₁, h₂⟩

end Lts
