import Mathlib.Data.List.Basic
import Mathlib.Data.Sigma.Basic
import Mathlib.Logic.Function.Basic
import Mathlib.Logic.Relation

/-! # Programs that call an environment

A program of type `Prog R α` has ended with a value, or makes a call and goes on with the answer;
`R c` is the type of the answers to the call `c`.  What a call does is given by a relation
`step s c r s'`: in state `s` it may be answered `r` and leave the state `s'`.

* `Only P p` is about the program alone: whatever is answered, every call it makes satisfies `P`;
  `Yields V p`: every value it can end with satisfies `V`.  `Calls p cs a` takes the calls of one run
  together (`Only.calls`, `calls_bind`).
* `Runs step s p a s'` is a run to the end.
* `wp step p Q s` says that every run from `s` ends in a state with `Q` (`wp_iff_runs`), and is
  computed along the program (`wp_bind`, `wp_each`); for programs that may fail, `EndsIn` tells the
  two outcomes apart (`ends_bind`).
* `interfere E step` lets the environment act, as `E` allows, before each call.
* `PoolStep` runs programs side by side, call by call in any order.  A program that is right while
  the others do what their calls may do is right in the pool (`pool_run`).
* `exec` runs a program against a handler; it is what concrete runs are evaluated with
  (`exec_runs`). -/

/-- Programs whose calls `c : C` are answered in `R c`. -/
inductive Prog {C : Type} (R : C → Type) (α : Type) where
  | done (a : α)
  | call (c : C) (k : R c → Prog R α)

namespace Prog

variable {C : Type} {R : C → Type} {α β σ : Type}

def bind (p : Prog R α) (f : α → Prog R β) : Prog R β :=
  match p with
  | .done a => f a
  | .call c k => .call c (fun r => (k r).bind f)

instance : Monad (Prog R) where
  pure := .done
  bind := Prog.bind

/-- One call, for its answer. -/
def ask (c : C) : Prog R (R c) := .call c .done

/-- Do `f` for one element after the other. -/
def each (f : β → Prog R Unit) : List β → Prog R Unit
  | [] => pure ()
  | b :: bs => do
      f b
      each f bs

/-! ### The calls of a program -/

/-- Every call satisfies `P`, whatever is answered. -/
def Only (P : C → Prop) : Prog R α → Prop
  | .done _ => True
  | .call c k => P c ∧ ∀ r, (k r).Only P

/-- Every value it can end with satisfies `V`, whatever is answered. -/
def Yields (V : α → Prop) : Prog R α → Prop
  | .done a => V a
  | .call _ k => ∀ r, (k r).Yields V

/-- With some answers it makes the calls `cs` and ends with `a`. -/
inductive Calls : Prog R α → List C → α → Prop
  | done {a : α} : Calls (.done a) [] a
  | call {c : C} {k : R c → Prog R α} {r : R c} {cs : List C} {a : α} :
      Calls (k r) cs a → Calls (.call c k) (c :: cs) a

section Only

variable {P Q : C → Prop} {V : α → Prop}

@[simp] theorem only_pure (a : α) : (pure a : Prog R α).Only P := trivial

@[simp] theorem only_ask {c : C} : (ask c : Prog R (R c)).Only P ↔ P c := by
  simp [ask, Only]

theorem Only.bind {p : Prog R α} {f : α → Prog R β} (hp : p.Only P) (hf : ∀ a, (f a).Only P) :
    (p >>= f).Only P := by
  induction p with
  | done a => exact hf a
  | call c k ih => exact ⟨hp.1, fun r => ih r (hp.2 r)⟩

theorem Yields.bind {V : β → Prop} {p : Prog R α} {f : α → Prog R β} (hf : ∀ a, (f a).Yields V) :
    (p >>= f).Yields V := by
  induction p with
  | done a => exact hf a
  | call c k ih => exact ih

theorem Only.mono {p : Prog R α} (h : p.Only P) (hPQ : ∀ c, P c → Q c) : p.Only Q := by
  induction p with
  | done a => trivial
  | call c k ih => exact ⟨hPQ c h.1, fun r => ih r (h.2 r)⟩

theorem Only.each {f : β → Prog R Unit} {bs : List β} (h : ∀ b ∈ bs, (f b).Only P) :
    (Prog.each f bs).Only P := by
  induction bs with
  | nil => trivial
  | cons b bs ih =>
      apply Only.bind (h b List.mem_cons_self)
      intro _
      exact ih fun b' hb' => h b' (List.mem_cons_of_mem b hb')

theorem Only.calls {p : Prog R α} (hp : p.Only P) {cs : List C} {a : α} (h : p.Calls cs a) :
    ∀ c ∈ cs, P c := by
  induction h with
  | done => simp
  | call _ ih => exact List.forall_mem_cons.mpr ⟨hp.1, ih (hp.2 _)⟩

theorem Yields.calls {p : Prog R α} (hv : p.Yields V) {cs : List C} {a : α} (h : p.Calls cs a) :
    V a := by
  induction h with
  | done => exact hv
  | call _ ih => exact ih (hv _)

end Only

/-! ### Runs -/

/-- `Runs step s p a s'`: from `s` the program ends with `a` in `s'`. -/
inductive Runs (step : σ → (c : C) → R c → σ → Prop) : σ → Prog R α → α → σ → Prop
  | done {s : σ} {a : α} : Runs step s (.done a) a s
  | call {s s₁ s₂ : σ} {c : C} {k : R c → Prog R α} {r : R c} {a : α} :
      step s c r s₁ → Runs step s₁ (k r) a s₂ → Runs step s (.call c k) a s₂

/-- Every run ends with a value and in a state with `Q`. -/
def wp (step : σ → (c : C) → R c → σ → Prop) (p : Prog R α) (Q : α → σ → Prop) (s : σ) : Prop :=
  match p with
  | .done a => Q a s
  | .call c k => ∀ r s', step s c r s' → (k r).wp step Q s'

section Rules

variable {step : σ → (c : C) → R c → σ → Prop} {p : Prog R α} {Q Q' : α → σ → Prop} {s : σ}

theorem wp_iff_runs : p.wp step Q s ↔ ∀ a s', Runs step s p a s' → Q a s' := by
  induction p generalizing s with
  | done a =>
      constructor
      · rintro h a' s' ⟨⟩
        exact h
      · intro h
        exact h a s .done
  | call c k ih =>
      constructor
      · rintro h a s' (_ | ⟨hs, hr⟩)
        exact (ih _).mp (h _ _ hs) _ _ hr
      · intro h r s' hs
        rw [ih]
        intro a s'' hr
        exact h _ _ (.call hs hr)

@[simp] theorem wp_pure (a : α) : (pure a : Prog R α).wp step Q s ↔ Q a s := Iff.rfl

@[simp] theorem wp_ask {c : C} {Q : R c → σ → Prop} :
    (ask c : Prog R (R c)).wp step Q s ↔ ∀ r s', step s c r s' → Q r s' := Iff.rfl

theorem wp_mono (h : p.wp step Q s) (hQ : ∀ a s, Q a s → Q' a s) : p.wp step Q' s := by
  induction p generalizing s with
  | done a => exact hQ a s h
  | call c k ih => exact fun r s' hs => ih r (h r s' hs)

@[simp] theorem wp_bind {f : α → Prog R β} {Q : β → σ → Prop} :
    (p >>= f).wp step Q s ↔ p.wp step (fun a => (f a).wp step Q) s := by
  induction p generalizing s with
  | done a => exact Iff.rfl
  | call c k ih => exact forall₃_congr fun r s' _ => ih r

theorem Yields.wp {V : α → Prop} (hv : p.Yields V) (h : p.wp step Q s) :
    p.wp step (fun a s => V a ∧ Q a s) s := by
  induction p generalizing s with
  | done a => exact ⟨hv, h⟩
  | call c k ih => exact fun r s' hs => ih r (hv r) (h r s' hs)

/-- `I bs` holds when `bs` are left to do. -/
theorem wp_each {f : β → Prog R Unit} {I : List β → σ → Prop}
    (hf : ∀ b bs s, I (b :: bs) s → (f b).wp step (fun _ => I bs) s) (bs : List β) (hs : I bs s) :
    (each f bs).wp step (fun _ => I []) s := by
  induction bs generalizing s with
  | nil => exact hs
  | cons b bs ih => exact wp_bind.mpr (wp_mono (hf b bs s hs) fun _ _ => ih)

end Rules

/-! ### Programs that may fail -/

section Fail

variable {ε : Type} {step : σ → (c : C) → R c → σ → Prop} {fail : σ → Prop} {Q : α → σ → Prop} {s : σ}

/-- `Q` after a success, `fail` after a failure. -/
def EndsIn (fail : σ → Prop) (Q : α → σ → Prop) : Except ε α → σ → Prop
  | .ok a, s => Q a s
  | .error _, s => fail s

theorem ends_bind {p : ExceptT ε (Prog R) α} {f : α → ExceptT ε (Prog R) β} {Q' : β → σ → Prop}
    (hp : p.run.wp step (EndsIn fail Q) s)
    (hf : ∀ a s, Q a s → (f a).run.wp step (EndsIn fail Q') s) :
    (p >>= f).run.wp step (EndsIn fail Q') s := by
  rw [ExceptT.run_bind, wp_bind]
  apply wp_mono hp
  intro r s' hr
  cases r with
  | ok a => exact hf a s' hr
  | error e => exact hr

theorem ends_lift {p : Prog R α} (h : p.wp step Q s) :
    (ExceptT.lift p : ExceptT ε (Prog R) α).run.wp step (EndsIn fail Q) s := by
  rw [ExceptT.run_lift]
  exact wp_bind.mpr h

theorem ends_mono {p : ExceptT ε (Prog R) α} {Q' : α → σ → Prop}
    (h : p.run.wp step (EndsIn fail Q) s) (hQ : ∀ a s, Q a s → Q' a s) :
    p.run.wp step (EndsIn fail Q') s := by
  apply wp_mono h
  intro r s' hr
  cases r with
  | ok a => exact hQ a s' hr
  | error e => exact hr

end Fail

/-! ### Calls of another program -/

section Hoist

variable {D τ : Type} {S : D → Type}

/-- The program with its calls `c` made as `f c`. -/
def hoist (f : C → D) (g : ∀ c, S (f c) → R c) : Prog R α → Prog S α
  | .done a => .done a
  | .call c k => .call (f c) fun r => (k (g c r)).hoist f g

/-- What is right of a program is right of it within a greater state, of which it sees `get t`; `I` is
what its calls keep there. -/
theorem wp_hoist {f : C → D} {g : ∀ c, S (f c) → R c} {step : σ → (c : C) → R c → σ → Prop}
    {step' : τ → (d : D) → S d → τ → Prop} (get : τ → σ) (I : τ → Prop)
    (hstep : ∀ t c r t', I t → step' t (f c) r t' → step (get t) c (g c r) (get t') ∧ I t')
    {p : Prog R α} {Q : α → σ → Prop} {t : τ} (h : p.wp step Q (get t)) (ht : I t) :
    (p.hoist f g).wp step' (fun a t' => Q a (get t') ∧ I t') t := by
  induction p generalizing t with
  | done a => exact ⟨h, ht⟩
  | call c k ih =>
      intro r t' hs
      obtain ⟨hc, ht'⟩ := hstep t c r t' ht hs
      exact ih (g c r) (h (g c r) _ hc) ht'

end Hoist

/-! ### Interference -/

/-- The environment acts before each call. -/
def interfere (E : σ → σ → Prop) (step : σ → (c : C) → R c → σ → Prop) (s : σ) (c : C) (r : R c)
    (s'' : σ) : Prop :=
  ∃ s', E s s' ∧ step s' c r s''

/-! ### Programs side by side -/

section Pool

open Relation

variable {ι : Type} [DecidableEq ι] {E : σ → σ → Prop} {step : σ → (c : C) → R c → σ → Prop}
  {G : ι → σ → σ → Prop} {Q : ι → α → σ → Prop}

/-- One of the programs makes its next call, or the environment acts. -/
inductive PoolStep (E : σ → σ → Prop) (step : σ → (c : C) → R c → σ → Prop) :
    (ι → Prog R α) × σ → (ι → Prog R α) × σ → Prop
  | call {ps : ι → Prog R α} {s s' : σ} (i : ι) {c : C} {k : R c → Prog R α} {r : R c} :
      ps i = .call c k → step s c r s' → PoolStep E step (ps, s) (Function.update ps i (k r), s')
  | env {ps : ι → Prog R α} {s s' : σ} : E s s' → PoolStep E step (ps, s) (ps, s')

/-- What may happen while `i` runs: steps of the environment, and of the others, of which `j` keeps
to `G j`. -/
def Others (E : σ → σ → Prop) (G : ι → σ → σ → Prop) (i : ι) : σ → σ → Prop :=
  ReflTransGen fun s s' => E s s' ∨ ∃ j, j ≠ i ∧ G j s s'

omit [DecidableEq ι] in
theorem wp_others {i : ι} {p : Prog R α} {Q : α → σ → Prop} {s s' : σ}
    (hQ : ∀ a s s', Q a s → Others E G i s s' → Q a s')
    (h : p.wp (interfere (Others E G i) step) Q s) (ho : Others E G i s s') :
    p.wp (interfere (Others E G i) step) Q s' := by
  cases p with
  | done a => exact hQ a s s' h ho
  | call c k =>
      rintro r s'' ⟨s₁, he, hstep⟩
      exact h r s'' ⟨s₁, ho.trans he, hstep⟩

theorem Only.next {P : C → Prop} {p : Prog R α} (h : p.Only P) {c : C} {k : R c → Prog R α}
    (hp : p = .call c k) : P c ∧ ∀ r, (k r).Only P := by
  subst hp
  exact h

theorem wp_next {p : Prog R α} {Q : α → σ → Prop} {s : σ} (h : p.wp step Q s) {c : C}
    {k : R c → Prog R α} (hp : p = .call c k) {r : R c} {s' : σ} (hs : step s c r s') :
    (k r).wp step Q s' := by
  subst hp
  exact h r s' hs

/-- What a pool keeps: every program is right from here on, and keeps to what it may do. -/
structure PoolOk (E : σ → σ → Prop) (step : σ → (c : C) → R c → σ → Prop) (G : ι → σ → σ → Prop)
    (Q : ι → α → σ → Prop) (ps : ι → Prog R α) (s : σ) : Prop where
  only : ∀ i, (ps i).Only fun c => ∀ s r s', step s c r s' → G i s s'
  wp : ∀ i, (ps i).wp (interfere (Others E G i) step) (Q i) s

theorem PoolOk.next {ps ps' : ι → Prog R α} {s s' : σ}
    (hQ : ∀ i a s s', Q i a s → Others E G i s s' → Q i a s') (h : PoolOk E step G Q ps s)
    (hs : PoolStep E step (ps, s) (ps', s')) : PoolOk E step G Q ps' s' := by
  cases hs with
  | env he =>
      exact ⟨h.only, fun i => wp_others (hQ i) (h.wp i) (.single (.inl he))⟩
  | call i hcall hstep =>
      obtain ⟨hkeeps, honly⟩ := (h.only i).next hcall
      constructor
      · intro j
        by_cases hj : j = i
        · subst hj
          rw [Function.update_self]
          exact honly _
        · rw [Function.update_of_ne hj]
          exact h.only j
      · intro j
        by_cases hj : j = i
        · subst hj
          rw [Function.update_self]
          exact wp_next (h.wp j) hcall ⟨s, .refl, hstep⟩
        · rw [Function.update_of_ne hj]
          exact wp_others (hQ j) (h.wp j) (.single (.inr ⟨i, Ne.symm hj, hkeeps s _ s' hstep⟩))

/-- Programs that are right while the others do what they may are right side by side, in every
order of their calls. -/
theorem pool_run {ps ps' : ι → Prog R α} {s s' : σ}
    (hQ : ∀ i a s s', Q i a s → Others E G i s s' → Q i a s') (h : PoolOk E step G Q ps s)
    (hrun : ReflTransGen (PoolStep E step) (ps, s) (ps', s')) {i : ι} {a : α}
    (hdone : ps' i = .done a) : Q i a s' := by
  have hok : PoolOk E step G Q ps' s' := by
    have hgoal : ∀ x, ReflTransGen (PoolStep E step) (ps, s) x → PoolOk E step G Q x.1 x.2 := by
      intro x hx
      induction hx with
      | refl => exact h
      | tail _ hs ih => exact ih.next hQ hs
    exact hgoal _ hrun
  have hwp := hok.wp i
  rw [hdone] at hwp
  exact hwp

/-- A run of one of them is a run of the pool. -/
theorem Runs.pool {ps : ι → Prog R α} {i : ι} {s s' : σ} {a : α} (h : Runs step s (ps i) a s') :
    ReflTransGen (PoolStep E step) (ps, s) (Function.update ps i (.done a), s') := by
  generalize hp : ps i = p at h
  induction h generalizing ps with
  | done =>
      rw [← hp, Function.update_eq_self]
  | call hstep _ ih =>
      have hrest := ih (Function.update_self i _ ps)
      rw [Function.update_idem] at hrest
      exact .head (.call i hp hstep) hrest

end Pool

/-! ### Execution -/

def exec (h : σ → (c : C) → R c × σ) (s : σ) : Prog R α → α × σ
  | .done a => (a, s)
  | .call c k => exec h (h s c).2 (k (h s c).1)

theorem exec_runs {h : σ → (c : C) → R c × σ} {step : σ → (c : C) → R c → σ → Prop}
    (hstep : ∀ s c, step s c (h s c).1 (h s c).2) (p : Prog R α) (s : σ) :
    Runs step s p (p.exec h s).1 (p.exec h s).2 := by
  induction p generalizing s with
  | done a => exact .done
  | call c k ih => exact .call (hstep s c) (ih (h s c).1 (h s c).2)

end Prog
