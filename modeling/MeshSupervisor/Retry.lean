import Mathlib.Data.ENat.Lattice
import MeshSupervisor.Config

/-! # Retries with exponential backoff

`with_retry` of `client.rs`, given what each call of its closure comes to.  `withRetry_spec`
says how a call ends, how often the closure ran and what was slept in between; with delays as
the command line can set them, `delay * 2` never overflows.

`sleeps_capped_iff`: the first sleep is not held to `retry_max_delay`, so the ceiling holds
exactly when the base delay is not above it, or nothing is slept. -/

namespace MeshSupervisor

inductive CallEnd (ε α : Type) where
  | returned (r : Except ε α)
  /-- `delay * 2` panics. -/
  | overflow
  /-- The `unreachable!()` after the loop. -/
  | unreachable
deriving DecidableEq

/-- What a call of `with_retry` did: the calls of its closure, its sleeps and its end. -/
structure Retried (ε α : Type) where
  calls : ℕ
  sleeps : List Duration
  outcome : CallEnd ε α
deriving DecidableEq

section Loop

variable {ε α : Type} (attempts : ℕ) (maxDelay : Duration) (f : ℕ → Except ε α)

/-- `for attempt in 1..=attempts`, on the attempts that are left; `f i` is what the `i`th call
of the closure comes to. -/
def retryLoop : List ℕ → Duration → Retried ε α
  | [], _ => ⟨0, [], .unreachable⟩
  | attempt :: rest, delay =>
    match f attempt with
    | .ok v => ⟨1, [], .returned (.ok v)⟩
    | .error e =>
      if attempt = attempts then ⟨1, [], .returned (.error e)⟩
      else
        match delay.checkedMul 2 with
        | none => ⟨1, [delay], .overflow⟩
        | some doubled =>
          let r := retryLoop rest (min doubled maxDelay)
          ⟨r.calls + 1, delay :: r.sleeps, r.outcome⟩

end Loop

def ClientConfig.attempts (cfg : ClientConfig) : ℕ := max cfg.maxRetries 1

def withRetry {ε α : Type} (cfg : ClientConfig) (f : ℕ → Except ε α) : Retried ε α :=
  retryLoop cfg.attempts cfg.retryMaxDelay f (List.range' 1 cfg.attempts) cfg.retryBaseDelay

/-! ### What it does -/

/-- The `i`th delay of a call that starts with `base`. -/
def delayAt (base maxDelay : Duration) : ℕ → Duration
  | 0 => base
  | i + 1 => min (base * 2 ^ (i + 1)) maxDelay

theorem delayAt_succ (base maxDelay : Duration) (i : ℕ) :
    delayAt (min (base * 2) maxDelay) maxDelay i = delayAt base maxDelay (i + 1) := by
  cases i with
  | zero => simp [delayAt]
  | succ i =>
    have hpow : base * 2 ^ (i + 1 + 1) = base * 2 * 2 ^ (i + 1) := by ring
    have hone : maxDelay ≤ maxDelay * 2 ^ (i + 1) := 
      Nat.le_mul_of_pos_right _ (Nat.two_pow_pos _)
    simp only [delayAt]
    rw [hpow]
    rcases Nat.le_total (base * 2) maxDelay with h | h
    · rw [Nat.min_eq_left h]
    · have hscaled := Nat.mul_le_mul_right (2 ^ (i + 1)) h
      rw [Nat.min_eq_right h, Nat.min_eq_right hone, Nat.min_eq_right (hone.trans hscaled)]

variable {ε α : Type}

/-- The loop ends after `c` calls: with the first success, or with the error of the last
attempt. -/
structure Ends (attempts : ℕ) (maxDelay : Duration) (f : ℕ → Except ε α) (first : ℕ)
    (delay : Duration) (c : ℕ) (r : Retried ε α) : Prop where
  calls : r.calls = c
  pos : 0 < c
  outcome : r.outcome = .returned (f (first + c - 1))
  sleeps : r.sleeps = (List.range (c - 1)).map (delayAt delay maxDelay)
  failed : ∀ i, first ≤ i → i < first + c - 1 → ∃ e, f i = .error e
  last : (∃ v, f (first + c - 1) = .ok v) ∨ first + c - 1 = attempts

theorem Ends.returns {attempts : ℕ} {maxDelay : Duration} {f : ℕ → Except ε α} {k : ℕ}
    {delay : Duration} (h : (∃ v, f k = .ok v) ∨ k = attempts) :
    Ends attempts maxDelay f k delay 1 ⟨1, [], .returned (f k)⟩ := by
  constructor
  · rfl
  · exact Nat.one_pos
  · rfl
  · rfl
  · intro i hi hlt
    omega
  · exact h

theorem Ends.retries {attempts : ℕ} {maxDelay : Duration} {f : ℕ → Except ε α} {k c : ℕ}
    {delay : Duration} {r : Retried ε α} {e : ε} (hk : f k = .error e)
    (h : Ends attempts maxDelay f (k + 1) (min (delay * 2) maxDelay) c r) :
    Ends attempts maxDelay f k delay (c + 1) ⟨r.calls + 1, delay :: r.sleeps, r.outcome⟩ := by
  have hpos := h.pos
  have hlast : k + 1 + c - 1 = k + (c + 1) - 1 := by omega
  constructor
  · rw [h.calls]
  · exact Nat.succ_pos c
  · rw [← hlast]
    exact h.outcome
  · obtain ⟨c, rfl⟩ := Nat.exists_eq_succ_of_ne_zero (Nat.pos_iff_ne_zero.mp hpos)
    dsimp only
    rw [h.sleeps, Nat.add_sub_cancel, Nat.succ_sub_one, List.range_succ_eq_map, List.map_cons,
      List.map_map]
    congr 1
    apply List.map_congr_left
    intro i _
    exact delayAt_succ delay maxDelay i
  · intro i hi hlt
    rcases Nat.eq_or_lt_of_le hi with rfl | hi
    · exact ⟨e, hk⟩
    · exact h.failed i hi (by omega)
  · rw [← hlast]
    exact h.last

/-- The induction is on the attempts that are left after this one. -/
theorem retryLoop_spec {attempts : ℕ} {maxDelay bound : Duration}
    (hbound : Duration.Fits (bound * 2)) (hmax : maxDelay ≤ bound) (f : ℕ → Except ε α) (j : ℕ)
    {k : ℕ} (hk : k + j = attempts) {delay : Duration} (hdelay : delay ≤ bound) :
    ∃ c, c ≤ j + 1 ∧ Ends attempts maxDelay f k delay c
      (retryLoop attempts maxDelay f (List.range' k (j + 1)) delay) := by
  induction j generalizing k delay with
  | zero =>
    refine ⟨1, Nat.le_refl 1, ?_⟩
    have hret : retryLoop attempts maxDelay f (List.range' k 1) delay =
        ⟨1, [], .returned (f k)⟩ := by
      simp only [List.range'_one, retryLoop]
      cases f k with
      | ok v => rfl
      | error e => simp [show k = attempts from hk]
    rw [hret]
    exact Ends.returns (Or.inr hk)
  | succ j ih =>
    rw [List.range'_succ, retryLoop]
    cases hf : f k with
    | ok v =>
      have hret : Ends attempts maxDelay f k delay 1 ⟨1, [], .returned (f k)⟩ :=
        Ends.returns (Or.inl ⟨v, hf⟩)
      rw [hf] at hret
      exact ⟨1, by omega, hret⟩
    | error e =>
      have hfits : delay.checkedMul 2 = some (delay * 2) := by
        apply if_pos
        exact Nat.lt_of_le_of_lt (Nat.mul_le_mul_right 2 hdelay) hbound
      have hne : k ≠ attempts := by omega
      have hmin : min (delay * 2) maxDelay ≤ bound := Nat.le_trans (Nat.min_le_right _ _) hmax
      obtain ⟨c, hc, hends⟩ := ih (k := k + 1) (by omega) hmin
      simp only [hne, if_false, hfits]
      exact ⟨c + 1, by omega, hends.retries hf⟩

variable {F : Type} (args : ArgMatches F) (f : ℕ → Except ε α)

theorem withRetry_spec : ∃ c, c ≤ (ClientConfig.fromCli args).attempts ∧
    Ends (ClientConfig.fromCli args).attempts (ClientConfig.fromCli args).retryMaxDelay f 1
      (ClientConfig.fromCli args).retryBaseDelay c (withRetry (ClientConfig.fromCli args) f) := by
  obtain ⟨j, hj⟩ : ∃ j, (ClientConfig.fromCli args).attempts = j + 1 := by
    refine Nat.exists_eq_succ_of_ne_zero ?_
    unfold ClientConfig.attempts
    omega
  have hbase := retryBaseDelay_lt args
  have hmax := retryMaxDelay_lt args
  unfold withRetry
  rw [hj]
  have hbound : Duration.Fits (2 ^ 64 * 1000000 * 2) := by decide
  exact retryLoop_spec hbound hmax.le f j (Nat.add_comm 1 j) hbase.le

/-! ### How many attempts -/

/-- The index of the first success, infinite if there is none. -/
noncomputable def firstSuccess (f : ℕ → Except ε α) : ℕ∞ :=
  sInf ((fun i : ℕ => (i : ℕ∞)) '' {i | 1 ≤ i ∧ ∃ v, f i = .ok v})

theorem le_firstSuccess {n : ℕ} (h : ∀ i, 1 ≤ i → i < n → ∃ e, f i = .error e) :
    (n : ℕ∞) ≤ firstSuccess f := by
  apply le_sInf
  rintro _ ⟨i, ⟨hi, v, hv⟩, rfl⟩
  apply Nat.cast_le.mpr
  by_contra hlt
  obtain ⟨e, he⟩ := h i hi (by omega)
  rw [hv] at he
  cases he

theorem firstSuccess_le {n : ℕ} (hn : 1 ≤ n) {v : α} (h : f n = .ok v) :
    firstSuccess f ≤ (n : ℕ∞) :=
  sInf_le ⟨n, ⟨hn, v, h⟩, rfl⟩

/-- The closure runs up to the first success, and no more often than there are attempts; what it
came to last is returned. -/
theorem withRetry_calls :
    ((withRetry (ClientConfig.fromCli args) f).calls : ℕ∞) =
        min (firstSuccess f) (ClientConfig.fromCli args).attempts ∧
      (withRetry (ClientConfig.fromCli args) f).outcome =
        .returned (f (withRetry (ClientConfig.fromCli args) f).calls) := by
  obtain ⟨c, hc, hends⟩ := withRetry_spec args f
  have hlast := hends.last
  have houtcome := hends.outcome
  rw [Nat.add_sub_cancel_left] at hlast houtcome
  rw [hends.calls]
  constructor
  · have hle := le_firstSuccess f (n := c) fun i hi hlt => hends.failed i hi (by omega)
    rcases hlast with ⟨v, hv⟩ | hlast
    · have hfirst : firstSuccess f = c := le_antisymm (firstSuccess_le f hends.pos hv) hle
      rw [hfirst, min_eq_left (Nat.cast_le.mpr hc)]
    · rw [← hlast, min_eq_right hle]
  · exact houtcome

/-! ### The ceiling -/

/-- What the configuration says about the sleeps of one call. -/
structure Capped (cfg : ClientConfig) (sleeps : List Duration) : Prop where
  le : ∀ d ∈ sleeps, d ≤ cfg.retryMaxDelay
  nondecreasing : sleeps.Pairwise (· ≤ ·)
  eq_min : ∀ i, ∀ d ∈ sleeps[i]?, d = min (cfg.retryBaseDelay * 2 ^ i) cfg.retryMaxDelay

theorem Capped.nil (cfg : ClientConfig) : Capped cfg [] := by
  constructor
  · intro d hd
    cases hd
  · exact List.Pairwise.nil
  · intro i d hd
    cases hd

theorem eq_min_delayAt {base maxDelay : Duration} (h : base ≤ maxDelay) (i : ℕ) :
    delayAt base maxDelay i = min (base * 2 ^ i) maxDelay := by
  cases i with
  | zero => simp [delayAt, h]
  | succ i => rfl

theorem min_le_succ (base maxDelay : Duration) {i j : ℕ} (h : i ≤ j) :
    min (base * 2 ^ i) maxDelay ≤ min (base * 2 ^ j) maxDelay := by
  apply min_le_min_right
  exact Nat.mul_le_mul_left base (Nat.pow_le_pow_right (by decide) h)

theorem capped_of_le {cfg : ClientConfig} (h : cfg.retryBaseDelay ≤ cfg.retryMaxDelay) (n : ℕ) :
    Capped cfg ((List.range n).map (delayAt cfg.retryBaseDelay cfg.retryMaxDelay)) := by
  have hd := eq_min_delayAt h
  constructor
  · intro d hd'
    obtain ⟨i, -, rfl⟩ := List.mem_map.mp hd'
    rw [hd i]
    exact Nat.min_le_right _ _
  · apply List.pairwise_map.mpr
    apply List.pairwise_lt_range.imp
    intro i j hij
    rw [hd i, hd j]
    exact min_le_succ _ _ hij.le
  · intro i d hi
    obtain ⟨hlt, rfl⟩ := List.getElem?_eq_some_iff.mp hi
    rw [List.getElem_map, List.getElem_range]
    exact hd i

/-- The sleeps of a call keep to the ceiling exactly when the base delay does or there is at
most one attempt. -/
theorem sleeps_capped_iff :
    Capped (ClientConfig.fromCli args) (withRetry (ClientConfig.fromCli args) f).sleeps ↔
      (ClientConfig.fromCli args).retryBaseDelay ≤ (ClientConfig.fromCli args).retryMaxDelay ∨
        (ClientConfig.fromCli args).maxRetries ≤ 1 ∨ ∃ v, f 1 = .ok v := by
  obtain ⟨c, hc, hends⟩ := withRetry_spec args f
  have hpos := hends.pos
  have hlast := hends.last
  rw [hends.sleeps]
  constructor
  · intro h
    by_cases hone : c = 1
    · right
      subst hone
      rcases hlast with hok | hlast
      · exact Or.inr hok
      · left
        unfold ClientConfig.attempts at hlast
        omega
    · left
      apply h.le
      have hmem : 0 ∈ List.range (c - 1) := List.mem_range.mpr (by omega)
      exact List.mem_map_of_mem hmem
  · intro h
    rcases h with hle | hfew | ⟨v, hv⟩
    · exact capped_of_le hle _
    · have hone : c = 1 := by
        unfold ClientConfig.attempts at hc
        omega
      subst hone
      exact Capped.nil _
    · have hone : c = 1 := by
        by_contra hne
        obtain ⟨e, he⟩ := hends.failed 1 (Nat.le_refl 1) (by omega)
        rw [hv] at he
        cases he
      subst hone
      exact Capped.nil _

/-- A base delay of five seconds is slept before the second attempt, although delays are limited
to two seconds. -/
theorem sleeps_not_capped :
    ¬ Capped (ClientConfig.fromCli (F := ℚ) { retryBaseDelayMs := some 5000 })
      (withRetry (ClientConfig.fromCli (F := ℚ) { retryBaseDelayMs := some 5000 })
        (fun i => if i = 1 then Except.error () else .ok ())).sleeps := by
  intro h
  have hle := h.le (Duration.fromSecs 5) (by decide)
  exact absurd hle (by decide)

end MeshSupervisor
