import Mathlib.Algebra.Order.Field.Basic
import Mathlib.Tactic.Linarith
import Mathlib.Tactic.Ring

/-! # Token buckets

A token bucket over an ordered field: it holds at most `burst` tokens, gains `refill` of them
per unit of time, and a request takes one token if there is one.

* `decisions` is the bucket that is asked at given times and never forgotten.
* `request_conserves` is the step of the potential argument: what has been admitted and what
  is left never exceed what the bucket started with and what has flowed in.
* `fill_eq_burst`: a bucket left alone for long enough is full. -/

namespace TokenBucket

variable {K : Type} [Field K] [LinearOrder K]

/-- The level after `dt`. -/
def fill (burst refill level dt : K) : K := min (level + dt * refill) burst

/-- Take a token if there is one. -/
def take (level : K) : K × Bool := if 1 ≤ level then (level - 1, true) else (level, false)

/-- A request that comes `dt` after the one before. -/
def request (burst refill level dt : K) : K × Bool := take (fill burst refill level dt)

/-- The decisions on requests at the given times, by a bucket that stood at `level` at time
`last`. -/
def decisions (burst refill : K) : K → K → List K → List Bool
  | _, _, [] => []
  | level, last, t :: ts =>
      (request burst refill level (t - last)).2 ::
        decisions burst refill (request burst refill level (t - last)).1 t ts

/-- The decisions of a bucket that is full at the first request. -/
def ideal (burst refill : K) (ts : List K) : List Bool :=
  decisions burst refill burst (ts.headD 0) ts

theorem take_add (level : K) : (take level).1 + (if (take level).2 then 1 else 0) = level := by
  unfold take
  split_ifs <;> simp_all

variable [IsStrictOrderedRing K]

theorem take_nonneg {level : K} (h : 0 ≤ level) : 0 ≤ (take level).1 := by
  unfold take
  split_ifs with hone
  · exact sub_nonneg.mpr hone
  · exact h

theorem fill_nonneg {burst refill level dt : K} (hb : 0 ≤ burst) (hr : 0 ≤ refill)
    (hl : 0 ≤ level) (hdt : 0 ≤ dt) : 0 ≤ fill burst refill level dt :=
  le_min (add_nonneg hl (mul_nonneg hdt hr)) hb

omit [IsStrictOrderedRing K] in
theorem fill_le (burst refill level dt : K) : fill burst refill level dt ≤ level + dt * refill :=
  min_le_left _ _

omit [IsStrictOrderedRing K] in
theorem fill_zero {burst refill level : K} (h : level ≤ burst) : fill burst refill level 0 = level := by
  rw [fill, zero_mul, add_zero, min_eq_left h]

omit [IsStrictOrderedRing K] in
theorem fill_eq_burst {burst refill level dt : K} (h : burst ≤ level + dt * refill) :
    fill burst refill level dt = burst := min_eq_right h

theorem full_mono {burst refill level dt dt' : K} (hr : 0 ≤ refill)
    (h : burst ≤ level + dt * refill) (hle : dt ≤ dt') : burst ≤ level + dt' * refill :=
  h.trans (add_le_add le_rfl (mul_le_mul_of_nonneg_right hle hr))

/-- **Conservation.**  If `n` requests have been admitted since `start`, and they and the
level are covered by `burst` and the inflow up to `last`, then so it is after one more
request. -/
theorem request_conserves {burst refill level n start last t : K}
    (h : n + level ≤ burst + (last - start) * refill) :
    n + (if (request burst refill level (t - last)).2 then 1 else 0) +
      (request burst refill level (t - last)).1 ≤ burst + (t - start) * refill := by
  have hsum := take_add (fill burst refill level (t - last))
  have hfill := fill_le burst refill level (t - last)
  unfold request
  calc n + (if (take (fill burst refill level (t - last))).2 then 1 else 0) +
          (take (fill burst refill level (t - last))).1
      = n + fill burst refill level (t - last) := by rw [add_assoc, add_comm (ite _ _ _), hsum]
    _ ≤ n + (level + (t - last) * refill) := by linarith
    _ ≤ burst + (t - start) * refill := by linarith

/-- A full bucket does not notice the time before its first request. -/
theorem ideal_eq {burst refill : K} (hr : 0 ≤ refill) {last : K} {ts : List K}
    (h : ∀ t ∈ ts.head?, last ≤ t) : ideal burst refill ts = decisions burst refill burst last ts := by
  cases ts with
  | nil => rfl
  | cons t ts =>
      have hfull : request burst refill burst (t - t) = request burst refill burst (t - last) := by
        have hle : burst ≤ burst + (t - last) * refill :=
          le_add_of_nonneg_right (mul_nonneg (sub_nonneg.mpr (h t rfl)) hr)
        rw [request, request, sub_self, fill_zero le_rfl, fill_eq_burst hle]
      simp only [ideal, List.headD_cons, decisions, hfull]

end TokenBucket
