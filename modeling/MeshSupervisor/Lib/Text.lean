import Mathlib.Algebra.Ring.Nat
import Mathlib.Data.List.DropRight

/-! # Text: blanks, byte offsets and decimal numerals

A text is the list of its characters; `sliceTo` cuts it at an offset into its UTF-8 encoding,
which has to lie between two characters (`sliceTo_append`).  `trim` removes what is blank from
both ends, and `trimmed_iff` characterises its result without a direction of scanning.
`readDigits` reads a decimal numeral with a check before each operation can exceed the bound:
it accepts exactly the digit strings whose value does not (`readDigits_ok`). -/

namespace Text

section Trim

variable {α : Type} (blank : α → Bool)

def trim (s : List α) : List α := (s.dropWhile blank).rdropWhile blank

/-- `t` is `s` without the blanks around it. -/
structure Trimmed (s t : List α) : Prop where
  around : ∃ l r, s = l ++ t ++ r ∧ (∀ a ∈ l, blank a) ∧ ∀ a ∈ r, blank a
  head : ∀ a ∈ t.head?, blank a = false
  last : ∀ a ∈ t.getLast?, blank a = false

theorem dropWhile_append_blank {l t : List α} (hl : ∀ a ∈ l, blank a) :
    (l ++ t).dropWhile blank = t.dropWhile blank := by
  induction l with
  | nil => rfl
  | cons a l ih =>
    have ha := hl a List.mem_cons_self
    rw [List.cons_append, List.dropWhile_cons_of_pos ha]
    exact ih fun b hb => hl b (List.mem_cons_of_mem a hb)

theorem rdropWhile_append_blank {t r : List α} (hr : ∀ a ∈ r, blank a) :
    (t ++ r).rdropWhile blank = t.rdropWhile blank := by
  unfold List.rdropWhile
  rw [List.reverse_append, dropWhile_append_blank blank]
  intro a ha
  exact hr a (List.mem_reverse.mp ha)

theorem dropWhile_of_head {t : List α} (h : ∀ a ∈ t.head?, blank a = false) (r : List α)
    (ht : t ≠ []) : (t ++ r).dropWhile blank = t ++ r := by
  cases t with
  | nil => exact absurd rfl ht
  | cons a t =>
    have ha := h a rfl
    rw [List.cons_append, List.dropWhile_cons_of_neg (by simp [ha])]

theorem rdropWhile_spec (s : List α) :
    (∃ r, s = s.rdropWhile blank ++ r ∧ ∀ a ∈ r, blank a) ∧
      ∀ a ∈ (s.rdropWhile blank).getLast?, blank a = false := by
  constructor
  · refine ⟨s.rtakeWhile blank, List.rdropWhile_append_rtakeWhile.symm, ?_⟩
    intro a ha
    exact List.mem_rtakeWhile_imp ha
  · intro a ha
    have hne : s.rdropWhile blank ≠ [] := by
      intro hnil
      simp [hnil] at ha
    have hlast := List.rdropWhile_last_not blank s hne
    rw [List.getLast?_eq_some_getLast hne] at ha
    obtain rfl := Option.some.inj ha
    simpa using hlast

theorem trimmed_trim (s : List α) : Trimmed blank s (trim blank s) := by
  obtain ⟨⟨r, hs, hr⟩, hlast⟩ := rdropWhile_spec blank (s.dropWhile blank)
  constructor
  · refine ⟨s.takeWhile blank, r, ?_, ?_, hr⟩
    · unfold trim
      rw [List.append_assoc, ← hs]
      exact List.takeWhile_append_dropWhile.symm
    · intro a ha
      exact List.mem_takeWhile_imp ha
  · intro a ha
    have hhead := List.head?_dropWhile_not blank s
    have hsame : (s.dropWhile blank).head? = some a := by
      rw [hs]
      cases ht : (s.dropWhile blank).rdropWhile blank with
      | nil => simp [trim, ht] at ha
      | cons b t => simpa [trim, ht] using ha
    rw [hsame] at hhead
    simpa using hhead
  · exact hlast

theorem Trimmed.eq_trim {s t : List α} (h : Trimmed blank s t) : t = trim blank s := by
  obtain ⟨l, r, rfl, hl, hr⟩ := h.around
  unfold trim
  rw [List.append_assoc, dropWhile_append_blank blank hl]
  by_cases ht : t = []
  · subst ht
    have hnil : r.dropWhile blank = [] := by
      have := dropWhile_append_blank blank (t := []) hr
      simpa using this
    simp [hnil]
  · rw [dropWhile_of_head blank h.head r ht, rdropWhile_append_blank blank hr]
    symm
    apply (List.rdropWhile_eq_self_iff (p := blank)).mpr
    intro hne
    have := h.last (t.getLast hne) (List.getLast?_eq_some_getLast hne)
    simp [this]

theorem trimmed_iff {s t : List α} : Trimmed blank s t ↔ trim blank s = t := by
  constructor
  · intro h
    exact (h.eq_trim blank).symm
  · intro h
    rw [← h]
    exact trimmed_trim blank s

theorem Trimmed.trim_self {s t : List α} (h : Trimmed blank s t) : trim blank t = t := by
  apply (trimmed_iff blank).mp
  exact ⟨⟨[], [], by simp, by simp, by simp⟩, h.head, h.last⟩

end Trim

/-! ### Offsets -/

def byteLen (s : List Char) : ℕ := (s.map Char.utf8Size).sum

/-- The text up to the offset `n`, nothing when `n` is inside a character or beyond the end. -/
def sliceTo : List Char → ℕ → Option (List Char)
  | _, 0 => some []
  | [], _ + 1 => none
  | c :: s, n + 1 => if c.utf8Size ≤ n + 1 then (sliceTo s (n + 1 - c.utf8Size)).map (c :: ·) else none

theorem byteLen_append (s t : List Char) : byteLen (s ++ t) = byteLen s + byteLen t := by
  simp [byteLen]

theorem sliceTo_append (s t : List Char) : sliceTo (s ++ t) (byteLen s) = some s := by
  induction s with
  | nil => cases t <;> rfl
  | cons c s ih =>
    have hpos := c.utf8Size_pos
    have hlen : byteLen (c :: s) = (c.utf8Size + byteLen s - 1) + 1 := by
      simp only [byteLen, List.map_cons, List.sum_cons]
      omega
    have hrest : c.utf8Size + byteLen s - 1 + 1 - c.utf8Size = byteLen s := by
      omega
    rw [List.cons_append, hlen, sliceTo, if_pos (by omega), hrest, ih]
    rfl

/-! ### Decimal numerals -/

def isDigit (c : Char) : Bool := decide ('0' ≤ c) && decide (c ≤ '9')

def digit (c : Char) : ℕ := c.toNat - '0'.toNat

/-- The value of a numeral that continues one of value `acc`. -/
def valueFrom (acc : ℕ) (ds : List Char) : ℕ := ds.foldl (fun v c => v * 10 + digit c) acc

def value (ds : List Char) : ℕ := valueFrom 0 ds

inductive DigitError where
  | invalidDigit
  | overflow
deriving DecidableEq

/-- Each multiplication and each addition is checked against the bound. -/
def readDigits (bound : ℕ) : ℕ → List Char → Except DigitError ℕ
  | acc, [] => .ok acc
  | acc, c :: ds =>
    if isDigit c then
      if acc * 10 ≤ bound then
        if acc * 10 + digit c ≤ bound then readDigits bound (acc * 10 + digit c) ds
        else .error .overflow
      else .error .overflow
    else .error .invalidDigit

theorem le_valueFrom (acc : ℕ) (ds : List Char) : acc ≤ valueFrom acc ds := by
  induction ds generalizing acc with
  | nil => exact Nat.le_refl acc
  | cons c ds ih =>
    have := ih (acc * 10 + digit c)
    have hstep : valueFrom acc (c :: ds) = valueFrom (acc * 10 + digit c) ds := rfl
    omega

theorem readDigits_ok {bound acc : ℕ} (hacc : acc ≤ bound) (ds : List Char) (v : ℕ) :
    readDigits bound acc ds = .ok v ↔
      (∀ c ∈ ds, isDigit c) ∧ valueFrom acc ds = v ∧ v ≤ bound := by
  induction ds generalizing acc with
  | nil =>
    constructor
    · intro h
      obtain rfl := Except.ok.inj h
      exact ⟨by simp, rfl, hacc⟩
    · rintro ⟨-, rfl, -⟩
      rfl
  | cons c ds ih =>
    have hstep : valueFrom acc (c :: ds) = valueFrom (acc * 10 + digit c) ds := rfl
    have hle := le_valueFrom (acc * 10 + digit c) ds
    unfold readDigits
    split_ifs with hc hmul hadd
    · rw [ih hadd, hstep]
      simp [hc]
    · constructor
      · intro h
        cases h
      · rintro ⟨-, hv, hb⟩
        omega
    · constructor
      · intro h
        cases h
      · rintro ⟨-, hv, hb⟩
        omega
    · constructor
      · intro h
        cases h
      · rintro ⟨hall, -⟩
        exact absurd (hall c List.mem_cons_self) hc

end Text
