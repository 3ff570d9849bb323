import Mathlib.Data.List.Basic

/-! # One direction of a stream with a flow-control window

What the sender has written and the receiver has not read yet never exceeds the window
(`bounded`), and only reading makes room.  A write that does not fit is refused as a whole, so a
sender that writes in pieces is blocked exactly when there is no room (`write_of_room`,
`write_full`); what is read is what was written, in order (`write_spec`, `read_spec`). -/

structure Pipe (α : Type) where
  window : ℕ
  /-- Written and not read. -/
  buffer : List α
  /-- The sender will write no more. -/
  finished : Bool
  bounded : buffer.length ≤ window

namespace Pipe

variable {α : Type}

def new (window : ℕ) : Pipe α := ⟨window, [], false, Nat.zero_le _⟩

def room (p : Pipe α) : ℕ := p.window - p.buffer.length

def write (p : Pipe α) (as : List α) : Option (Pipe α) :=
  if h : p.finished = false ∧ p.buffer.length + as.length ≤ p.window then
    some ⟨p.window, p.buffer ++ as, false, by
      rw [List.length_append]
      exact h.2⟩
  else none

def read (p : Pipe α) (n : ℕ) : Option (List α × Pipe α) :=
  if n ≤ p.buffer.length then
    some (p.buffer.take n, ⟨p.window, p.buffer.drop n, p.finished, by
      rw [List.length_drop]
      exact Nat.le_trans (Nat.sub_le _ _) p.bounded⟩)
  else none

def finish (p : Pipe α) : Pipe α := { p with finished := true }

def ended (p : Pipe α) : Bool := p.finished && p.buffer.isEmpty

theorem write_spec {p p' : Pipe α} {as : List α} (h : p.write as = some p') :
    p'.buffer = p.buffer ++ as ∧ p'.window = p.window ∧ p.finished = false ∧ p'.finished = false := by
  unfold write at h
  split_ifs at h with hfits
  obtain rfl := Option.some.inj h
  exact ⟨rfl, rfl, hfits.1, rfl⟩

theorem write_of_room {p : Pipe α} (hopen : p.finished = false) {as : List α}
    (h : as.length ≤ p.room) : ∃ p', p.write as = some p' := by
  have hb := p.bounded
  have hfits : p.buffer.length + as.length ≤ p.window := by
    unfold room at h
    omega
  exact ⟨_, dif_pos ⟨hopen, hfits⟩⟩

theorem write_full {p : Pipe α} (hfull : p.room = 0) {as : List α} (h : as ≠ []) :
    p.write as = none := by
  have hpos := List.length_pos_iff.mpr h
  apply dif_neg
  rintro ⟨-, hfits⟩
  unfold room at hfull
  omega

theorem read_spec {p p' : Pipe α} {n : ℕ} {as : List α} (h : p.read n = some (as, p')) :
    as ++ p'.buffer = p.buffer ∧ as.length = n ∧ p'.window = p.window ∧ p'.finished = p.finished := by
  unfold read at h
  split_ifs at h with hn
  obtain ⟨rfl, rfl⟩ := Prod.mk.inj (Option.some.inj h)
  exact ⟨List.take_append_drop _ _, List.length_take_of_le hn, rfl, rfl⟩

theorem read_of_le {p : Pipe α} {n : ℕ} (h : n ≤ p.buffer.length) :
    ∃ as p', p.read n = some (as, p') := ⟨_, _, if_pos h⟩

theorem ended_iff {p : Pipe α} : p.ended = true ↔ p.finished = true ∧ p.buffer = [] := by
  rw [ended, Bool.and_eq_true, List.isEmpty_iff]

end Pipe
