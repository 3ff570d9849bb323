import MeshSupervisor.Lib.Table

/-! # High-water gates

A gate lets through a stream of numbered items, keeping for each key the number of the
last item that passed: an item passes if its number is above the mark of its key, and then
becomes the mark.  This is the usual protection of a receiver against replayed and
reordered messages.

* `pass` is the gate over all keys, `climb` the gate of one key alone.
* `pass_filter` separates the keys: what passes under a key is what that key's own items
  make pass through a gate of their own.
* `climb_pairwise` says what passes is strictly increasing, and `climb_eq_self` when
  everything passes.
* `sublist_of_increasing` turns "strictly increasing and among the items of `l`" into
  "a subsequence of `l`". -/

namespace Gate

variable {α κ ν : Type} [LinearOrder ν] (num : α → ν)

/-- Items with strictly increasing numbers. -/
def Increasing (l : List α) : Prop := l.Pairwise (fun a b => num a < num b)

/-- The gate of one key: the items above the mark, each raising it. -/
def climb : Option ν → List α → List α
  | _, [] => []
  | mark, a :: l =>
      if mark.any (num a ≤ ·) then climb mark l else a :: climb (some (num a)) l

theorem climb_above {mark : Option ν} {n : ν} (hm : mark = some n) (l : List α) :
    ∀ a ∈ climb num mark l, n < num a := by
  induction l generalizing mark n with
  | nil => intro a ha; cases ha
  | cons b l ih =>
      intro a ha
      simp only [climb, hm, Option.any_some, decide_eq_true_eq] at ha
      by_cases hb : num b ≤ n
      · rw [if_pos hb] at ha
        exact ih rfl a ha
      · rw [if_neg hb] at ha
        have hlt : n < num b := lt_of_not_ge hb
        obtain rfl | ha := List.mem_cons.mp ha
        · exact hlt
        · exact hlt.trans (ih rfl a ha)

theorem climb_pairwise (mark : Option ν) (l : List α) : Increasing num (climb num mark l) := by
  unfold Increasing
  induction l generalizing mark with
  | nil => exact List.Pairwise.nil
  | cons b l ih =>
      unfold climb
      by_cases hb : mark.any (num b ≤ ·) = true
      · rw [if_pos hb]
        exact ih mark
      · rw [if_neg hb]
        exact List.Pairwise.cons (climb_above num rfl l) (ih _)

theorem climb_sublist (mark : Option ν) (l : List α) : (climb num mark l).Sublist l := by
  induction l generalizing mark with
  | nil => exact List.Sublist.slnil
  | cons b l ih =>
      unfold climb
      by_cases hb : mark.any (num b ≤ ·) = true
      · rw [if_pos hb]
        exact (ih mark).cons b
      · rw [if_neg hb]
        exact (ih _).cons_cons b

theorem climb_of_increasing {mark : Option ν} {l : List α} (hm : ∀ n ∈ mark, ∀ a ∈ l, n < num a)
    (hl : Increasing num l) : climb num mark l = l := by
  unfold Increasing at hl
  induction l generalizing mark with
  | nil => rfl
  | cons b l ih =>
      obtain ⟨hb, hl⟩ := List.pairwise_cons.mp hl
      have hpass : ¬ mark.any (num b ≤ ·) = true := by
        intro hany
        obtain ⟨n, hn, hle⟩ := Option.any_eq_true _ _ |>.mp hany
        have hlt := hm n hn b List.mem_cons_self
        exact absurd hlt (not_lt_of_ge (of_decide_eq_true hle))
      unfold climb
      rw [if_neg hpass, ih _ hl]
      intro n hn a ha
      obtain rfl := Option.some.inj hn
      exact hb a ha

/-- **A fresh gate lets everything pass exactly when the numbers increase.** -/
theorem climb_eq_self (l : List α) : climb num none l = l ↔ Increasing num l := by
  constructor
  · intro h
    rw [← h]
    exact climb_pairwise num none l
  · intro h
    exact climb_of_increasing num (fun n hn => by cases hn) h

/-- Increasing items, all of them among the items of an increasing list, are a subsequence
of it. -/
theorem sublist_of_increasing {l₁ l₂ : List α} (h₁ : Increasing num l₁) (h₂ : Increasing num l₂)
    (hsub : ∀ a ∈ l₁, a ∈ l₂) : l₁.Sublist l₂ := by
  have hirrefl : ∀ {a b : α}, num a < num b → a ≠ b := by
    rintro a b hab rfl
    exact lt_irrefl _ hab
  have hnodup : l₁.Nodup := h₁.imp hirrefl
  have hanti : Std.Antisymm (fun a b : α => num a < num b) :=
    ⟨fun a b hab hba => absurd (hab.trans hba) (lt_irrefl _)⟩
  exact List.sublist_of_subperm_of_pairwise (List.subperm_of_subset hnodup hsub) h₁ h₂

variable (key : α → κ) [DecidableEq κ]

/-- The gate over all keys. -/
def pass : Table κ ν → List α → List α
  | _, [] => []
  | marks, a :: l =>
      if (marks.lookup (key a)).any (num a ≤ ·) then pass marks l
      else a :: pass (AList.insert (key a) (num a) marks) l

/-- **Keys do not interfere**: what passes under a key depends on that key's items and mark
alone. -/
theorem pass_filter (k : κ) (marks : Table κ ν) (l : List α) :
    (pass num key marks l).filter (key · = k) =
      climb num (marks.lookup k) (l.filter (key · = k)) := by
  induction l generalizing marks with
  | nil => rfl
  | cons b l ih =>
      unfold pass
      by_cases hk : key b = k
      · subst hk
        rw [List.filter_cons_of_pos (by simp)]
        unfold climb
        by_cases hb : (marks.lookup (key b)).any (num b ≤ ·) = true
        · rw [if_pos hb, if_pos hb]
          exact ih marks
        · rw [if_neg hb, if_neg hb, List.filter_cons_of_pos (by simp), ih, AList.lookup_insert]
      · rw [List.filter_cons_of_neg (by simpa using hk)]
        by_cases hb : (marks.lookup (key b)).any (num b ≤ ·) = true
        · rw [if_pos hb]
          exact ih marks
        · rw [if_neg hb, List.filter_cons_of_neg (by simpa using hk), ih,
            AList.lookup_insert_ne (Ne.symm hk)]

end Gate
