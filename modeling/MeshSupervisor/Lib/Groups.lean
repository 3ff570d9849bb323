import MeshSupervisor.Lib.Table
import Mathlib.Data.List.Induction

/-! # Groups of processes in a tree

The tree of groups in which an operating system accounts for processes and limits them.  A group is
named by its path; every process is in one group.  A group hands on some of its controllers, and a
child group may ask for a limit by each controller it is given so; what is kept of a limit is the
number that was asked for, which the system may round.

* `create`, `remove`, `enable`, `askLimit` and `attach` are the operations, with `none` when the
  system refuses; each has a lemma that says when it succeeds and what it does (`create_some` and
  so on).
* `Sound` is what the system keeps of such a tree: every group has its parent, and every process is
  in a group that exists. -/

/-- A group: the controllers it hands on, and the limits that were last asked for. -/
structure ProcGroup (χ : Type) where
  control : List χ
  asked : χ → Option ℕ

/-- The groups, and the group of each process. -/
structure Groups (κ χ π : Type) where
  groups : Table (List κ) (ProcGroup χ)
  place : Table π (List κ)

namespace Groups

variable {κ χ π : Type} [DecidableEq κ] [DecidableEq π]

/-- The group at `p`. -/
def at? (t : Groups κ χ π) (p : List κ) : Option (ProcGroup χ) := t.groups.lookup p

def members (t : Groups κ χ π) (p : List κ) : List π :=
  (t.place.entries.filter (fun x => p.isPrefixOf x.2)).map Sigma.fst

def create (t : Groups κ χ π) (p : List κ) : Option (Groups κ χ π) :=
  if (t.at? p.dropLast).isSome ∧ t.at? p = none then
    some { t with groups := AList.insert p ⟨[], fun _ => none⟩ t.groups }
  else none

/-- Only an empty group can be removed. -/
def remove (t : Groups κ χ π) (p : List κ) : Option (Groups κ χ π) :=
  if (t.at? p).isSome ∧ (∀ x ∈ t.place.entries, x.2 ≠ p) ∧
      ∀ q ∈ t.groups.keys, q ≠ [] → q.dropLast ≠ p then
    some { t with groups := AList.erase p t.groups }
  else none

/-- Hand on the controllers `cs`, which the group is given itself; a group with processes of its own
cannot. -/
def enable [DecidableEq χ] (t : Groups κ χ π) (p : List κ) (cs : List χ) : Option (Groups κ χ π) :=
  match t.at? p, t.at? p.dropLast with
  | some g, some up =>
      if (∀ c ∈ cs, c ∈ up.control) ∧ ∀ x ∈ t.place.entries, x.2 ≠ p then
        some { t with groups := AList.insert p { g with control := g.control ∪ cs } t.groups }
      else none
  | _, _ => none

/-- Ask for a limit by a controller that the group is given. -/
def askLimit [DecidableEq χ] (t : Groups κ χ π) (p : List κ) (c : χ) (n : ℕ) : Option (Groups κ χ π) :=
  match t.at? p, t.at? p.dropLast with
  | some g, some up =>
      if c ∈ up.control then
        let asked := fun c' => if c' = c then some n else g.asked c'
        some { t with groups := AList.insert p { g with asked := asked } t.groups }
      else none
  | _, _ => none

/-- Move a process to a group, which must not hand on controllers. -/
def attach (t : Groups κ χ π) (p : List κ) (proc : π) : Option (Groups κ χ π) :=
  match t.at? p with
  | some g => if g.control = [] then some { t with place := AList.insert proc p t.place } else none
  | none => none

/-! ### What the operations do -/

section Specs

variable {t t' : Groups κ χ π} {p : List κ}

omit [DecidableEq π] in
theorem create_some (h : t.create p = some t') :
    (t.at? p.dropLast).isSome ∧ t.at? p = none ∧ t'.place = t.place ∧
      ∀ q, t'.at? q = if q = p then some ⟨[], fun _ => none⟩ else t.at? q := by
  unfold create at h
  split_ifs at h with hcond
  obtain rfl := Option.some.inj h
  exact ⟨hcond.1, hcond.2, rfl, fun q => Table.lookup_insert_if _ _ _ _⟩

omit [DecidableEq π] in
theorem remove_some (h : t.remove p = some t') :
    (t.at? p).isSome ∧ (∀ x ∈ t.place.entries, x.2 ≠ p) ∧ (∀ k, t.at? (p ++ [k]) = none) ∧
      t'.place = t.place ∧ ∀ q, t'.at? q = if q = p then none else t.at? q := by
  unfold remove at h
  split_ifs at h with hcond
  obtain rfl := Option.some.inj h
  refine ⟨hcond.1, hcond.2.1, ?_, rfl, fun q => Table.lookup_erase_if _ _ _⟩
  intro k
  by_contra hne
  have hmem : p ++ [k] ∈ t.groups.keys :=
    AList.lookup_isSome.mp (Option.isSome_iff_ne_none.mpr hne)
  exact hcond.2.2 _ hmem (by simp) List.dropLast_concat

omit [DecidableEq π] in
theorem enable_some [DecidableEq χ] {cs : List χ} (h : t.enable p cs = some t') :
    ∃ g, t.at? p = some g ∧ t'.place = t.place ∧ (∀ x ∈ t.place.entries, x.2 ≠ p) ∧
      (∃ up, t.at? p.dropLast = some up ∧ ∀ c ∈ cs, c ∈ up.control) ∧
      ∀ q, t'.at? q = if q = p then some { g with control := g.control ∪ cs } else t.at? q := by
  unfold enable at h
  split at h
  · rename_i g up hg hup
    split_ifs at h with hcond
    obtain rfl := Option.some.inj h
    exact ⟨g, hg, rfl, hcond.2, ⟨up, hup, hcond.1⟩, fun q => Table.lookup_insert_if _ _ _ _⟩
  · cases h

omit [DecidableEq π] in
theorem askLimit_some [DecidableEq χ] {c : χ} {n : ℕ} (h : t.askLimit p c n = some t') :
    ∃ g, t.at? p = some g ∧ t'.place = t.place ∧
      (∃ up, t.at? p.dropLast = some up ∧ c ∈ up.control) ∧
      ∀ q, t'.at? q = if q = p then
        some { g with asked := fun c' => if c' = c then some n else g.asked c' } else t.at? q := by
  unfold askLimit at h
  split at h
  · rename_i g up hg hup
    split_ifs at h with hcond
    obtain rfl := Option.some.inj h
    exact ⟨g, hg, rfl, ⟨up, hup, hcond⟩, fun q => Table.lookup_insert_if _ _ _ _⟩
  · cases h

theorem attach_some {proc : π} (h : t.attach p proc = some t') :
    (∃ g, t.at? p = some g ∧ g.control = []) ∧ t'.groups = t.groups ∧
      ∀ q, t'.place.lookup q = if q = proc then some p else t.place.lookup q := by
  unfold attach at h
  split at h
  · rename_i g hg
    split_ifs at h with hcond
    obtain rfl := Option.some.inj h
    exact ⟨⟨g, hg, hcond⟩, rfl, fun q => Table.lookup_insert_if _ _ _ _⟩
  · cases h

end Specs

/-! ### What the system keeps -/

/-- Every group but the root has its parent, every process is in a group. -/
structure Sound (root : List κ) (t : Groups κ χ π) : Prop where
  parent : ∀ p k, (t.at? (p ++ [k])).isSome → p ++ [k] = root ∨ (t.at? p).isSome
  placed : ∀ proc p, t.place.lookup proc = some p → (t.at? p).isSome

namespace Sound

variable {root : List κ} {t t' : Groups κ χ π} {p : List κ}

/-- It is enough to look at the groups and the processes that there are. -/
theorem of_keys (hkeys : ∀ q ∈ t.groups.keys, q ≠ [] → q = root ∨ (t.at? q.dropLast).isSome = true)
    (hplace : ∀ x ∈ t.place.entries, (t.at? x.2).isSome = true) : Sound root t := by
  constructor
  · intro p k hsome
    have h := hkeys (p ++ [k]) (AList.lookup_isSome.mp hsome) (by simp)
    rwa [List.dropLast_concat] at h
  · intro proc p hp
    exact hplace ⟨proc, p⟩ (AList.mem_lookup_iff.mp hp)

/-- A group that does not exist has no children. -/
theorem childless (h : Sound root t) (hp : t.at? p = none) {k : κ} (hroot : p ++ [k] ≠ root) :
    t.at? (p ++ [k]) = none := by
  by_contra hne
  rcases h.parent p k (Option.isSome_iff_ne_none.mpr hne) with heq | hsome
  · exact hroot heq
  · rw [hp] at hsome
    cases hsome

theorem absent (h : Sound root t) (hp : t.at? p = none) (hroot : root.length ≤ p.length) (q : List κ) :
    t.at? (p ++ q) = none := by
  induction q using List.reverseRecOn with
  | nil => simpa using hp
  | append_singleton q k ih =>
      rw [← List.append_assoc]
      apply h.childless ih
      intro heq
      have hlen := congrArg List.length heq
      simp only [List.length_append, List.length_singleton] at hlen
      omega

theorem deserted (h : Sound root t) (hp : t.at? p = none) (hroot : root.length ≤ p.length) {proc : π}
    {q : List κ} (hq : t.place.lookup proc = some q) : ¬ p <+: q := by
  rintro ⟨r, rfl⟩
  have hsome := h.placed proc _ hq
  rw [h.absent hp hroot] at hsome
  cases hsome

theorem create (h : Sound root t) (hc : t.create p = some t') : Sound root t' := by
  obtain ⟨hup, hnone, hplace, hat⟩ := create_some hc
  have hkeep : ∀ q, (t.at? q).isSome → (t'.at? q).isSome := by
    intro q hq
    rw [hat]
    split_ifs
    · rfl
    · exact hq
  constructor
  · intro q k hq
    rw [hat] at hq
    split_ifs at hq with heq
    · right
      rw [← heq, List.dropLast_concat] at hup
      exact hkeep q hup
    · exact (h.parent q k hq).imp_right (hkeep q)
  · intro proc q hq
    rw [hplace] at hq
    exact hkeep q (h.placed proc q hq)

theorem remove (h : Sound root t) (hr : t.remove p = some t') : Sound root t' := by
  obtain ⟨-, hempty, hleaf, hplace, hat⟩ := remove_some hr
  constructor
  · intro q k hq
    rw [hat] at hq
    split_ifs at hq with heq
    · cases hq
    · refine (h.parent q k hq).imp_right fun hup => ?_
      rw [hat, if_neg]
      · exact hup
      · rintro rfl
        rw [hleaf k] at hq
        cases hq
  · intro proc q hq
    rw [hplace] at hq
    rw [hat, if_neg]
    · exact h.placed proc q hq
    · exact hempty ⟨proc, q⟩ (AList.mem_lookup_iff.mp hq)

theorem update (h : Sound root t) {g g' : ProcGroup χ} (hg : t.at? p = some g)
    (hplace : t'.place = t.place) (hat : ∀ q, t'.at? q = if q = p then some g' else t.at? q) :
    Sound root t' := by
  have hsome : ∀ q, (t'.at? q).isSome = (t.at? q).isSome := by
    intro q
    rw [hat]
    split_ifs with heq
    · rw [heq, hg]
      rfl
    · rfl
  constructor
  · intro q k hq
    rw [hsome] at hq ⊢
    exact h.parent q k hq
  · intro proc q hq
    rw [hplace] at hq
    rw [hsome]
    exact h.placed proc q hq

theorem attach (h : Sound root t) {proc : π} (ha : t.attach p proc = some t') : Sound root t' := by
  obtain ⟨⟨g, hg, -⟩, hgroups, hplace⟩ := attach_some ha
  have hat : ∀ q, t'.at? q = t.at? q := by
    intro q
    unfold at?
    rw [hgroups]
  constructor
  · intro q k hq
    rw [hat] at hq ⊢
    exact h.parent q k hq
  · intro proc' q hq
    rw [hplace] at hq
    rw [hat]
    split_ifs at hq
    · obtain rfl := Option.some.inj hq
      rw [hg]
      rfl
    · exact h.placed proc' q hq

end Sound

end Groups
