import Mathlib.Data.List.AList
import Mathlib.Data.List.Dedup
import Mathlib.Data.List.Sort

/-! # Finite maps with in-place modification

`Table κ V` is Mathlib's association list with one entry per key.  Lookup after each
update is stated once, with the case distinction on the key, so that proofs about a table
never look at the underlying list; `modify` is the "find the entry and change it" update
that leaves an absent key absent. -/

abbrev Table (κ V : Type) := AList fun _ : κ => V

namespace Table

variable {κ V W : Type} [DecidableEq κ]

theorem lookup_insert_if (t : Table κ V) (k k' : κ) (v : V) :
    (AList.insert k v t).lookup k' = if k' = k then some v else t.lookup k' := by
  by_cases h : k' = k
  · subst h; simp
  · rw [AList.lookup_insert_ne h, if_neg h]

theorem lookup_erase_if (t : Table κ V) (k k' : κ) :
    (AList.erase k t).lookup k' = if k' = k then none else t.lookup k' := by
  by_cases h : k' = k
  · subst h; simp
  · rw [AList.lookup_erase_ne h, if_neg h]

/-- Change the value at `k`, if there is one. -/
def modify (t : Table κ V) (k : κ) (f : V → V) : Table κ V :=
  match t.lookup k with
  | none => t
  | some v => AList.insert k (f v) t

theorem erase_insert {t : Table κ V} {k : κ} (h : k ∉ t) (v : V) :
    AList.erase k (AList.insert k v t) = t := by
  apply AList.ext
  show List.kerase k (AList.insert k v t).entries = t.entries
  rw [AList.entries_insert_of_notMem h]
  exact List.kerase_cons_eq rfl

theorem lookup_modify (t : Table κ V) (k k' : κ) (f : V → V) :
    (modify t k f).lookup k' = if k' = k then (t.lookup k).map f else t.lookup k' := by
  unfold modify
  cases h : t.lookup k with
  | none =>
      by_cases hk : k' = k
      · subst hk; simp [h]
      · simp [hk]
  | some v => simp only [lookup_insert_if, Option.map_some]

/-- Keep the entries that pass `p`. -/
def retain (t : Table κ V) (p : κ → V → Bool) : Table κ V :=
  ⟨t.entries.filter (fun x => p x.1 x.2), t.nodupKeys.sublist List.filter_sublist⟩

/-- The entry with the least value of `f`, the first of several. -/
def minBy {ν : Type} [LE ν] [DecidableLE ν] (f : V → ν) : List (Σ _ : κ, V) → Option (Σ _ : κ, V)
  | [] => none
  | x :: l =>
      match minBy f l with
      | none => some x
      | some y => if f x.2 ≤ f y.2 then some x else some y

theorem length_keys_le {t : Table κ V} {l : List κ} (h : ∀ k, (t.lookup k).isSome = true → k ∈ l) :
    t.keys.length ≤ l.dedup.length := by
  have hsub : t.keys ⊆ l.dedup := by
    intro k hk
    exact List.mem_dedup.mpr (h k (AList.lookup_isSome.mpr hk))
  exact (List.subperm_of_subset t.keys_nodup hsub).length_le

theorem length_keys_insert_le (t : Table κ V) (k : κ) (v : V) :
    (AList.insert k v t).keys.length ≤ t.keys.length + 1 := by
  rw [AList.keys_insert, List.length_cons]
  exact Nat.succ_le_succ List.length_erase_le

theorem length_keys_erase {t : Table κ V} {k : κ} (h : k ∈ t) :
    (AList.erase k t).keys.length + 1 = t.keys.length := by
  rw [AList.keys_erase]
  exact List.length_erase_add_one h

omit [DecidableEq κ] in
theorem length_keys_retain_le (t : Table κ V) (p : κ → V → Bool) :
    (retain t p).keys.length ≤ t.keys.length := by
  simp only [AList.keys, List.keys, List.length_map, retain]
  exact List.length_filter_le _ _

theorem lookup_retain (t : Table κ V) (p : κ → V → Bool) (k : κ) :
    (retain t p).lookup k = (t.lookup k).filter (p k) := by
  have hmem : ∀ v, (retain t p).lookup k = some v ↔ t.lookup k = some v ∧ p k v = true := by
    intro v
    rw [← Option.mem_def, ← Option.mem_def, AList.mem_lookup_iff, AList.mem_lookup_iff]
    exact List.mem_filter
  cases h : (retain t p).lookup k with
  | some v =>
      obtain ⟨hv, hp⟩ := (hmem v).mp h
      rw [hv, Option.filter_some, if_pos hp]
  | none =>
      cases hk : t.lookup k with
      | none => rfl
      | some v =>
          rw [Option.filter_some, if_neg]
          intro hp
          rw [(hmem v).mpr ⟨hk, hp⟩] at h
          cases h

omit [DecidableEq κ] in
theorem minBy_spec {ν : Type} [LinearOrder ν] (f : V → ν) (l : List (Σ _ : κ, V)) :
    match minBy f l with
    | none => l = []
    | some x => x ∈ l ∧ ∀ y ∈ l, f x.2 ≤ f y.2 := by
  induction l with
  | nil => rfl
  | cons x l ih =>
      unfold minBy
      cases hm : minBy f l with
      | none =>
          rw [hm] at ih
          obtain rfl := ih
          simp
      | some z =>
          rw [hm] at ih
          obtain ⟨hz, hle⟩ := ih
          by_cases hxz : f x.2 ≤ f z.2
          · simp only [hxz, if_true]
            refine ⟨List.mem_cons_self, ?_⟩
            intro y hy
            rcases List.mem_cons.mp hy with rfl | hy
            · exact le_rfl
            · exact hxz.trans (hle y hy)
          · simp only [hxz, if_false]
            refine ⟨List.mem_cons_of_mem _ hz, ?_⟩
            intro y hy
            rcases List.mem_cons.mp hy with rfl | hy
            · exact (not_le.mp hxz).le
            · exact hle y hy

def values (t : Table κ V) : List V := t.entries.map Sigma.snd

theorem mem_values {t : Table κ V} {v : V} : v ∈ values t ↔ ∃ k, t.lookup k = some v := by
  simp only [values, List.mem_map]
  constructor
  · rintro ⟨⟨k, w⟩, hmem, rfl⟩
    exact ⟨k, AList.mem_lookup_iff.mpr hmem⟩
  · rintro ⟨k, hk⟩
    exact ⟨⟨k, v⟩, AList.mem_lookup_iff.mp hk, rfl⟩

/-! ### A table read back from a sorted listing -/

def sortKeys (le : κ → κ → Prop) [DecidableRel le] (l : List (Σ _ : κ, V)) :
    List (Σ _ : κ, V) :=
  l.insertionSort (fun a b => le a.1 b.1)

omit [DecidableEq κ] in
theorem sortKeys_perm (le : κ → κ → Prop) [DecidableRel le] (l : List (Σ _ : κ, V)) :
    (sortKeys le l).Perm l := List.perm_insertionSort _ l

theorem dlookup_sortKeys (le : κ → κ → Prop) [DecidableRel le] {l : List (Σ _ : κ, V)}
    (h : l.NodupKeys) (k : κ) : (sortKeys le l).dlookup k = l.dlookup k :=
  (List.perm_dlookup k h (sortKeys_perm le l).symm).symm

theorem dlookup_map_values (f : V → W) (l : List (Σ _ : κ, V)) (k : κ) :
    (l.map (fun x => (⟨x.1, f x.2⟩ : Σ _ : κ, W))).dlookup k = (l.dlookup k).map f := by
  induction l with
  | nil => rfl
  | cons x l ih =>
      obtain ⟨k', v⟩ := x
      by_cases h : k = k'
      · subst h; simp
      · have e1 := List.dlookup_cons_ne (β := fun _ => V) l ⟨k', v⟩ h
        have e2 := List.dlookup_cons_ne (β := fun _ => W)
          (l.map (fun x => (⟨x.1, f x.2⟩ : Σ _ : κ, W))) ⟨k', f v⟩ h
        rw [List.map_cons, e1, ← ih]
        exact e2

end Table
