import MeshSupervisor.Lib.Table
import Mathlib.Data.List.Infix
import Mathlib.Logic.Relation

/-! # Mounts and path walks

Mounted file systems, as the processes of a mount namespace see them.  A place is a mount and a path
from its root; a mount covers the place that it is mounted on.

* `mountOn` mounts a new file system on a place and `umount` takes it off; `Resolves` is how a path
  from the root names a place, and `resolve?` computes it.
* `Walk` is one step of a path: down by a name, up, or back to the root, as an absolute path or
  link goes.  A step never ends at a covered place, except for the root itself.  `Reaches` is any
  number of steps.
* `Opens`: a walk comes to a file.  What file is at a place is a parameter, since hard links and bind
  mounts put one file at several places.
* `opens_covered`: a file in a covered directory is opened there by those who were in the directory
  when it was covered, and by nobody else; `opens_uncovered`: by everybody once the cover is off. -/

open Relation

/-- A place: a mount, and a path from its root. -/
structure Place (κ : Type) where
  mount : ℕ
  path : List κ
deriving DecidableEq

/-- The mount on each place that has one, and the number of the next. -/
structure Mounts (κ : Type) where
  mounted : Table (Place κ) ℕ
  next : ℕ

namespace Mounts

variable {κ : Type} [DecidableEq κ]

/-- Mount a new file system on a place. -/
def mountOn (t : Mounts κ) (l : Place κ) : Mounts κ := ⟨AList.insert l t.next t.mounted, t.next + 1⟩

/-- Take the mount off a place. -/
def umount (t : Mounts κ) (l : Place κ) : Mounts κ := ⟨AList.erase l t.mounted, t.next⟩

@[simp] theorem lookup_mountOn (t : Mounts κ) (l l' : Place κ) :
    (t.mountOn l).mounted.lookup l' = if l' = l then some t.next else t.mounted.lookup l' :=
  Table.lookup_insert_if _ _ _ _

/-- From a place to the root of the topmost mount on it. -/
inductive Crosses (t : Mounts κ) : Place κ → Place κ → Prop
  | top {l : Place κ} : t.mounted.lookup l = none → Crosses t l l
  | mounted {l l' : Place κ} {m : ℕ} :
      t.mounted.lookup l = some m → Crosses t ⟨m, []⟩ l' → Crosses t l l'

/-- The parent: that of the place a mount is on, for the root of the mount. -/
inductive Up (t : Mounts κ) (root : Place κ) : Place κ → Place κ → Prop
  | parent {m : ℕ} {p : List κ} {k : κ} {l' : Place κ} :
      Crosses t ⟨m, p⟩ l' → Up t root ⟨m, p ++ [k]⟩ l'
  | out {l l' : Place κ} {m : ℕ} : t.mounted.lookup l = some m → Up t root l l' → Up t root ⟨m, []⟩ l'
  | stay {l' : Place κ} : Crosses t root l' → Up t root root l'

/-- One step of a path. -/
inductive Walk (t : Mounts κ) (root : Place κ) : Place κ → Place κ → Prop
  | down {l l' : Place κ} (k : κ) : Crosses t ⟨l.mount, l.path ++ [k]⟩ l' → Walk t root l l'
  | up {l l' : Place κ} : Up t root l l' → Walk t root l l'
  | restart {l : Place κ} : Walk t root l root

/-- Some path leads from `l` to `l'`. -/
def Reaches (t : Mounts κ) (root : Place κ) : Place κ → Place κ → Prop := ReflTransGen (Walk t root)

/-- Some path leads from `l` to the file `i`, where `files` are the files at the places. -/
def Opens {ι : Type} (t : Mounts κ) (root : Place κ) (files : Place κ → Option ι) (l : Place κ) (i : ι) :
    Prop :=
  ∃ l', Reaches t root l l' ∧ files l' = some i

/-- An absolute path without links names a place. -/
inductive Resolves (t : Mounts κ) (root : Place κ) : List κ → Place κ → Prop
  | root {l : Place κ} : Crosses t root l → Resolves t root [] l
  | down {p : List κ} {k : κ} {l l' : Place κ} :
      Resolves t root p l → Crosses t ⟨l.mount, l.path ++ [k]⟩ l' → Resolves t root (p ++ [k]) l'

/-! ### Resolution -/

/-- The root of the topmost mount, through at most `n` of them. -/
def cross? (t : Mounts κ) : ℕ → Place κ → Option (Place κ)
  | 0, _ => none
  | n + 1, l =>
      match t.mounted.lookup l with
      | none => some l
      | some m => t.cross? n ⟨m, []⟩

theorem cross?_crosses {t : Mounts κ} {n : ℕ} {l l' : Place κ} (h : t.cross? n l = some l') :
    Crosses t l l' := by
  induction n generalizing l with
  | zero => cases h
  | succ n ih =>
      unfold cross? at h
      split at h
      · rename_i hnone
        obtain rfl := Option.some.inj h
        exact .top hnone
      · rename_i m hsome
        exact .mounted hsome (ih h)

def descend (t : Mounts κ) (l : Place κ) : List κ → Option (Place κ)
  | [] => some l
  | k :: p => (t.cross? (t.next + 1) ⟨l.mount, l.path ++ [k]⟩).bind fun l' => t.descend l' p

def resolve? (t : Mounts κ) (root : Place κ) (p : List κ) : Option (Place κ) :=
  (t.cross? (t.next + 1) root).bind fun l => t.descend l p

theorem resolve?_resolves {t : Mounts κ} {root l' : Place κ} {p : List κ}
    (h : t.resolve? root p = some l') : Resolves t root p l' := by
  have hgoal : ∀ (p p₀ : List κ) l, Resolves t root p₀ l → t.descend l p = some l' →
      Resolves t root (p₀ ++ p) l' := by
    intro p
    induction p with
    | nil =>
        intro p₀ l hl hd
        obtain rfl := Option.some.inj hd
        rwa [List.append_nil]
    | cons k p ih =>
        intro p₀ l hl hd
        obtain ⟨l₁, hcross, hrest⟩ := Option.bind_eq_some_iff.mp hd
        have hstep := ih (p₀ ++ [k]) l₁ (.down hl (cross?_crosses hcross)) hrest
        rwa [List.append_assoc, List.singleton_append] at hstep
  obtain ⟨l, hcross, hd⟩ := Option.bind_eq_some_iff.mp h
  exact hgoal p [] l (.root (cross?_crosses hcross)) hd

section Reach

variable {t : Mounts κ} {root l l' dir : Place κ}

theorem Crosses.uncovered (h : Crosses t l l') : t.mounted.lookup l' = none := by
  induction h with
  | top hnone => exact hnone
  | mounted _ _ ih => exact ih

/-- One crosses to where one is, or to the root of a mount. -/
theorem Crosses.eq_of_path (h : Crosses t l l') (hpath : l'.path ≠ []) : l = l' := by
  have hgoal : l = l' ∨ l'.path = [] := by
    induction h with
    | top _ => exact .inl rfl
    | mounted _ hcross ih =>
        right
        rcases ih hpath with rfl | hnil
        · rfl
        · exact hnil
  exact hgoal.resolve_right hpath

theorem Resolves.bare (hbare : ∀ l, t.mounted.lookup l = none) {p : List κ} (h : Resolves t root p l) :
    l = ⟨root.mount, root.path ++ p⟩ := by
  have hcross : ∀ {l l'}, Crosses t l l' → l = l' := by
    rintro l l' (_ | ⟨hsome, -⟩)
    · rfl
    · rw [hbare l] at hsome
      cases hsome
  induction h with
  | root h => simp [← hcross h]
  | down _ h ih => simp [← hcross h, ih]

theorem Crosses.congr {t' : Mounts κ} (ht : t'.mounted = t.mounted) (h : Crosses t l l') :
    Crosses t' l l' := by
  induction h with
  | top hnone => exact .top (ht ▸ hnone)
  | mounted hsome _ ih => exact .mounted (ht ▸ hsome) ih

theorem Resolves.congr {t' : Mounts κ} (ht : t'.mounted = t.mounted) {p : List κ}
    (h : Resolves t root p l) : Resolves t' root p l := by
  induction h with
  | root h => exact .root (h.congr ht)
  | down _ h ih => exact .down ih (h.congr ht)

theorem Resolves.uncovered {p : List κ} (h : Resolves t root p l) : t.mounted.lookup l = none := by
  cases h with
  | root h => exact h.uncovered
  | down _ h => exact h.uncovered

/-- What an absolute path names is reached from everywhere. -/
theorem Resolves.reaches {p : List κ} (h : Resolves t root p l') (l : Place κ) :
    Reaches t root l l' := by
  induction h with
  | root h => exact .head .restart (.single (.up (.stay h)))
  | down _ h ih => exact ih.tail (.down _ h)

/-- A mount that is taken off again leaves nothing behind. -/
theorem umount_mountOn (h : t.mounted.lookup l = none) :
    ((t.mountOn l).umount l).mounted = t.mounted := by
  apply Table.erase_insert
  rwa [← AList.lookup_eq_none]

theorem Up.uncovered (h : Up t root l l') : t.mounted.lookup l' = none := by
  induction h with
  | parent hcross => exact hcross.uncovered
  | out _ _ ih => exact ih
  | stay hcross => exact hcross.uncovered

/-- A covered place is reached by who is there already. -/
theorem Reaches.covered (h : Reaches t root l dir) (hcov : (t.mounted.lookup dir).isSome = true) :
    l = dir ∨ root = dir := by
  cases h with
  | refl => exact .inl rfl
  | tail _ hstep =>
      right
      have hne : ∀ l', t.mounted.lookup l' = none → l' ≠ dir := by
        rintro l' hnone rfl
        rw [hnone] at hcov
        cases hcov
      cases hstep with
      | down k hcross => exact absurd rfl (hne _ hcross.uncovered)
      | up hup => exact absurd rfl (hne _ hup.uncovered)
      | restart => rfl

/-- Below a file, there is nothing that a walk could come from. -/
def Under (dir : Place κ) (f : κ) (l : Place κ) : Prop :=
  ∃ q, l = ⟨dir.mount, dir.path ++ f :: q⟩

theorem Crosses.under {f : κ} (h : Crosses t l l') (hunder : Under dir f l') : Under dir f l := by
  obtain ⟨q, rfl⟩ := hunder
  have heq := h.eq_of_path (by simp)
  exact ⟨q, heq⟩

theorem Up.under {f : κ} (hfile : ∀ l, Under dir f l → t.mounted.lookup l = none)
    (hroot : ¬ Under dir f root) (h : Up t root l l') (hunder : Under dir f l') : Under dir f l := by
  induction h with
  | @parent m p k l'' hcross =>
      obtain ⟨q, hq⟩ := hcross.under hunder
      obtain ⟨rfl, rfl⟩ := Place.mk.inj hq
      exact ⟨q ++ [k], by simp⟩
  | @out l₁ l₂ m hover hup ih =>
      have hnone := hfile l₁ (ih hunder)
      rw [hover] at hnone
      cases hnone
  | stay hcross => exact absurd (hcross.under hunder) hroot

/-- The place of a file in a covered directory is reached by who is in the directory, or has it for a
root. -/
theorem reaches_file {f : κ} (hcov : (t.mounted.lookup dir).isSome = true)
    (hfile : ∀ l, Under dir f l → t.mounted.lookup l = none) (hroot : ¬ Under dir f root)
    (hl : ¬ Under dir f l) :
    Reaches t root l ⟨dir.mount, dir.path ++ [f]⟩ ↔ l = dir ∨ root = dir := by
  constructor
  · intro h
    have hgoal : ∀ l', Reaches t root l l' → Under dir f l' → Reaches t root l dir := by
      intro l' hreach
      induction hreach with
      | refl => exact fun hunder => absurd hunder hl
      | @tail l₁ l₂ hprev hstep ih =>
          intro hunder
          cases hstep with
          | restart => exact absurd hunder hroot
          | up hup => exact ih (hup.under hfile hroot hunder)
          | down k hcross =>
              obtain ⟨q, hq⟩ := hcross.under hunder
              obtain ⟨hm, hp⟩ := Place.mk.inj hq
              -- either the file itself was entered from `dir`, or something under it
              cases q using List.reverseRecOn with
              | nil =>
                  obtain ⟨hpath, -⟩ := List.append_inj' hp rfl
                  have hdir : l₁ = dir := by
                    cases l₁
                    cases dir
                    simp_all
                  rw [← hdir]
                  exact hprev
              | append_singleton q k' =>
                  apply ih
                  refine ⟨q, ?_⟩
                  rw [← List.cons_append, ← List.append_assoc] at hp
                  obtain ⟨hpath, -⟩ := List.append_inj' hp rfl
                  cases l₁
                  simp_all
    exact (hgoal _ h ⟨[], rfl⟩).covered hcov
  · have hdown : Walk t root dir ⟨dir.mount, dir.path ++ [f]⟩ :=
      .down f (.top (hfile _ ⟨[], rfl⟩))
    rintro (rfl | rfl)
    · exact .single hdown
    · exact .head .restart (.single hdown)

/-- **A covered directory hides the files in it**, except at other places, from everyone who is neither
in it nor has it for a root. -/
theorem opens_covered {ι : Type} {files : Place κ → Option ι} {i : ι} {f : κ}
    (hcov : (t.mounted.lookup dir).isSome = true)
    (hfile : ∀ l, Under dir f l → t.mounted.lookup l = none) (hroot : ¬ Under dir f root)
    (hl : ¬ Under dir f l) (hi : files ⟨dir.mount, dir.path ++ [f]⟩ = some i) :
    Opens t root files l i ↔ (l = dir ∨ root = dir) ∨
      ∃ l' ≠ ⟨dir.mount, dir.path ++ [f]⟩, Reaches t root l l' ∧ files l' = some i := by
  rw [← reaches_file hcov hfile hroot hl]
  constructor
  · rintro ⟨l', hreach, hl'⟩
    by_cases heq : l' = ⟨dir.mount, dir.path ++ [f]⟩
    · exact .inl (heq ▸ hreach)
    · exact .inr ⟨l', heq, hreach, hl'⟩
  · rintro (hreach | ⟨l', -, hreach, hl'⟩)
    · exact ⟨_, hreach, hi⟩
    · exact ⟨l', hreach, hl'⟩

/-- **Without its cover** the directory is open to everyone from whose root it has a name. -/
theorem opens_uncovered {ι : Type} {files : Place κ → Option ι} {i : ι} {f : κ} {p : List κ}
    (hdir : Resolves t root p dir) (hfile : t.mounted.lookup ⟨dir.mount, dir.path ++ [f]⟩ = none)
    (hi : files ⟨dir.mount, dir.path ++ [f]⟩ = some i) :
    Opens ((t.mountOn dir).umount dir) root files l i := by
  have hsame := umount_mountOn hdir.uncovered
  have hdown : Resolves t root (p ++ [f]) ⟨dir.mount, dir.path ++ [f]⟩ := .down hdir (.top hfile)
  exact ⟨_, (hdown.congr hsame).reaches l, hi⟩

end Reach

end Mounts
