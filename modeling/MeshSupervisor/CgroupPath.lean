import Mathlib.Data.List.Infix
import MeshSupervisor.Size

/-! # The texts of the cgroup file system

What `cgroup.rs` reads from files, and how it takes it apart: its own cgroup in
`/proc/self/cgroup`, the controllers in a `cgroup.subtree_control`, the counters in
`memory.current` and `cpu.stat`.  The functions on texts and paths are those of the standard
library, which the source calls.

`ownGroup_kernel`, `memCurrent_kernel` and `usageUsec_kernel` read back what the kernel writes. -/

namespace MeshSupervisor

open Text

/-- An absolute path, by its components. -/
abbrev Path := List String

/-- `str::split_whitespace`. -/
def splitWhitespace (s : List Char) : List (List Char) := (s.splitOnP isWhitespace).filter (· ≠ [])

/-- A line that ended with a line feed, without a carriage return before it. -/
def stripCr (l : List Char) : List Char := if l.getLast? = some '\r' then l.dropLast else l

/-- `str::lines`; what follows the last line feed is a line unless it is empty. -/
def lines (s : List Char) : List (List Char) :=
  let parts := s.splitOn '\n'
  parts.dropLast.map stripCr ++ (parts.getLast?.filter (· ≠ [])).toList

/-- `str::split_once`. -/
def splitOnce (pat : List Char) : List Char → Option (List Char × List Char)
  | [] => if pat = [] then some ([], []) else none
  | c :: s =>
      if pat.isPrefixOf (c :: s) then some ([], (c :: s).drop pat.length)
      else (splitOnce pat s).map (fun p => (c :: p.1, p.2))

/-- `str::strip_prefix`. -/
def stripPrefix (pat s : List Char) : Option (List Char) :=
  if pat.isPrefixOf s then some (s.drop pat.length) else none

/-- `Path::components`, after the root. -/
def components (s : List Char) : Path :=
  ((s.splitOn '/').filter (fun c => c ≠ [] ∧ c ≠ ['.'])).map String.ofList

/-- `Path::join`: an absolute path replaces the one it is joined to. -/
def joinPath (base : Path) (s : List Char) : Path :=
  if s.head? = some '/' then components s else base ++ components s

/-- `MOUNT`. -/
def mount : Path := ["sys", "fs", "cgroup"]

/-- The directory of our own cgroup, from the text of `/proc/self/cgroup`. -/
def ownGroup (selfCg : List Char) : Option Path := do
  let line ← (lines selfCg).head?
  let p ← splitOnce "::".toList line
  let rel := trim isWhitespace p.2
  some (joinPath mount ((stripPrefix ['/'] rel).getD rel))

/-- A `cgroup.subtree_control` names the controller. -/
def grants (sc : List Char) (controller : String) : Bool :=
  (splitWhitespace sc).any (· == controller.toList)

/-- The text of `memory.current`. -/
def memCurrent (text : List Char) : Option ℕ := (u64FromStr (trim isWhitespace text)).toOption

/-- The first line of a `cpu.stat` with a `usage_usec` that can be read. -/
def usageUsec (text : List Char) : Option ℕ :=
  (lines text).findSome? fun l => do
    let rest ← stripPrefix "usage_usec ".toList l
    (u64FromStr (trim isWhitespace rest)).toOption

/-! ### Texts taken apart -/

theorem splitOnce_append {pat : List Char} {l : List Char} (r : List Char)
    (h : ∀ t, t ≠ [] → t <:+ l → ¬ pat <+: t ++ (pat ++ r)) :
    splitOnce pat (l ++ (pat ++ r)) = some (l, r) := by
  induction l with
  | nil =>
      rw [List.nil_append]
      cases pat with
      | nil => cases r <;> simp [splitOnce]
      | cons c pat =>
          have hpre : (c :: pat).isPrefixOf (c :: pat ++ r) = true :=
            List.isPrefixOf_iff_prefix.mpr (List.prefix_append _ _)
          rw [List.cons_append] at hpre ⊢
          rw [splitOnce, if_pos hpre]
          simp
  | cons c l ih =>
      have hno : ¬ pat.isPrefixOf (c :: l ++ (pat ++ r)) = true := by
        rw [List.isPrefixOf_iff_prefix]
        exact h (c :: l) (by simp) (List.suffix_refl _)
      rw [List.cons_append] at hno ⊢
      rw [splitOnce, if_neg hno, ih]
      · rfl
      · intro t ht hsuf
        exact h t ht (hsuf.trans (List.suffix_cons c l))

theorem lines_cons {l : List Char} (hl : '\n' ∉ l) (r : List Char) :
    lines (l ++ '\n' :: r) = stripCr l :: lines r := by
  have hne : r.splitOn '\n' ≠ [] := List.splitOn_ne_nil _ _
  simp only [lines, List.splitOn_append_cons_self_of_not_mem hl]
  rw [List.dropLast_cons_of_ne_nil hne, List.map_cons, List.cons_append,
    List.getLast?_cons_of_ne_nil hne]

theorem stripPrefix_append (pat s : List Char) : stripPrefix pat (pat ++ s) = some s := by
  have hpre : pat.isPrefixOf (pat ++ s) = true :=
    List.isPrefixOf_iff_prefix.mpr (List.prefix_append pat s)
  rw [stripPrefix, if_pos hpre, List.drop_left]

/-- Blanks after a text that has none at its ends are what is trimmed. -/
theorem trim_append {s r : List Char} (hr : ∀ c ∈ r, isWhitespace c)
    (hhead : ∀ c ∈ s.head?, isWhitespace c = false)
    (hlast : ∀ c ∈ s.getLast?, isWhitespace c = false) : trim isWhitespace (s ++ r) = s := by
  apply (trimmed_iff isWhitespace).mp
  refine ⟨⟨[], r, rfl, ?_, hr⟩, hhead, hlast⟩
  intro c hc
  cases hc

/-! ### What the kernel writes -/

theorem isDigit_of_mem_repr {n : ℕ} {c : Char} (hc : c ∈ n.repr.toList) : isDigit c = true := by
  rw [Nat.toList_repr] at hc
  have hd := Nat.isDigit_of_mem_toDigits (by decide) (by decide) hc
  simp only [Char.isDigit, Bool.and_eq_true, decide_eq_true_eq] at hd
  simp only [isDigit, Bool.and_eq_true, decide_eq_true_eq]
  exact hd

theorem value_repr (n : ℕ) : value n.repr.toList = n := by
  have hof := Nat.ofDigitChars_ten_toDigits (n := n)
  rw [Nat.ofDigitChars_eq_foldl] at hof
  rw [Nat.toList_repr]
  simp only [value, valueFrom, digit, Nat.mul_comm _ 10]
  exact hof

theorem repr_injective {m n : ℕ} (h : m.repr = n.repr) : m = n := by
  rw [← value_repr m, h, value_repr]

/-- A decimal numeral is read as the number it was written for, if it fits. -/
theorem u64FromStr_repr (n m : ℕ) : u64FromStr n.repr.toList = .ok m ↔ m = n ∧ n ≤ u64Max := by
  rw [u64FromStr_ok]
  constructor
  · rintro ⟨ds, hds | hplus, -, -, hvalue, hle⟩
    · rw [← hds, value_repr] at hvalue
      exact ⟨hvalue.symm, hvalue ▸ hle⟩
    · have hmem : '+' ∈ n.repr.toList := by
        rw [hplus]
        exact List.mem_cons_self
      exact absurd (isDigit_of_mem_repr hmem) (by decide)
  · rintro ⟨rfl, hle⟩
    refine ⟨_, .inl rfl, ?_, fun c => isDigit_of_mem_repr, value_repr m, hle⟩
    rw [Nat.toList_repr]
    exact Nat.toDigits_ne_nil

theorem isWhitespace_of_isDigit {c : Char} (h : isDigit c = true) : isWhitespace c = false := by
  have hrange : '0' ≤ c ∧ c ≤ '9' := by
    simpa [isDigit] using h
  have hlow : 48 ≤ c.toNat := UInt32.le_iff_toNat_le.mp hrange.1
  have hhigh : c.toNat ≤ 57 := UInt32.le_iff_toNat_le.mp hrange.2
  simp only [isWhitespace, Bool.or_eq_false_iff, Bool.and_eq_false_iff, decide_eq_false_iff_not,
    beq_eq_false_iff_ne]
  omega

/-- A counter as the kernel writes it is read back. -/
theorem trim_numeral {n : ℕ} (hn : n ≤ u64Max) {r : List Char} (hr : ∀ c ∈ r, isWhitespace c) :
    u64FromStr (trim isWhitespace (n.repr.toList ++ r)) = .ok n := by
  have hblank : ∀ c ∈ n.repr.toList, isWhitespace c = false :=
    fun c hc => isWhitespace_of_isDigit (isDigit_of_mem_repr hc)
  rw [trim_append hr, u64FromStr_repr]
  · exact ⟨rfl, hn⟩
  · exact fun c hc => hblank c (List.mem_of_mem_head? hc)
  · exact fun c hc => hblank c (List.mem_of_mem_getLast? hc)

theorem memCurrent_kernel {n : ℕ} (hn : n ≤ u64Max) :
    memCurrent (n.repr.toList ++ ['\n']) = some n := by
  have hblank : ∀ c ∈ ['\n'], isWhitespace c = true := by
    intro c hc
    obtain rfl := List.mem_singleton.mp hc
    rfl
  rw [memCurrent, trim_numeral hn hblank]
  rfl

/-- The line of the counter is found after any others. -/
theorem usageUsec_kernel {n : ℕ} (hn : n ≤ u64Max) {before : List (List Char)}
    (hbefore : ∀ l ∈ before, '\n' ∉ l ∧ stripPrefix "usage_usec ".toList (stripCr l) = none)
    (r : List Char) :
    usageUsec ((before.flatMap (· ++ ['\n'])) ++
      ("usage_usec ".toList ++ n.repr.toList ++ '\n' :: r)) = some n := by
  induction before with
  | nil =>
      have hnl : '\n' ∉ "usage_usec ".toList ++ n.repr.toList := by
        intro hmem
        rcases List.mem_append.mp hmem with hmem | hmem
        · exact absurd hmem (by decide)
        · exact absurd (isDigit_of_mem_repr hmem) (by decide)
      have hlast : stripCr ("usage_usec ".toList ++ n.repr.toList) =
          "usage_usec ".toList ++ n.repr.toList := by
        have hne : n.repr.toList ≠ [] := by
          rw [Nat.toList_repr]
          exact Nat.toDigits_ne_nil
        apply if_neg
        rw [List.getLast?_append_of_ne_nil _ hne]
        intro hcr
        exact absurd (isDigit_of_mem_repr (List.mem_of_mem_getLast? hcr)) (by decide)
      rw [List.flatMap_nil, List.nil_append, usageUsec, lines_cons hnl, List.findSome?_cons, hlast,
        stripPrefix_append]
      have hread := trim_numeral hn (r := []) (by simp)
      rw [List.append_nil] at hread
      simp only [Option.bind_eq_bind, Option.bind_some, hread, Except.toOption]
  | cons l before ih =>
      obtain ⟨hnl, hno⟩ := hbefore l List.mem_cons_self
      have hrest := ih fun l' hl' => hbefore l' (List.mem_cons_of_mem l hl')
      rw [List.flatMap_cons, List.append_assoc, List.append_assoc, List.singleton_append, usageUsec,
        lines_cons hnl, List.findSome?_cons, hno]
      exact hrest

/-- Our own cgroup, as the kernel writes it, is found below the mount. -/
theorem ownGroup_kernel {rel : List Char} (hnl : '\n' ∉ rel) (hhead : rel.head? ≠ some '/')
    (hlast : ∀ c ∈ rel.getLast?, isWhitespace c = false) (r : List Char) :
    ownGroup ("0::/".toList ++ rel ++ '\n' :: r) = some (mount ++ components rel) := by
  have hend : ∀ c ∈ ('/' :: rel).getLast?, isWhitespace c = false := by
    intro c hc
    rw [List.getLast?_cons] at hc
    cases hrel : rel.getLast? with
    | none =>
        rw [hrel] at hc
        obtain rfl := Option.some.inj hc
        decide
    | some d =>
        rw [hrel] at hc
        obtain rfl := Option.some.inj hc
        exact hlast d (by rw [hrel]; rfl)
  have htrim : trim isWhitespace ('/' :: rel) = '/' :: rel := by
    have happ := trim_append (s := '/' :: rel) (r := []) (by simp)
      (by intro c hc; obtain rfl := Option.some.inj hc; decide) hend
    rw [List.append_nil] at happ
    exact happ
  have hline : "0::/".toList ++ rel = ['0'] ++ ("::".toList ++ '/' :: rel) := rfl
  have hno : '\n' ∉ "0::/".toList ++ rel := by
    intro hmem
    rcases List.mem_append.mp hmem with hmem | hmem
    · exact absurd hmem (by decide)
    · exact hnl hmem
  have hcr : stripCr ("0::/".toList ++ rel) = "0::/".toList ++ rel := by
    apply if_neg
    intro hlastcr
    rw [hline, List.getLast?_append_of_ne_nil _ (by simp), List.getLast?_append_of_ne_nil _ (by simp)]
      at hlastcr
    have hblank := hend '\r' hlastcr
    exact absurd hblank (by decide)
  have hsplit : splitOnce "::".toList ("0::/".toList ++ rel) = some (['0'], '/' :: rel) := by
    rw [hline]
    apply splitOnce_append
    intro t ht hsuf hpre
    have hzero : t = ['0'] := by
      rcases List.suffix_cons_iff.mp hsuf with heq | hnil
      · exact heq
      · exact absurd (List.suffix_nil.mp hnil) ht
    subst hzero
    obtain ⟨u, hu⟩ := hpre
    cases hu
  unfold ownGroup
  rw [lines_cons hno, hcr]
  simp only [List.head?_cons, Option.bind_eq_bind, Option.bind_some, hsplit, htrim]
  rw [show stripPrefix ['/'] ('/' :: rel) = some rel from stripPrefix_append ['/'] rel]
  rw [Option.getD_some, joinPath, if_neg hhead]

end MeshSupervisor
