import MeshSupervisor.Lib.Text

/-! # Memory sizes on the command line

`parse_size` of `cli.rs`, with `u64::from_str`, `str::trim` and the byte slice it uses; a slice
that would cut a character is a panic.  `SizeOf` is the grammar, stated without reference to
how the source scans the text. -/

namespace MeshSupervisor

open Text

/-- `char::is_whitespace`: the code points with the property `White_Space`. -/
def isWhitespace (c : Char) : Bool :=
  let n := c.toNat
  (9 ≤ n && n ≤ 13) || n == 0x20 || n == 0x85 || n == 0xA0 || n == 0x1680 ||
    (0x2000 ≤ n && n ≤ 0x200A) || n == 0x2028 || n == 0x2029 || n == 0x202F || n == 0x205F ||
    n == 0x3000

def u64Max : ℕ := 2 ^ 64 - 1

inductive IntErrorKind where
  | empty
  | invalidDigit
  | posOverflow
deriving DecidableEq

def IntErrorKind.text : IntErrorKind → String
  | .empty => "cannot parse integer from empty string"
  | .invalidDigit => "invalid digit found in string"
  | .posOverflow => "number too large to fit in target type"

def DigitError.kind : DigitError → IntErrorKind
  | .invalidDigit => .invalidDigit
  | .overflow => .posOverflow

/-- `u64::from_str`. -/
def u64FromStr (src : List Char) : Except IntErrorKind ℕ :=
  match src with
  | [] => .error .empty
  | ['+'] | ['-'] => .error .invalidDigit
  | '+' :: digits => (readDigits u64Max 0 digits).mapError DigitError.kind
  | digits => (readDigits u64Max 0 digits).mapError DigitError.kind

/-- The errors of `parse_size`, with the trimmed text they quote. -/
inductive SizeError where
  | invalidSize (s : List Char) (e : IntErrorKind)
  | overflows (s : List Char)
deriving DecidableEq

/-- The message; `debug` writes a text as `{:?}` does. -/
def SizeError.text (debug : List Char → String) : SizeError → String
  | .invalidSize s e => "invalid size " ++ debug s ++ ": " ++ e.text
  | .overflows s => "size " ++ debug s ++ " overflows u64"

/-- The number and the multiplier, `none` when the slice `&s[..s.len() - 1]` panics. -/
def splitSuffix (s : List Char) : Option (List Char × ℕ) :=
  match s.getLast? with
  | some 'K' | some 'k' => (sliceTo s (byteLen s - 1)).map fun num => (num, 1024)
  | some 'M' | some 'm' => (sliceTo s (byteLen s - 1)).map fun num => (num, 1024 * 1024)
  | some 'G' | some 'g' => (sliceTo s (byteLen s - 1)).map fun num => (num, 1024 * 1024 * 1024)
  | _ => some (s, 1)

def parseSize (s : List Char) : Option (Except SizeError ℕ) :=
  let s := trim isWhitespace s
  (splitSuffix s).map fun (num, mult) =>
    match u64FromStr (trim isWhitespace num) with
    | .error e => .error (.invalidSize s e)
    | .ok n => if n * mult ≤ u64Max then .ok (n * mult) else .error (.overflows s)

/-! ### The grammar -/

inductive Suffix : List Char → ℕ → Prop where
  | bytes : Suffix [] 1
  | kilo (c : Char) (h : c = 'K' ∨ c = 'k') : Suffix [c] 1024
  | mega (c : Char) (h : c = 'M' ∨ c = 'm') : Suffix [c] (1024 ^ 2)
  | giga (c : Char) (h : c = 'G' ∨ c = 'g') : Suffix [c] (1024 ^ 3)

/-- An optional `+` and decimal digits, of a value that fits. -/
def Numeral (t : List Char) (v : ℕ) : Prop :=
  ∃ ds, (t = ds ∨ t = '+' :: ds) ∧ ds ≠ [] ∧ (∀ c ∈ ds, isDigit c) ∧ value ds = v ∧ v ≤ u64Max

/-- `s` denotes `n` bytes: a numeral `t` and a suffix `c`, with blanks around and between them. -/
def SizeOf (s : List Char) (n : ℕ) : Prop :=
  ∃ w c mult t v, Trimmed isWhitespace s (w ++ c) ∧ Suffix c mult ∧
    Trimmed isWhitespace w t ∧ Numeral t v ∧ n = v * mult ∧ n ≤ u64Max

theorem readDigits_u64 (ds : List Char) (v : ℕ) :
    (readDigits u64Max 0 ds).mapError DigitError.kind = .ok v ↔
      (∀ c ∈ ds, isDigit c) ∧ value ds = v ∧ v ≤ u64Max := by
  have hspec : _ ↔ _ ∧ value ds = v ∧ v ≤ u64Max := readDigits_ok (Nat.zero_le u64Max) ds v
  cases h : readDigits u64Max 0 ds with
  | error e =>
    rw [h] at hspec
    constructor
    · intro hok
      cases hok
    · intro hds
      have := hspec.mpr hds
      cases this
  | ok u =>
    rw [h, Except.ok.injEq] at hspec
    simpa only [Except.mapError, Except.ok.injEq] using hspec

theorem u64FromStr_ok (t : List Char) (v : ℕ) : u64FromStr t = .ok v ↔ Numeral t v := by
  have hplus : isDigit '+' = false := by decide
  have hminus : isDigit '-' = false := by decide
  unfold u64FromStr Numeral
  split
  · simp
  · constructor
    · intro h
      cases h
    · rintro ⟨ds, h | h, hne, hall, -⟩
      · have := hall '+' (by simp [← h])
        simp [hplus] at this
      · exact absurd (by simpa using h.symm) hne
  · constructor
    · intro h
      cases h
    · rintro ⟨ds, h | h, hne, hall, -⟩
      · have := hall '-' (by simp [← h])
        simp [hminus] at this
      · simp at h
  · rename_i digits hne
    rw [readDigits_u64]
    constructor
    · intro h
      refine ⟨digits, Or.inr rfl, ?_, h⟩
      rintro rfl
      exact hne rfl
    · rintro ⟨ds, h | h, -, hall, hv⟩
      · have := hall '+' (by simp [← h])
        simp [hplus] at this
      · obtain rfl := (List.cons.inj h).2
        exact ⟨hall, hv⟩
  · rename_i hnil _ _ hno
    rw [readDigits_u64]
    constructor
    · intro h
      exact ⟨t, Or.inl rfl, hnil, h⟩
    · rintro ⟨ds, h | h, -, hall, hv⟩
      · subst h
        exact ⟨hall, hv⟩
      · exact absurd h (hno ds)

theorem Suffix.utf8Size {c : Char} {mult : ℕ} (h : Suffix [c] mult) : c.utf8Size = 1 := by
  cases h with
  | kilo c h => obtain rfl | rfl := h <;> decide
  | mega c h => obtain rfl | rfl := h <;> decide
  | giga c h => obtain rfl | rfl := h <;> decide

/-- The slice is not inside a character: the suffixes are single bytes. -/
theorem splitSuffix_concat {c : Char} {mult : ℕ} (h : Suffix [c] mult) (w : List Char) :
    splitSuffix (w ++ [c]) = some (w, mult) := by
  have hlen : byteLen (w ++ [c]) - 1 = byteLen w := by
    rw [byteLen_append]
    simp [byteLen, h.utf8Size]
  have hslice : sliceTo (w ++ [c]) (byteLen (w ++ [c]) - 1) = some w := by
    rw [hlen]
    exact sliceTo_append w [c]
  unfold splitSuffix
  rw [List.getLast?_concat, hslice]
  cases h with
  | kilo c h => obtain rfl | rfl := h <;> rfl
  | mega c h => obtain rfl | rfl := h <;> rfl
  | giga c h => obtain rfl | rfl := h <;> rfl

theorem splitSuffix_cases (s : List Char) :
    (∃ w c mult, s = w ++ [c] ∧ Suffix [c] mult) ∨ splitSuffix s = some (s, 1) := by
  have hsuffix : ∀ c mult, s.getLast? = some c → Suffix [c] mult →
      ∃ w c mult, s = w ++ [c] ∧ Suffix [c] mult := by
    intro c mult hlast hc
    obtain ⟨w, hw⟩ := List.getLast?_eq_some_iff.mp hlast
    exact ⟨w, c, mult, hw, hc⟩
  unfold splitSuffix
  split
  · rename_i hlast
    exact Or.inl (hsuffix _ _ hlast (Suffix.kilo _ (Or.inl rfl)))
  · rename_i hlast
    exact Or.inl (hsuffix _ _ hlast (Suffix.kilo _ (Or.inr rfl)))
  · rename_i hlast
    exact Or.inl (hsuffix _ _ hlast (Suffix.mega _ (Or.inl rfl)))
  · rename_i hlast
    exact Or.inl (hsuffix _ _ hlast (Suffix.mega _ (Or.inr rfl)))
  · rename_i hlast
    exact Or.inl (hsuffix _ _ hlast (Suffix.giga _ (Or.inl rfl)))
  · rename_i hlast
    exact Or.inl (hsuffix _ _ hlast (Suffix.giga _ (Or.inr rfl)))
  · exact Or.inr rfl

theorem parseSize_of_split {s w : List Char} {mult : ℕ}
    (h : splitSuffix (trim isWhitespace s) = some (w, mult)) (n : ℕ) :
    parseSize s = some (.ok n) ↔
      ∃ v, Numeral (trim isWhitespace w) v ∧ n = v * mult ∧ n ≤ u64Max := by
  unfold parseSize
  simp only [h, Option.map_some, Option.some.injEq]
  cases hnum : u64FromStr (trim isWhitespace w) with
  | error e =>
    constructor
    · intro hok
      cases hok
    · rintro ⟨v, hv, -⟩
      rw [(u64FromStr_ok _ v).mpr hv] at hnum
      cases hnum
  | ok u =>
    have hu := (u64FromStr_ok _ u).mp hnum
    constructor
    · intro hok
      dsimp only at hok
      split_ifs at hok with hfits
      obtain rfl := Except.ok.inj hok
      exact ⟨u, hu, rfl, hfits⟩
    · rintro ⟨v, hv, rfl, hfits⟩
      have huv := (u64FromStr_ok _ v).mpr hv
      rw [hnum, Except.ok.injEq] at huv
      subst huv
      exact if_pos hfits

theorem splitSuffix_isSome (s : List Char) : ∃ w mult, splitSuffix s = some (w, mult) := by
  obtain ⟨w, c, mult, rfl, hc⟩ | h := splitSuffix_cases s
  · exact ⟨w, mult, splitSuffix_concat hc w⟩
  · exact ⟨s, 1, h⟩

theorem Numeral.not_suffix {w : List Char} {c : Char} {mult v : ℕ} (h : Numeral (w ++ [c]) v)
    (hc : Suffix [c] mult) : False := by
  obtain ⟨ds, hds, hne, hall, -⟩ := h
  obtain rfl | ⟨e, d, rfl⟩ := List.eq_nil_or_concat ds
  · exact hne rfl
  have hlast : c = d := by
    obtain h | h := hds
    · have := congrArg List.getLast? h
      simpa using this
    · have := congrArg List.getLast? h
      rw [List.concat_eq_append, ← List.cons_append, List.getLast?_concat,
        List.getLast?_concat] at this
      exact Option.some.inj this
  have hdigit : isDigit c = true := by
    rw [hlast]
    exact hall d (by simp)
  cases hc with
  | kilo c h => obtain rfl | rfl := h <;> simp [isDigit] at hdigit
  | mega c h => obtain rfl | rfl := h <;> simp [isDigit] at hdigit
  | giga c h => obtain rfl | rfl := h <;> simp [isDigit] at hdigit

theorem SizeOf.split {s : List Char} {n : ℕ} (h : SizeOf s n) :
    ∃ w mult v, splitSuffix (trim isWhitespace s) = some (w, mult) ∧
      Numeral (trim isWhitespace w) v ∧ n = v * mult ∧ n ≤ u64Max := by
  obtain ⟨w, c, mult, t, v, hs, hc, ht, hv, hn, hfits⟩ := h
  have hself := hs.trim_self isWhitespace
  rw [(trimmed_iff isWhitespace).mp hs]
  rw [← (trimmed_iff isWhitespace).mp ht] at hv
  by_cases hnil : c = []
  · subst hnil
    rw [List.append_nil] at hself ⊢
    cases hc with
    | bytes =>
      obtain ⟨w', c', mult', rfl, hc'⟩ | hsplit := splitSuffix_cases w
      · rw [hself] at hv
        exact (hv.not_suffix hc').elim
      · exact ⟨w, 1, v, hsplit, hv, hn, hfits⟩
  · cases hc with
    | bytes => exact absurd rfl hnil
    | kilo c h => exact ⟨w, _, v, splitSuffix_concat (Suffix.kilo c h) w, hv, hn, hfits⟩
    | mega c h => exact ⟨w, _, v, splitSuffix_concat (Suffix.mega c h) w, hv, hn, hfits⟩
    | giga c h => exact ⟨w, _, v, splitSuffix_concat (Suffix.giga c h) w, hv, hn, hfits⟩

theorem parseSize_ok (s : List Char) (n : ℕ) : parseSize s = some (.ok n) ↔ SizeOf s n := by
  constructor
  · intro h
    obtain ⟨w, c, mult, hs, hc⟩ | hs := splitSuffix_cases (trim isWhitespace s)
    · have hsplit := splitSuffix_concat hc w
      rw [← hs] at hsplit
      obtain ⟨v, hv, hn, hfits⟩ := (parseSize_of_split hsplit n).mp h
      exact ⟨w, [c], mult, _, v, (trimmed_iff isWhitespace).mpr hs, hc, trimmed_trim _ w, hv, hn,
        hfits⟩
    · obtain ⟨v, hv, hn, hfits⟩ := (parseSize_of_split hs n).mp h
      refine ⟨trim isWhitespace s, [], 1, _, v, ?_, Suffix.bytes, trimmed_trim _ _, hv, hn, hfits⟩
      rw [List.append_nil]
      exact trimmed_trim _ s
  · intro h
    obtain ⟨w, mult, v, hsplit, hv, hn, hfits⟩ := h.split
    exact (parseSize_of_split hsplit n).mpr ⟨v, hv, hn, hfits⟩

theorem parseSize_ne_none (s : List Char) : parseSize s ≠ none := by
  obtain ⟨w, mult, h⟩ := splitSuffix_isSome (trim isWhitespace s)
  simp [parseSize, h]

/-- `parse_size` accepts the grammar and nothing else, refuses the rest with an error and never
panics. -/
theorem parseSize_spec (s : List Char) :
    (∀ n, parseSize s = some (.ok n) ↔ SizeOf s n) ∧
      ((∃ n, SizeOf s n) ∨ ∃ e, parseSize s = some (.error e)) ∧ parseSize s ≠ none := by
  refine ⟨parseSize_ok s, ?_, parseSize_ne_none s⟩
  cases h : parseSize s with
  | none => exact absurd h (parseSize_ne_none s)
  | some r =>
    cases r with
    | error e => exact Or.inr ⟨e, rfl⟩
    | ok n => exact Or.inl ⟨n, (parseSize_ok s n).mp h⟩

end MeshSupervisor
