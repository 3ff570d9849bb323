import Mathlib.Data.List.Basic
import Mathlib.Data.Nat.Log
import Mathlib.Tactic.Ring

/-! # Codecs and self-delimiting byte formats

`Codec α` is what a program relies on of a serialisation library: an encoder, a partial
decoder, and the law that decoding inverts encoding.  Programs are modelled over an
arbitrary codec.

`Format α` is the constructive side: a writer and a reader that consumes exactly what was
written and hands back the rest (`read_write`).  Formats compose (`pair`, `list`,
`option`, `retract`), their base cases are the usual ones of a compact wire format
(little-endian base-128 `nat`, zigzag `int`, length-prefixed UTF-8 `string`), and
`Format.codec` turns each into a codec.  The lemmas `length_*` say how many bytes each
writes. -/

namespace Wire

variable {α β : Type}

abbrev Bytes := List UInt8

/-- An encoder and a decoder that inverts it. -/
class Codec (α : Type) where
  encode : α → Bytes
  decode : Bytes → Option α
  decode_encode : ∀ a, decode (encode a) = some a

attribute [simp] Codec.decode_encode

/-- A self-delimiting format: the reader returns the value and the unread rest. -/
structure Format (α : Type) where
  write : α → Bytes
  read : Bytes → Option (α × Bytes)
  read_write : ∀ a rest, read (write a ++ rest) = some (a, rest)

namespace Format

@[reducible] def codec (f : Format α) : Codec α where
  encode := f.write
  decode bs := (f.read bs).map Prod.fst
  decode_encode a := by
    have := f.read_write a []
    rw [List.append_nil] at this
    rw [this]; rfl

/-! ### Combinators -/

def pair (f : Format α) (g : Format β) : Format (α × β) where
  write p := f.write p.1 ++ g.write p.2
  read bs := do
    let (a, bs) ← f.read bs
    let (b, bs) ← g.read bs
    some ((a, b), bs)
  read_write p rest := by
    simp only [List.append_assoc, f.read_write, g.read_write, Option.bind_eq_bind,
      Option.bind_some]

/-- Transport along a map with a left inverse on its image. -/
def retract (f : Format α) (into : β → α) (back : α → Option β)
    (h : ∀ b, back (into b) = some b) : Format β where
  write b := f.write (into b)
  read bs := do
    let (a, bs) ← f.read bs
    let b ← back a
    some (b, bs)
  read_write b rest := by
    simp only [f.read_write, Option.bind_eq_bind, Option.bind_some, h]

def readN (f : Format α) : ℕ → Bytes → Option (List α × Bytes)
  | 0, bs => some ([], bs)
  | n + 1, bs => do
      let (a, bs) ← f.read bs
      let (as, bs) ← readN f n bs
      some (a :: as, bs)

theorem readN_write (f : Format α) (as : List α) (rest : Bytes) :
    f.readN as.length (as.flatMap f.write ++ rest) = some (as, rest) := by
  induction as with
  | nil => rfl
  | cons a as ih =>
      simp only [List.length_cons, List.flatMap_cons, List.append_assoc, readN, f.read_write,
        Option.bind_eq_bind, Option.bind_some, ih]

/-! ### Base-128 integers -/

/-- Little-endian base-128 digits of `n`, at most `fuel + 1` of them, every digit but the
last with the continuation bit set. -/
def writeNat : ℕ → ℕ → Bytes
  | 0, n => [UInt8.ofNat n]
  | fuel + 1, n =>
      if n < 128 then [UInt8.ofNat n]
      else UInt8.ofNat (n % 128 + 128) :: writeNat fuel (n / 128)

def readNat : Bytes → Option (ℕ × Bytes)
  | [] => none
  | b :: bs =>
      if b.toNat < 128 then some (b.toNat, bs)
      else do
        let (n, bs) ← readNat bs
        some (b.toNat - 128 + 128 * n, bs)

theorem readNat_writeNat (fuel n : ℕ) (hn : n < 2 ^ (fuel + 7)) (rest : Bytes) :
    readNat (writeNat fuel n ++ rest) = some (n, rest) := by
  induction fuel generalizing n with
  | zero =>
      have hb : (UInt8.ofNat n).toNat = n := by
        rw [UInt8.toNat_ofNat']; omega
      simp only [writeNat, List.singleton_append, readNat, hb]
      rw [if_pos (by omega)]
  | succ fuel ih =>
      simp only [writeNat]
      by_cases hlt : n < 128
      · have hb : (UInt8.ofNat n).toNat = n := by
          rw [UInt8.toNat_ofNat']; omega
        simp only [hlt, if_true, List.singleton_append, readNat, hb]
      · have hb : (UInt8.ofNat (n % 128 + 128)).toNat = n % 128 + 128 := by
          rw [UInt8.toNat_ofNat']; omega
        have hdiv : n / 128 < 2 ^ (fuel + 7) := by
          have : 2 ^ (fuel + 1 + 7) = 2 * 2 ^ (fuel + 7) := by ring
          omega
        simp only [hlt, if_false, List.cons_append, readNat, hb, ih _ hdiv]
        rw [if_neg (by omega)]
        simp only [Option.bind_eq_bind, Option.bind_some]
        congr 2
        omega

def nat : Format ℕ where
  write n := writeNat n n
  read := readNat
  read_write n rest := by
    apply readNat_writeNat
    calc n < 2 ^ n := Nat.lt_two_pow_self
      _ ≤ 2 ^ (n + 7) := Nat.pow_le_pow_right (by omega) (by omega)

/-- Zigzag: non-negative numbers to even, negative numbers to odd codes. -/
def int : Format ℤ :=
  nat.retract (fun z => if 0 ≤ z then 2 * z.toNat else 2 * (-z).toNat - 1)
    (fun n => some (if n % 2 = 0 then (n / 2 : ℕ) else -((n / 2 : ℕ) : ℤ) - 1))
    (fun z => by
      congr 1
      split_ifs <;> omega)

/-! ### Sequences, options, text -/

def list (f : Format α) : Format (List α) where
  write as := nat.write as.length ++ as.flatMap f.write
  read bs := do
    let (n, bs) ← nat.read bs
    f.readN n bs
  read_write as rest := by
    simp only [List.append_assoc, nat.read_write, Option.bind_eq_bind, Option.bind_some,
      f.readN_write]

def option (f : Format α) : Format (Option α) where
  write
    | none => [0]
    | some a => 1 :: f.write a
  read
    | 0 :: bs => some (none, bs)
    | 1 :: bs => (f.read bs).map (fun p => (some p.1, p.2))
    | _ => none
  read_write a rest := by
    cases a with
    | none => rfl
    | some a => simp only [List.cons_append, f.read_write, Option.map_some]

def byte : Format UInt8 where
  write b := [b]
  read
    | [] => none
    | b :: bs => some (b, bs)
  read_write _ _ := rfl

/-- Length-prefixed UTF-8 text; text that is not UTF-8 is rejected. -/
def string : Format String :=
  byte.list.retract (fun s => s.toUTF8.data.toList)
    (fun bs => String.fromUTF8? ⟨bs.toArray⟩)
    (fun s => by
      have h : (⟨s.toUTF8.data.toList.toArray⟩ : ByteArray) = s.toByteArray := rfl
      simp only [h, String.fromUTF8?]
      rw [dif_pos s.isValidUTF8]
      rfl)

/-! ### Lengths -/

def natSize (n : ℕ) : ℕ := Nat.log 128 n + 1

theorem length_writeNat (fuel n : ℕ) (hn : n < 2 ^ (fuel + 7)) :
    (writeNat fuel n).length = natSize n := by
  induction fuel generalizing n with
  | zero =>
      have hlog : Nat.log 128 n = 0 := Nat.log_of_lt (by omega)
      simp only [writeNat, natSize, hlog, List.length_singleton]
  | succ fuel ih =>
      simp only [writeNat]
      by_cases hlt : n < 128
      · have hlog : Nat.log 128 n = 0 := Nat.log_of_lt hlt
        simp only [hlt, if_true, natSize, hlog, List.length_singleton]
      · have hdiv : n / 128 < 2 ^ (fuel + 7) := by
          have : 2 ^ (fuel + 1 + 7) = 2 * 2 ^ (fuel + 7) := by ring
          omega
        have hlog : Nat.log 128 n = Nat.log 128 (n / 128) + 1 :=
          Nat.log_of_one_lt_of_le (by omega) (by omega)
        simp only [hlt, if_false, List.length_cons, ih _ hdiv, natSize, hlog]

@[simp] theorem length_nat (n : ℕ) : (nat.write n).length = natSize n := by
  apply length_writeNat
  calc n < 2 ^ n := Nat.lt_two_pow_self
    _ ≤ 2 ^ (n + 7) := Nat.pow_le_pow_right (by omega) (by omega)

theorem natSize_pos (n : ℕ) : 1 ≤ natSize n := Nat.le_add_left 1 _

theorem natSize_le {n k : ℕ} (h : n < 128 ^ (k + 1)) : natSize n ≤ k + 1 := by
  have := Nat.log_lt_of_lt_pow' (b := 128) (by omega : k + 1 ≠ 0) h
  unfold natSize
  omega

@[simp] theorem length_pair (f : Format α) (g : Format β) (p : α × β) :
    ((f.pair g).write p).length = (f.write p.1).length + (g.write p.2).length :=
  List.length_append

@[simp] theorem length_list (f : Format α) (as : List α) :
    (f.list.write as).length = natSize as.length + (as.map fun a => (f.write a).length).sum := by
  have happ : f.list.write as = nat.write as.length ++ as.flatMap f.write := rfl
  rw [happ, List.length_append, length_nat, List.length_flatMap]

@[simp] theorem length_option (f : Format α) (a : Option α) :
    (f.option.write a).length = 1 + a.elim 0 (fun a => (f.write a).length) := by
  cases a with
  | none => rfl
  | some a => exact Nat.add_comm _ _

@[simp] theorem length_int (z : ℤ) :
    (int.write z).length = natSize (if 0 ≤ z then 2 * z.toNat else 2 * (-z).toNat - 1) :=
  length_nat _

@[simp] theorem length_string (s : String) :
    (string.write s).length = natSize s.utf8ByteSize + s.utf8ByteSize := by
  have hw : string.write s = byte.list.write s.toUTF8.data.toList := rfl
  have hlen : s.toUTF8.data.toList.length = s.utf8ByteSize := rfl
  rw [hw, length_list, hlen]
  congr 1
  have : ∀ l : List UInt8, (l.map fun b => (byte.write b).length).sum = l.length := by
    intro l
    have : (fun b => (byte.write b).length) = fun _ => 1 := rfl
    rw [this]
    simp
  rw [this, hlen]

/-! ### Decimal numbers -/

theorem utf8ByteSize_ofList_le (cs : List Char) :
    (String.ofList cs).utf8ByteSize ≤ 4 * cs.length := by
  induction cs with
  | nil => exact Nat.zero_le _
  | cons c cs ih =>
      have hc := Char.utf8Size_le_four c
      rw [← List.singleton_append, String.ofList_append, String.utf8ByteSize_append,
        ← String.singleton_eq_ofList, String.utf8ByteSize_singleton]
      simp only [List.singleton_append, List.length_cons]
      omega

theorem utf8ByteSize_repr_le {n k : ℕ} (hk : 0 < k) (h : n < 10 ^ k) :
    n.repr.utf8ByteSize ≤ 4 * k := by
  have hsize := utf8ByteSize_ofList_le (Nat.toDigits 10 n)
  have hlen := (Nat.length_toDigits_le_iff (b := 10) (by omega) hk).mpr h
  rw [← Nat.repr_eq_ofList_toDigits] at hsize
  omega

theorem utf8ByteSize_toString_le {z : ℤ} {k : ℕ} (hk : 0 < k) (h : z.natAbs < 10 ^ k) :
    (toString z).utf8ByteSize ≤ 4 * k + 1 := by
  cases z with
  | ofNat n =>
      have hshow : toString (Int.ofNat n) = n.repr := rfl
      have hdigits : n.repr.utf8ByteSize ≤ 4 * k := utf8ByteSize_repr_le hk h
      rw [hshow]
      omega
  | negSucc n =>
      have hshow : toString (Int.negSucc n) = "-" ++ (n + 1).repr := rfl
      have hminus : "-".utf8ByteSize = 1 := by decide
      have hdigits : (n + 1).repr.utf8ByteSize ≤ 4 * k := utf8ByteSize_repr_le hk h
      rw [hshow, String.utf8ByteSize_append]
      omega

end Format

end Wire
