import Mathlib.Data.List.Basic
import Mathlib.Data.List.Infix

/-! # A broadcast channel that retains a bounded number of messages

Every message has a position.  The channel keeps the last `cap` of them; a receiver keeps the
position it reads next, and one that has fallen behind skips to the oldest retained message.

`Holds` relates the channel to the list of all messages it was sent, and `Reads` a receiver to
what it has been given: a subsequence of the messages from the position it started at, which
ends with all of the retained messages that it has passed (`Reads.recent`). -/

structure Broadcast (α : Type) where
  cap : ℕ
  /-- The retained messages, the oldest first. -/
  ring : List α
  /-- The position of the next message. -/
  tail : ℕ
  /-- The sender is gone. -/
  closed : Bool
  bounded : ring.length ≤ cap
  le_tail : ring.length ≤ tail

namespace Broadcast

variable {α : Type}

def new (cap : ℕ) : Broadcast α := ⟨cap, [], 0, false, Nat.zero_le _, Nat.zero_le _⟩

def oldest (b : Broadcast α) : ℕ := b.tail - b.ring.length

/-- Send a message; the oldest one is overwritten when the ring is full. -/
def send (b : Broadcast α) (x : α) : Broadcast α where
  cap := b.cap
  ring := (b.ring ++ [x]).drop (b.ring.length + 1 - b.cap)
  tail := b.tail + 1
  closed := b.closed
  bounded := by
    rw [List.length_drop, List.length_append, List.length_singleton]
    omega
  le_tail := by
    have hle := b.le_tail
    rw [List.length_drop, List.length_append, List.length_singleton]
    omega

def close (b : Broadcast α) : Broadcast α := { b with closed := true }

/-- What `recv` returns. -/
inductive Recv (α : Type) where
  | message (x : α)
  /-- So many messages have been overwritten. -/
  | lagged (n : ℕ)
  | closed
  /-- There is no message yet. -/
  | pending

/-- Receive at position `next`; the second component is the position after that. -/
def recv (b : Broadcast α) (next : ℕ) : Recv α × ℕ :=
  if next < b.oldest then (.lagged (b.oldest - next), b.oldest)
  else
    match b.ring[next - b.oldest]? with
    | some x => (.message x, next + 1)
    | none => (if b.closed then .closed else .pending, next)

/-- The channel was sent the messages `h`. -/
structure Holds (h : List α) (b : Broadcast α) : Prop where
  ring : b.ring = h.drop (h.length - b.cap)
  tail : b.tail = h.length

section
variable {b : Broadcast α} {h : List α} {next : ℕ}

theorem Holds.new (cap : ℕ) : Holds ([] : List α) (new cap) := ⟨List.drop_nil.symm, rfl⟩

theorem Holds.close (hb : Holds h b) : Holds h b.close := ⟨hb.ring, hb.tail⟩

theorem Holds.oldest (hb : Holds h b) : b.oldest = h.length - b.cap := by
  unfold Broadcast.oldest
  rw [hb.tail, hb.ring, List.length_drop]
  omega

theorem Holds.send (hb : Holds h b) (x : α) : Holds (h ++ [x]) (b.send x) := by
  constructor
  · have hlen : b.ring.length = h.length - (h.length - b.cap) := by rw [hb.ring, List.length_drop]
    have hle : h.length - b.cap ≤ h.length := Nat.sub_le _ _
    show (b.ring ++ [x]).drop (b.ring.length + 1 - b.cap) = _
    rw [hlen, hb.ring, ← List.drop_append_of_le_length hle, List.drop_drop, List.length_append,
      List.length_singleton]
    congr 1
    show _ = h.length + 1 - b.cap
    omega
  · rw [List.length_append, List.length_singleton, ← hb.tail]
    rfl

theorem Holds.recv (hb : Holds h b) (next : ℕ) :
    match b.recv next with
    | (.message x, next') => next' = next + 1 ∧ h[next]? = some x ∧ h.length - b.cap ≤ next
    | (.lagged _, next') => next' = h.length - b.cap ∧ next < h.length - b.cap
    | (.closed, next') => next' = next ∧ h.length ≤ next ∧ b.closed = true
    | (.pending, next') => next' = next ∧ h.length ≤ next ∧ b.closed = false := by
  unfold Broadcast.recv
  rw [hb.oldest]
  by_cases hlag : next < h.length - b.cap
  · rw [if_pos hlag]
    exact ⟨rfl, hlag⟩
  · have hpos : h.length - b.cap + (next - (h.length - b.cap)) = next := by omega
    rw [if_neg hlag, hb.ring, List.getElem?_drop, hpos]
    cases hx : h[next]? with
    | some x => exact ⟨rfl, rfl, Nat.le_of_not_lt hlag⟩
    | none =>
      have hle := List.getElem?_eq_none_iff.mp hx
      cases hc : b.closed with
      | true => exact ⟨rfl, hle, rfl⟩
      | false => exact ⟨rfl, hle, rfl⟩

end

/-! ### Receivers -/

/-- A receiver that started at position `a` and reads position `next` now has been given `got`. -/
structure Reads (cap : ℕ) (h : List α) (a next : ℕ) (got : List α) : Prop where
  start : a ≤ next
  le : next ≤ h.length
  sublist : got.Sublist ((h.take next).drop a)
  /-- Of the last `cap` messages it has been given all that it has passed. -/
  recent : (h.take next).drop (max a (h.length - cap)) <:+ got

namespace Reads

variable {cap a next : ℕ} {h got : List α}

theorem initial (cap : ℕ) (h : List α) : Reads cap h h.length h.length [] := by
  constructor
  · exact le_rfl
  · exact le_rfl
  · exact List.nil_sublist _
  · rw [List.take_length, List.drop_eq_nil_of_le (le_max_left _ _)]

theorem send (hr : Reads cap h a next got) (x : α) : Reads cap (h ++ [x]) a next got := by
  have htake : (h ++ [x]).take next = h.take next := List.take_append_of_le_length hr.le
  have hlen : (h ++ [x]).length = h.length + 1 := by rw [List.length_append, List.length_singleton]
  constructor
  · exact hr.start
  · rw [hlen]
    exact Nat.le_succ_of_le hr.le
  · rw [htake]
    exact hr.sublist
  · rw [htake, hlen]
    have hmax : max a (h.length + 1 - cap) =
        max a (h.length - cap) + (max a (h.length + 1 - cap) - max a (h.length - cap)) := by omega
    rw [hmax, ← List.drop_drop]
    exact (List.drop_suffix _ _).trans hr.recent

/-- Falling behind loses only messages that are not retained. -/
theorem lagged (hr : Reads cap h a next got) (hlag : next < h.length - cap) :
    Reads cap h a (h.length - cap) got := by
  have hle : h.length - cap ≤ h.length := Nat.sub_le _ _
  constructor
  · exact hr.start.trans hlag.le
  · exact hle
  · have hmore : h.take next <+: h.take (h.length - cap) := List.take_prefix_take_left hlag.le
    exact hr.sublist.trans (hmore.sublist.drop a)
  · rw [List.drop_eq_nil_of_le]
    · exact List.nil_suffix
    · rw [List.length_take_of_le hle]
      exact le_max_right _ _

theorem drop_take_succ {k : ℕ} {x : α} (hx : h[next]? = some x) (hk : k ≤ next) :
    (h.take (next + 1)).drop k = (h.take next).drop k ++ [x] := by
  have hlt : next < h.length := (List.getElem?_eq_some_iff.mp hx).1
  rw [List.take_add_one, hx, Option.toList_some, List.drop_append_of_le_length]
  rw [List.length_take_of_le hlt.le]
  exact hk

theorem message (hr : Reads cap h a next got) (hlag : h.length - cap ≤ next) {x : α}
    (hx : h[next]? = some x) : Reads cap h a (next + 1) (got ++ [x]) := by
  have hlt : next < h.length := (List.getElem?_eq_some_iff.mp hx).1
  constructor
  · exact Nat.le_succ_of_le hr.start
  · exact hlt
  · rw [drop_take_succ hx hr.start]
    exact hr.sublist.append_right [x]
  · have hk : max a (h.length - cap) ≤ next := max_le hr.start hlag
    rw [drop_take_succ hx hk]
    obtain ⟨pre, hpre⟩ := hr.recent
    exact ⟨pre, by rw [← List.append_assoc, hpre]⟩

theorem sublist_drop (hr : Reads cap h a next got) : got.Sublist (h.drop a) :=
  hr.sublist.trans ((List.take_sublist next h).drop a)

/-- A receiver that has read everything has been given the last `cap` messages. -/
theorem recent_all (hr : Reads cap h a h.length got) :
    (h.drop a).drop ((h.drop a).length - cap) <:+ got := by
  have hmax : a + ((h.drop a).length - cap) = max a (h.length - cap) := by
    rw [List.length_drop]
    omega
  have hrecent := hr.recent
  rw [List.take_length] at hrecent
  rw [List.drop_drop, hmax]
  exact hrecent

end Reads

end Broadcast
