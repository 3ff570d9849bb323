import MeshSupervisor.Store

/-! # Framing and the wire format of control messages

`write_msg` and `read_msg` of `proto.rs`: one length-prefixed message, at most `maxFrame`
bytes, over an arbitrary codec.  `readMsg` takes the bytes of a stream up to its end and
hands back what it leaves unread (`readMsg_writeMsg`); `sendMsg` and `recvMsg` are the same on
a stream, errors included (`framing`).

The second half has the formats of `Request` and `Response`: the variant's index, then its
fields in order. -/

namespace MeshSupervisor

open Wire (Bytes Codec Format)

/-! ### Frames -/

/-- `MAX_FRAME`. -/
def maxFrame : ℕ := 64 * 1024

/-- A `u32`, big-endian. -/
def writeU32 (n : ℕ) : Bytes :=
  [UInt8.ofNat (n / 16777216), UInt8.ofNat (n / 65536), UInt8.ofNat (n / 256), UInt8.ofNat n]

def readU32 : Bytes → Option (ℕ × Bytes)
  | a :: b :: c :: d :: rest =>
      some (a.toNat * 16777216 + b.toNat * 65536 + c.toNat * 256 + d.toNat, rest)
  | _ => none

theorem readU32_writeU32 {n : ℕ} (h : n < 2 ^ 32) (rest : Bytes) :
    readU32 (writeU32 n ++ rest) = some (n, rest) := by
  have hsum : (UInt8.ofNat (n / 16777216)).toNat * 16777216 + (UInt8.ofNat (n / 65536)).toNat * 65536 +
      (UInt8.ofNat (n / 256)).toNat * 256 + (UInt8.ofNat n).toNat = n := by
    simp only [UInt8.toNat_ofNat']
    omega
  simp only [writeU32, List.cons_append, List.nil_append, readU32, hsum]

theorem length_writeU32_append (n : ℕ) (body : Bytes) :
    (writeU32 n ++ body).length = 4 + body.length := by
  rw [List.length_append]
  rfl

theorem lt_of_fits {n : ℕ} (h : n ≤ maxFrame) : n < 2 ^ 32 := by
  unfold maxFrame at h
  omega

theorem header_cases {n : ℕ} {body stream : Bytes} (hp : stream <+: writeU32 n ++ body) :
    (stream.length < 4 ∧ readU32 stream = none) ∨ ∃ rest, stream = writeU32 n ++ rest := by
  rcases Nat.lt_or_ge stream.length 4 with hshort | hlong
  · left
    constructor
    · exact hshort
    · match stream, hshort with
      | [], _ => rfl
      | [_], _ => rfl
      | [_, _], _ => rfl
      | [_, _, _], _ => rfl
  · right
    obtain ⟨rest, hrest⟩ : writeU32 n <+: stream :=
      List.prefix_of_prefix_length_le (List.prefix_append _ _) hp hlong
    exact ⟨rest, hrest.symm⟩

section Message

variable {α : Type} [Codec α]

/-- The frame of a message, or an error with nothing written. -/
def writeMsg (msg : α) : Except String Bytes :=
  let bytes := Codec.encode msg
  if maxFrame < bytes.length then .error s!"frame too large: {bytes.length}"
  else .ok (writeU32 bytes.length ++ bytes)

/-- The message at the head of a stream that ends after `stream`, and what is left unread. -/
def readMsg (stream : Bytes) : Except String (α × Bytes) :=
  match readU32 stream with
  | none => .error "early eof"
  | some (len, rest) =>
      if maxFrame < len then .error s!"frame too large: {len}"
      else if rest.length < len then .error "early eof"
      else
        match Codec.decode (rest.take len) with
        | none => .error "postcard"
        | some msg => .ok (msg, rest.drop len)

theorem writeMsg_eq_ok {msg : α} {frame : Bytes} : writeMsg msg = .ok frame ↔
    (Codec.encode msg).length ≤ maxFrame ∧
      frame = writeU32 (Codec.encode msg).length ++ Codec.encode msg := by
  unfold writeMsg
  by_cases hlen : maxFrame < (Codec.encode msg).length
  · simp only [hlen, if_true]
    constructor
    · intro h
      cases h
    · rintro ⟨hfit, -⟩
      omega
  · simp only [hlen, if_false]
    constructor
    · intro h
      exact ⟨by omega, (Except.ok.inj h).symm⟩
    · rintro ⟨-, rfl⟩
      rfl

/-- What is written is read back, and what follows it is left unread. -/
theorem readMsg_writeMsg {msg : α} {frame : Bytes} (h : writeMsg msg = .ok frame) (tail : Bytes) :
    readMsg (frame ++ tail) = .ok (msg, tail) := by
  obtain ⟨hfit, rfl⟩ := writeMsg_eq_ok.mp h
  have hlt := lt_of_fits hfit
  have hrest : ¬ (Codec.encode msg ++ tail).length < (Codec.encode msg).length := by
    rw [List.length_append]
    omega
  simp only [readMsg, List.append_assoc, readU32_writeU32 hlt, Nat.not_lt.mpr hfit, hrest, if_false,
    List.take_left, Codec.decode_encode, List.drop_left]

/-! ### Frames on a stream -/

/-- `write_msg` on a stream that carries `sent` so far: the outcome, and what it carries then. -/
def sendMsg (sent : Bytes) (msg : α) : Except String Unit × Bytes :=
  let bytes := Codec.encode msg
  if maxFrame < bytes.length then (.error s!"frame too large: {bytes.length}", sent)
  else
    let sent := sent ++ writeU32 bytes.length
    (.ok (), sent ++ bytes)

/-- `read_msg` on a stream that ends after `stream`: the outcome, and what is left unread. -/
def recvMsg (stream : Bytes) : Except String α × Bytes :=
  match readU32 stream with
  | none => (.error "early eof", [])
  | some (len, rest) =>
      if maxFrame < len then (.error s!"frame too large: {len}", rest)
      else if rest.length < len then (.error "early eof", [])
      else
        match Codec.decode (rest.take len) with
        | none => (.error "postcard", rest.drop len)
        | some msg => (.ok msg, rest.drop len)

theorem sendMsg_eq (sent : Bytes) (msg : α) : sendMsg sent msg =
    match writeMsg msg with
    | .ok frame => (.ok (), sent ++ frame)
    | .error e => (.error e, sent) := by
  unfold sendMsg writeMsg
  by_cases hlen : maxFrame < (Codec.encode msg).length
  · simp only [hlen, if_true]
  · simp only [hlen, if_false, List.append_assoc]

theorem readMsg_eq (stream : Bytes) : (readMsg stream : Except String (α × Bytes)) =
    match (recvMsg stream : Except String α × Bytes) with
    | (.ok msg, rest) => .ok (msg, rest)
    | (.error e, _) => .error e := by
  unfold readMsg recvMsg
  cases readU32 stream with
  | none => rfl
  | some p =>
      obtain ⟨len, rest⟩ := p
      dsimp only
      split_ifs with hbig hshort
      · rfl
      · rfl
      · cases Codec.decode (α := α) (rest.take len) <;> rfl

theorem recvMsg_writeMsg {msg : α} {frame : Bytes} (h : writeMsg msg = .ok frame) (tail : Bytes) :
    recvMsg (frame ++ tail) = (.ok msg, tail) := by
  have hread := readMsg_writeMsg h tail
  rw [readMsg_eq] at hread
  cases hr : (recvMsg (frame ++ tail) : Except String α × Bytes) with
  | mk res rest =>
      rw [hr] at hread
      cases res with
      | error e => cases hread
      | ok msg' =>
          obtain ⟨rfl, rfl⟩ := Prod.mk.inj (Except.ok.inj hread)
          rfl

/-- A stream that ends within a frame gives an error. -/
theorem recvMsg_prefix {msg : α} {frame : Bytes} (h : writeMsg msg = .ok frame) {stream : Bytes}
    (hpre : stream <+: frame) (hne : stream ≠ frame) :
    (recvMsg stream : Except String α × Bytes).1 = .error "early eof" := by
  have hlt : stream.length < frame.length :=
    lt_of_le_of_ne hpre.length_le (fun he => hne (hpre.eq_of_length he))
  obtain ⟨hfit, rfl⟩ := writeMsg_eq_ok.mp h
  rcases header_cases hpre with ⟨-, hnone⟩ | ⟨rest, rfl⟩
  · simp only [recvMsg, hnone]
  · have hrest : rest.length < (Codec.encode msg).length := by
      rw [length_writeU32_append, length_writeU32_append] at hlt
      omega
    simp only [recvMsg, readU32_writeU32 (lt_of_fits hfit), Nat.not_lt.mpr hfit, hrest, if_false, if_true]

theorem readU32_append {header rest : Bytes} {n : ℕ} (h : readU32 header = some (n, rest))
    (body : Bytes) : readU32 (header ++ body) = some (n, rest ++ body) := by
  match header, h with
  | a :: b :: c :: d :: tail, h =>
      obtain ⟨rfl, rfl⟩ := Prod.mk.inj (Option.some.inj h)
      rfl

/-- **Frames.**  A message that fits is sent as a frame that is received as that message,
whatever follows, and no shorter stream is; a message that does not fit is not sent, not
even in part; and a header that announces too much is all that is read. -/
theorem framing (msg : α) :
    ((Codec.encode msg).length ≤ maxFrame → ∃ frame,
      (∀ sent, sendMsg sent msg = (.ok (), sent ++ frame)) ∧
      (∀ tail, recvMsg (frame ++ tail) = (.ok msg, tail)) ∧
      ∀ stream, stream <+: frame → stream ≠ frame →
        ∃ e, (recvMsg stream : Except String α × Bytes).1 = .error e) ∧
    (maxFrame < (Codec.encode msg).length → ∀ sent, ∃ e, sendMsg sent msg = (.error e, sent)) ∧
    ∀ (header body : Bytes) (n : ℕ), readU32 header = some (n, []) → maxFrame < n →
      (recvMsg (header ++ body) : Except String α × Bytes) =
        (.error s!"frame too large: {n}", body) := by
  refine ⟨?_, ?_, ?_⟩
  · intro hfit
    have hw := writeMsg_eq_ok.mpr ⟨hfit, rfl⟩
    refine ⟨_, ?_, recvMsg_writeMsg hw, fun stream hpre hne => ⟨_, recvMsg_prefix hw hpre hne⟩⟩
    intro sent
    rw [sendMsg_eq, hw]
  · intro hbig sent
    exact ⟨_, if_pos hbig⟩
  · intro header body n hhead hbig
    have hread := readU32_append hhead body
    rw [List.nil_append] at hread
    simp only [recvMsg, hread, hbig, if_true]

end Message

/-! ### Requests and responses on the wire -/

def boolFormat : Format Bool where
  write b := if b then [1] else [0]
  read
    | 0 :: bs => some (false, bs)
    | 1 :: bs => some (true, bs)
    | _ => none
  read_write b rest := by cases b <;> rfl

def restartPolicyFormat : Format RestartPolicy where
  write
    | .never => [0]
    | .onFailure => [1]
    | .always => [2]
  read
    | 0 :: bs => some (.never, bs)
    | 1 :: bs => some (.onFailure, bs)
    | 2 :: bs => some (.always, bs)
    | _ => none
  read_write p rest := by cases p <;> rfl

def limitsFormat : Format Limits :=
  open Wire.Format in
  (nat.option.pair (nat.option.pair nat.option)).retract
    (fun l => (l.memory, l.pids, l.cpu)) (fun (memory, pids, cpu) => some ⟨memory, pids, cpu⟩)
    (fun _ => rfl)

def specFormat : Format Spec :=
  open Wire.Format in
  (string.pair (string.list.pair ((string.pair string).list.pair
    (limitsFormat.pair (restartPolicyFormat.pair (nat.pair boolFormat)))))).retract
    (fun s => (s.cmd, s.args, s.env, s.limits, s.policy, s.maxRetries, s.isolate))
    (fun (cmd, args, env, limits, policy, maxRetries, isolate) =>
      some ⟨cmd, args, env, limits, policy, maxRetries, isolate⟩)
    (fun _ => rfl)

def requestFormat : Format Request where
  write
    | .spawn spec => 0 :: specFormat.write spec
    | .signal id sig => 1 :: (Format.nat.pair Format.int).write (id, sig)
    | .stop id => 2 :: Format.nat.write id
    | .stdinStream id => 3 :: Format.nat.write id
    | .query id => 4 :: Format.nat.write id
    | .subscribe id => 5 :: Format.nat.write id
    | .forget id => 6 :: Format.nat.write id
    | .list => [7]
  read
    | 0 :: bs => (specFormat.read bs).map (fun p => (.spawn p.1, p.2))
    | 1 :: bs => ((Format.nat.pair Format.int).read bs).map (fun p => (.signal p.1.1 p.1.2, p.2))
    | 2 :: bs => (Format.nat.read bs).map (fun p => (.stop p.1, p.2))
    | 3 :: bs => (Format.nat.read bs).map (fun p => (.stdinStream p.1, p.2))
    | 4 :: bs => (Format.nat.read bs).map (fun p => (.query p.1, p.2))
    | 5 :: bs => (Format.nat.read bs).map (fun p => (.subscribe p.1, p.2))
    | 6 :: bs => (Format.nat.read bs).map (fun p => (.forget p.1, p.2))
    | 7 :: bs => some (.list, bs)
    | _ => none
  read_write r rest := by
    cases r with
    | list => rfl
    | _ => simp only [List.cons_append, Format.read_write, Option.map_some]

def usageFormat : Format Usage :=
  open Wire.Format in
  (nat.pair nat).retract (fun u => (u.memBytes, u.cpuUsec)) (fun (m, c) => some ⟨m, c⟩) (fun _ => rfl)

def procInfoFormat : Format ProcInfo :=
  open Wire.Format in
  (nat.pair (nat.pair (procStateFormat.pair (usageFormat.option.pair nat)))).retract
    (fun i => (i.handle, i.pid, i.state, i.usage, i.restarts))
    (fun (handle, pid, state, usage, restarts) => some ⟨handle, pid, state, usage, restarts⟩)
    (fun _ => rfl)

def controlErrorFormat : Format ControlError where
  write
    | .notFound id => 0 :: Format.nat.write id
    | .denied => [1]
    | .rateLimited => [2]
    | .spawnFailed msg => 3 :: Format.string.write msg
    | .badRequest msg => 4 :: Format.string.write msg
    | .timeout => [5]
  read
    | 0 :: bs => (Format.nat.read bs).map (fun p => (.notFound p.1, p.2))
    | 1 :: bs => some (.denied, bs)
    | 2 :: bs => some (.rateLimited, bs)
    | 3 :: bs => (Format.string.read bs).map (fun p => (.spawnFailed p.1, p.2))
    | 4 :: bs => (Format.string.read bs).map (fun p => (.badRequest p.1, p.2))
    | 5 :: bs => some (.timeout, bs)
    | _ => none
  read_write e rest := by
    cases e with
    | denied => rfl
    | rateLimited => rfl
    | timeout => rfl
    | _ => simp only [List.cons_append, Format.read_write, Option.map_some]

def responseFormat : Format Response where
  write
    | .spawned id pid => 0 :: (Format.nat.pair Format.nat).write (id, pid)
    | .ack => [1]
    | .status info => 2 :: procInfoFormat.write info
    | .list infos => 3 :: procInfoFormat.list.write infos
    | .error e => 4 :: controlErrorFormat.write e
  read
    | 0 :: bs => ((Format.nat.pair Format.nat).read bs).map (fun p => (.spawned p.1.1 p.1.2, p.2))
    | 1 :: bs => some (.ack, bs)
    | 2 :: bs => (procInfoFormat.read bs).map (fun p => (.status p.1, p.2))
    | 3 :: bs => (procInfoFormat.list.read bs).map (fun p => (.list p.1, p.2))
    | 4 :: bs => (controlErrorFormat.read bs).map (fun p => (.error p.1, p.2))
    | _ => none
  read_write r rest := by
    cases r with
    | ack => rfl
    | _ => simp only [List.cons_append, Format.read_write, Option.map_some]

@[reducible] def requestCodec : Codec Request := requestFormat.codec

@[reducible] def responseCodec : Codec Response := responseFormat.codec

/-- A request followed by raw bytes, its frame cut short, and a header that announces too
much. -/
theorem framing_stdin :
    ∃ frame, @sendMsg _ requestCodec [] (.stdinStream 7) = (.ok (), frame) ∧
      @recvMsg _ requestCodec (frame ++ [1, 2, 3]) = (.ok (.stdinStream 7), [1, 2, 3]) ∧
      (∃ e, (@recvMsg _ requestCodec (frame.take 3)).1 = .error e) ∧
      @recvMsg _ requestCodec ([0, 1, 0, 1] ++ [9, 9]) =
        (.error "frame too large: 65537", [9, 9]) := by
  obtain ⟨hfit, -, hbig⟩ := @framing _ requestCodec (.stdinStream 7)
  obtain ⟨frame, hsend, hrecv, hpre⟩ := hfit (by decide)
  refine ⟨frame, hsend [], hrecv _, ?_, hbig [0, 1, 0, 1] [9, 9] 65537 rfl (by decide)⟩
  obtain rfl : frame = [0, 0, 0, 2, 3, 7] := (Prod.mk.inj (hsend []).symm).2
  exact hpre _ (List.take_prefix _ _) (by decide)

end MeshSupervisor
