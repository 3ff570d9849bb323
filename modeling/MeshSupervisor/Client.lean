import MeshSupervisor.Frame
import MeshSupervisor.Retry

/-! # The client's calls

`connect_bi`, `request`, `subscribe` and `stdin_stream` of `client.rs`, against a transport
that may fail at every point (`Transport`).  A call is the list of what it does on the network
and how it ends.  Only the set-up of a stream is retried: `exchange` is what the three calls
have in common, and after it nothing opens a stream or writes a request (`Call.spec`). -/

namespace MeshSupervisor.Client

open Wire (Bytes Codec)

/-- What the transport makes of one attempt to set up a stream. -/
inductive Attempt (ε : Type) where
  | connectFails (e : ε)
  | openFails (e : ε)
  | opens
deriving DecidableEq

/-- What waiting for the response comes to. -/
inductive Reply (ε : Type) where
  | timedOut
  | fails (e : ε)
  | arrives (resp : Response)

/-- Everything that can happen to a call; `some (k, e)` is a transfer that fails with `e` after
`k` bytes. -/
structure Transport (ε : Type) where
  /-- By the number of the attempt, from one. -/
  attempts : ℕ → Attempt ε
  writeFails : Option (ℕ × ε)
  copyFails : Option (ℕ × ε)
  flushFails : Option ε
  finishFails : Option ε
  reply : Reply ε

inductive Error (ε : Type) where
  | transport (e : ε)
  | frame (msg : String)
  | timedOut (what : String)
  | rejected (what : String) (e : ControlError)
  | unexpected (resp : Response)
deriving DecidableEq

/-- The message; the arguments write an error, and the two `{:?}`. -/
def Error.text {ε : Type} (display : ε → String) (debugError : ControlError → String)
    (debugResponse : Response → String) : Error ε → String
  | .transport e => display e
  | .frame msg => msg
  | .timedOut what => "timed out waiting for " ++ what
  | .rejected what e => what ++ " rejected: " ++ debugError e
  | .unexpected resp => "unexpected response: " ++ debugResponse resp

/-- What a call does on the network; a connection, and the one stream opened on it, goes by the
number of its attempt. -/
inductive Action where
  | connect (conn : ℕ)
  | openBi (conn : ℕ)
  | write (conn : ℕ) (bytes : Bytes)
  | finish (conn : ℕ)
  | close (conn : ℕ)
deriving DecidableEq

variable {ε : Type}

/-- The closure that `connect_bi` retries. -/
def Attempt.outcome (conn : ℕ) : Attempt ε → Except (Error ε) ℕ
  | .connectFails e | .openFails e => .error (.transport e)
  | .opens => .ok conn

def Attempt.actions (conn : ℕ) : Attempt ε → List Action
  | .connectFails _ | .openFails _ => [.connect conn]
  | .opens => [.connect conn, .openBi conn]

def connectBi (cfg : ClientConfig) (t : Transport ε) : List Action × CallEnd (Error ε) ℕ :=
  let r := withRetry cfg fun i => (t.attempts i).outcome i
  ((List.range' 1 r.calls).flatMap fun i => (t.attempts i).actions i, r.outcome)

def readResponse (t : Transport ε) (what : String) : Except (Error ε) Response :=
  match t.reply with
  | .timedOut => .error (.timedOut what)
  | .fails e => .error (.transport e)
  | .arrives resp => .ok resp

section Calls

variable [Codec Request]

/-- `write_msg(&mut send, &req)`. -/
def writeRequest (t : Transport ε) (conn : ℕ) (req : Request) :
    List Action × Except (Error ε) Unit :=
  match writeMsg req with
  | .error msg => ([], .error (.frame msg))
  | .ok frame =>
    match t.writeFails with
    | some (k, e) => ([.write conn (frame.take k)], .error (.transport e))
    | none => ([.write conn frame], .ok ())

def exchange {α : Type} (cfg : ClientConfig) (t : Transport ε) (req : Request)
    (rest : ℕ → List Action × Except (Error ε) α) : List Action × CallEnd (Error ε) α :=
  match connectBi cfg t with
  | (acts, .overflow) => (acts, .overflow)
  | (acts, .unreachable) => (acts, .unreachable)
  | (acts, .returned (.error e)) => (acts, .returned (.error e))
  | (acts, .returned (.ok conn)) =>
    match writeRequest t conn req with
    | (wrote, .error e) => (acts ++ wrote, .returned (.error e))
    | (wrote, .ok ()) => (acts ++ wrote ++ (rest conn).1, .returned (rest conn).2)

def awaitResponse (t : Transport ε) (conn : ℕ) : List Action × Except (Error ε) Response :=
  match readResponse t "response" with
  | .error e => ([], .error e)
  | .ok resp => ([.close conn], .ok resp)

def request (cfg : ClientConfig) (t : Transport ε) (req : Request) :
    List Action × CallEnd (Error ε) Response :=
  exchange cfg t req (awaitResponse t)

/-- Copy the stream to the output until the supervisor closes it. -/
def copyOut (t : Transport ε) (conn : ℕ) : List Action × Except (Error ε) Unit :=
  match readResponse t "subscribe ack" with
  | .error e => ([], .error e)
  | .ok .ack =>
    match t.copyFails, t.flushFails with
    | some (_, e), _ => ([], .error (.transport e))
    | none, some e => ([], .error (.transport e))
    | none, none => ([.close conn], .ok ())
  | .ok (.error e) => ([], .error (.rejected "subscribe" e))
  | .ok resp => ([], .error (.unexpected resp))

def subscribe (cfg : ClientConfig) (t : Transport ε) (id : Handle) :
    List Action × CallEnd (Error ε) Unit :=
  exchange cfg t (.subscribe id) (copyOut t)

/-- Copy the input to the stream, finish it and wait for the outcome. -/
def copyIn (t : Transport ε) (input : Bytes) (conn : ℕ) : List Action × Except (Error ε) Unit :=
  match t.copyFails, t.finishFails with
  | some (k, e), _ => ([.write conn (input.take k)], .error (.transport e))
  | none, some e => ([.write conn input], .error (.transport e))
  | none, none =>
    match readResponse t "stdin response" with
    | .error e => ([.write conn input, .finish conn], .error e)
    | .ok .ack => ([.write conn input, .finish conn, .close conn], .ok ())
    | .ok (.error e) => ([.write conn input, .finish conn], .error (.rejected "stdin stream" e))
    | .ok resp => ([.write conn input, .finish conn], .error (.unexpected resp))

def stdinStream (cfg : ClientConfig) (t : Transport ε) (id : Handle) (input : Bytes) :
    List Action × CallEnd (Error ε) Unit :=
  exchange cfg t (.stdinStream id) (copyIn t input)

/-- A call of the client. -/
inductive Call where
  | request (req : Request)
  | subscribe (id : Handle)
  | stdinStream (id : Handle) (input : Bytes)

def Call.req : Call → Request
  | .request req => req
  | .subscribe id => .subscribe id
  | .stdinStream id _ => .stdinStream id

/-- What a call may write after its request. -/
def Call.input : Call → Bytes
  | .stdinStream _ input => input
  | _ => []

def Call.actions (cfg : ClientConfig) (t : Transport ε) : Call → List Action
  | .request req => (Client.request cfg t req).1
  | .subscribe id => (Client.subscribe cfg t id).1
  | .stdinStream id input => (Client.stdinStream cfg t id input).1

end Calls

/-! ### What reaches the supervisor -/

def streams (acts : List Action) : List ℕ :=
  acts.filterMap fun
    | .openBi conn => some conn
    | _ => none

def bytesOn (conn : ℕ) (acts : List Action) : Bytes :=
  acts.flatMap fun
    | .write c bytes => if c = conn then bytes else []
    | _ => []

@[simp] theorem streams_append (as bs : List Action) :
    streams (as ++ bs) = streams as ++ streams bs :=
  List.filterMap_append

@[simp] theorem bytesOn_append (conn : ℕ) (as bs : List Action) :
    bytesOn conn (as ++ bs) = bytesOn conn as ++ bytesOn conn bs :=
  List.flatMap_append

/-- Nothing but bytes on the stream of `conn`, which are part of `allowed`. -/
structure Writes (conn : ℕ) (allowed : Bytes) (acts : List Action) : Prop where
  streams : streams acts = []
  bytes : bytesOn conn acts <+: allowed
  other : ∀ c, c ≠ conn → bytesOn c acts = []

theorem Writes.nil (conn : ℕ) (allowed : Bytes) : Writes conn allowed [] :=
  ⟨rfl, List.nil_prefix, fun _ _ => rfl⟩

theorem Writes.write {conn : ℕ} {bytes allowed : Bytes} (h : bytes <+: allowed) :
    Writes conn allowed [.write conn bytes] := by
  constructor
  · rfl
  · simpa [bytesOn] using h
  · intro c hc
    simp [bytesOn, hc.symm]

theorem setUp_failed (t : Transport ε) (first n : ℕ)
    (h : ∀ i, first ≤ i → i < first + n → t.attempts i ≠ .opens) :
    streams ((List.range' first n).flatMap fun i => (t.attempts i).actions i) = [] ∧
      ∀ conn, bytesOn conn ((List.range' first n).flatMap fun i => (t.attempts i).actions i) = [] := by
  induction n generalizing first with
  | zero => exact ⟨rfl, fun _ => rfl⟩
  | succ n ih =>
    obtain ⟨hs, hb⟩ := ih (first + 1) fun i hi hlt => h i (by omega) (by omega)
    have hfirst := h first (Nat.le_refl _) (by omega)
    rw [List.range'_succ, List.flatMap_cons]
    cases ha : t.attempts first with
    | opens => exact absurd ha hfirst
    | connectFails e => exact ⟨hs, hb⟩
    | openFails e => exact ⟨hs, hb⟩

/-- The set-up either opens one stream, that of the first attempt that succeeds, or none. -/
theorem connectBi_spec {F : Type} (args : ArgMatches F) (t : Transport ε) :
    (∃ s acts, 1 ≤ s ∧ s ≤ (ClientConfig.fromCli args).attempts ∧ t.attempts s = .opens ∧
      (∀ i, 1 ≤ i → i < s → t.attempts i ≠ .opens) ∧ streams acts = [s] ∧
      (∀ conn, bytesOn conn acts = []) ∧
      connectBi (ClientConfig.fromCli args) t = (acts, .returned (.ok s))) ∨
    (∃ e acts, (∀ i, 1 ≤ i → i ≤ (ClientConfig.fromCli args).attempts → t.attempts i ≠ .opens) ∧
      streams acts = [] ∧ (∀ conn, bytesOn conn acts = []) ∧
      connectBi (ClientConfig.fromCli args) t = (acts, .returned (.error e))) := by
  obtain ⟨c, hc, hends⟩ := withRetry_spec args fun i => (t.attempts i).outcome i
  have hpos := hends.pos
  have hlast := hends.last
  have houtcome := hends.outcome
  have hbefore : ∀ i, 1 ≤ i → i < c → t.attempts i ≠ .opens := by
    intro i hi hlt hopens
    obtain ⟨e, he⟩ := hends.failed i hi (by omega)
    rw [hopens] at he
    cases he
  rw [Nat.add_sub_cancel_left] at hlast houtcome
  obtain ⟨n, rfl⟩ := Nat.exists_eq_succ_of_ne_zero (Nat.pos_iff_ne_zero.mp hpos)
  obtain ⟨hs, hb⟩ := setUp_failed t 1 n fun i hi hlt => hbefore i hi (by omega)
  have hsplit : List.range' 1 (n + 1) = List.range' 1 n ++ [n + 1] := by
    rw [List.range'_concat]
    simp [Nat.add_comm]
  have hall : t.attempts (n + 1) ≠ .opens → ∀ i, 1 ≤ i →
      i ≤ (ClientConfig.fromCli args).attempts → t.attempts i ≠ .opens := by
    intro hfails i hi hle hopens
    rcases hlast with ⟨v, hv⟩ | hlast
    · cases ha : t.attempts (n + 1) with
      | opens => exact hfails ha
      | connectFails e =>
        rw [ha] at hv
        cases hv
      | openFails e =>
        rw [ha] at hv
        cases hv
    · rcases Nat.eq_or_lt_of_le hle with rfl | hlt
      · rw [← hlast] at hopens
        exact hfails hopens
      · exact hbefore i hi (by omega) hopens
  unfold connectBi
  dsimp only
  rw [hends.calls, houtcome, hsplit, List.flatMap_append, List.flatMap_singleton]
  cases ha : t.attempts (n + 1) with
  | opens =>
    left
    refine ⟨n + 1, _, hpos, hc, ha, hbefore, ?_, ?_, rfl⟩
    · rw [streams_append, hs]
      rfl
    · intro conn
      rw [bytesOn_append, hb]
      rfl
  | connectFails e =>
    right
    refine ⟨.transport e, _, hall (by simp [ha]), ?_, ?_, rfl⟩
    · rw [streams_append, hs]
      rfl
    · intro conn
      rw [bytesOn_append, hb]
      rfl
  | openFails e =>
    right
    refine ⟨.transport e, _, hall (by simp [ha]), ?_, ?_, rfl⟩
    · rw [streams_append, hs]
      rfl
    · intro conn
      rw [bytesOn_append, hb]
      rfl

theorem Writes.snoc {conn : ℕ} {allowed : Bytes} {acts : List Action} {a : Action}
    (h : Writes conn allowed acts) (hs : Client.streams [a] = []) (hb : ∀ c, bytesOn c [a] = []) :
    Writes conn allowed (acts ++ [a]) := by
  constructor
  · rw [streams_append, h.streams, hs, List.append_nil]
  · rw [bytesOn_append, hb, List.append_nil]
    exact h.bytes
  · intro c hc
    rw [bytesOn_append, h.other c hc, hb, List.append_nil]

section Rest

variable (t : Transport ε) (conn : ℕ)

theorem awaitResponse_writes : Writes conn [] (awaitResponse t conn).1 := by
  unfold awaitResponse
  cases readResponse t "response" with
  | error e => exact Writes.nil conn []
  | ok resp => exact (Writes.nil conn []).snoc rfl fun _ => rfl

theorem copyOut_writes : Writes conn [] (copyOut t conn).1 := by
  unfold copyOut
  split
  · exact Writes.nil conn []
  · split
    · exact Writes.nil conn []
    · exact Writes.nil conn []
    · exact (Writes.nil conn []).snoc rfl fun _ => rfl
  · exact Writes.nil conn []
  · exact Writes.nil conn []

theorem copyIn_writes (input : Bytes) : Writes conn input (copyIn t input conn).1 := by
  have hwrite : Writes conn input [.write conn input] := Writes.write (List.prefix_refl input)
  have hfinish : Writes conn input [.write conn input, .finish conn] :=
    hwrite.snoc rfl fun _ => rfl
  unfold copyIn
  split
  · exact Writes.write (List.take_prefix _ input)
  · exact hwrite
  · split
    · exact hfinish
    · exact hfinish.snoc rfl fun _ => rfl
    · exact hfinish
    · exact hfinish

end Rest

section Calls

variable {F : Type} (args : ArgMatches F) (t : Transport ε) [Codec Request]

/-- Either every attempt failed and nothing was sent, or the first that succeeded opened the
only stream, which carries the request, if it could be written, and part of `allowed` after it. -/
inductive Sent (attempts : ℕ) (t : Transport ε) (req : Request) (allowed : Bytes)
    (acts : List Action) : Prop where
  | nothing (failed : ∀ i, 1 ≤ i → i ≤ attempts → t.attempts i ≠ .opens)
      (streams : streams acts = []) (bytes : ∀ conn, bytesOn conn acts = [])
  | onStream (s : ℕ) (pos : 1 ≤ s) (le : s ≤ attempts) (opens : t.attempts s = .opens)
      (failed : ∀ i, 1 ≤ i → i < s → t.attempts i ≠ .opens)
      (streams : streams acts = [s]) (other : ∀ conn, conn ≠ s → bytesOn conn acts = [])
      (tooLarge : ∀ msg, writeMsg req = .error msg → bytesOn s acts = [])
      (cut : ∀ frame, writeMsg req = .ok frame → t.writeFails ≠ none → bytesOn s acts <+: frame)
      (whole : ∀ frame, writeMsg req = .ok frame → t.writeFails = none →
        ∃ raw, raw <+: allowed ∧ bytesOn s acts = frame ++ raw)

theorem exchange_sent {α : Type} {rest : ℕ → List Action × Except (Error ε) α} {allowed : Bytes}
    (hrest : ∀ conn, Writes conn allowed (rest conn).1) (req : Request) :
    Sent (ClientConfig.fromCli args).attempts t req allowed
      (exchange (ClientConfig.fromCli args) t req rest).1 := by
  unfold exchange
  rcases connectBi_spec args t with
    ⟨s, acts, hpos, hle, hopens, hbefore, hstreams, hbytes, heq⟩ | ⟨e, acts, hall, hstreams, hbytes, heq⟩
  · rw [heq]
    dsimp only
    unfold writeRequest
    cases hmsg : writeMsg req with
    | error msg =>
      dsimp only
      rw [List.append_nil]
      refine .onStream s hpos hle hopens hbefore hstreams (fun conn _ => hbytes conn)
        (fun _ _ => hbytes s) ?_ ?_
      · intro frame hframe
        rw [hmsg] at hframe
        cases hframe
      · intro frame hframe
        rw [hmsg] at hframe
        cases hframe
    | ok frame =>
      have hnone : ∀ msg, writeMsg req = .error msg → False := by
        intro msg h
        rw [hmsg] at h
        cases h
      have hsame : ∀ frame', writeMsg req = .ok frame' → frame' = frame := by
        intro frame' h
        rw [hmsg] at h
        exact (Except.ok.inj h).symm
      cases hw : t.writeFails with
      | some p =>
        have hcut : Writes s frame [.write s (frame.take p.1)] :=
          Writes.write (List.take_prefix _ frame)
        refine .onStream s hpos hle hopens hbefore ?_ ?_ (fun msg h => (hnone msg h).elim) ?_ ?_
        · rw [streams_append, hstreams, hcut.streams, List.append_nil]
        · intro conn hne
          rw [bytesOn_append, hbytes, hcut.other conn hne, List.append_nil]
        · intro frame' h _
          rw [hsame frame' h, bytesOn_append, hbytes, List.nil_append]
          exact hcut.bytes
        · intro frame' _ h
          rw [hw] at h
          cases h
      | none =>
        have hwhole : Writes s frame [.write s frame] := Writes.write (List.prefix_refl frame)
        have hafter := hrest s
        refine .onStream s hpos hle hopens hbefore ?_ ?_ (fun msg h => (hnone msg h).elim) ?_ ?_
        · rw [streams_append, streams_append, hstreams, hwhole.streams, hafter.streams]
          rfl
        · intro conn hne
          rw [bytesOn_append, bytesOn_append, hbytes, hwhole.other conn hne, hafter.other conn hne]
          rfl
        · intro frame' _ h
          exact absurd hw h
        · intro frame' h _
          refine ⟨bytesOn s (rest s).1, hafter.bytes, ?_⟩
          rw [hsame frame' h, bytesOn_append, bytesOn_append, hbytes]
          simp [bytesOn]
  · rw [heq]
    exact Sent.nothing hall hstreams hbytes

theorem Call.sent (c : Call) : Sent (ClientConfig.fromCli args).attempts t c.req c.input
    (c.actions (ClientConfig.fromCli args) t) := by
  cases c with
  | request req => exact exchange_sent args t (awaitResponse_writes t) req
  | subscribe id => exact exchange_sent args t (copyOut_writes t) _
  | stdinStream id input => exact exchange_sent args t (fun conn => copyIn_writes t conn input) _

/-- The closure of `with_retry` runs up to its first success or the limit.  A call puts its
request on one stream, that of the first attempt that succeeds, if there is one within the
limit and it can be written; when every attempt fails, nothing is sent; and in no case is there
more than one stream with bytes of a request. -/
theorem one_request {α : Type} (f : ℕ → Except ε α) (c : Call) :
    (((withRetry (ClientConfig.fromCli args) f).calls : ℕ∞) =
        min (firstSuccess f) ((max (ClientConfig.fromCli args).maxRetries 1 : ℕ) : ℕ∞) ∧
      (withRetry (ClientConfig.fromCli args) f).outcome =
        .returned (f (withRetry (ClientConfig.fromCli args) f).calls)) ∧
    ((∀ i, 1 ≤ i → i ≤ max (ClientConfig.fromCli args).maxRetries 1 → t.attempts i ≠ .opens) →
      streams (c.actions (ClientConfig.fromCli args) t) = [] ∧
      ∀ conn, bytesOn conn (c.actions (ClientConfig.fromCli args) t) = []) ∧
    (∀ s frame, 1 ≤ s → s ≤ max (ClientConfig.fromCli args).maxRetries 1 →
      t.attempts s = .opens → (∀ i, 1 ≤ i → i < s → t.attempts i ≠ .opens) →
      writeMsg c.req = .ok frame → t.writeFails = none →
      streams (c.actions (ClientConfig.fromCli args) t) = [s] ∧
      (∃ raw, raw <+: c.input ∧
        bytesOn s (c.actions (ClientConfig.fromCli args) t) = frame ++ raw) ∧
      ∀ conn, conn ≠ s → bytesOn conn (c.actions (ClientConfig.fromCli args) t) = []) ∧
    ((streams (c.actions (ClientConfig.fromCli args) t)).length ≤ 1 ∧
      ∀ conn, bytesOn conn (c.actions (ClientConfig.fromCli args) t) ≠ [] →
        streams (c.actions (ClientConfig.fromCli args) t) = [conn] ∧
        ∃ frame, writeMsg c.req = .ok frame ∧
          bytesOn conn (c.actions (ClientConfig.fromCli args) t) <+: frame ++ c.input) := by
  have hsent := c.sent args t
  refine ⟨withRetry_calls args f, ?_, ?_, ?_⟩
  · intro hall
    cases hsent with
    | nothing _ hs hb => exact ⟨hs, hb⟩
    | onStream s hpos hle hopens => exact absurd hopens (hall s hpos hle)
  · intro s frame hpos hle hopens hbefore hframe hw
    cases hsent with
    | nothing hall => exact absurd hopens (hall s hpos hle)
    | onStream s' hpos' hle' hopens' hbefore' hs hother _ _ hwhole =>
      have heq : s' = s := by
        rcases Nat.lt_trichotomy s' s with hlt | heq | hlt
        · exact absurd hopens' (hbefore s' hpos' hlt)
        · exact heq
        · exact absurd hopens (hbefore' s hpos hlt)
      subst heq
      exact ⟨hs, hwhole frame hframe hw, hother⟩
  · cases hsent with
    | nothing _ hs hb =>
      rw [hs]
      exact ⟨Nat.zero_le 1, fun conn hne => absurd (hb conn) hne⟩
    | onStream s _ _ _ _ hs hother hlarge hcut hwhole =>
      rw [hs]
      refine ⟨Nat.le_refl 1, ?_⟩
      intro conn hne
      by_cases hconn : conn = s
      · subst hconn
        refine ⟨rfl, ?_⟩
        cases hmsg : writeMsg c.req with
        | error msg => exact absurd (hlarge msg hmsg) hne
        | ok frame =>
          refine ⟨frame, rfl, ?_⟩
          by_cases hw : t.writeFails = none
          · obtain ⟨raw, hraw, heq⟩ := hwhole frame hmsg hw
            rw [heq]
            exact (List.prefix_append_right_inj frame).mpr hraw
          · exact (hcut frame hmsg hw).trans (List.prefix_append frame _)
      · exact absurd (hother conn hconn) hne

end Calls

end MeshSupervisor.Client
