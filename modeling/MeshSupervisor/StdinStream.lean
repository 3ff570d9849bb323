import MeshSupervisor.Lib.Pipe
import MeshSupervisor.Supervisor

/-! # The stdin exchange

`stdin_stream` of `client.rs` and the `StdinStream` branch of `accept`, with `pipe_stdin`, as
two parties on one stream: `up` carries the request and the input to the supervisor, `down` the
response to the client, each with its flow-control window.  The client writes its whole input
before it reads; the supervisor stops reading as soon as it knows its answer, and keeps the
stream open until the client closes.

`conservation`: what the supervisor has read, what is under way and what the client has still to
send make up the request and the input, in order.

`stdin_answered_iff`: once the supervisor has written its response, the client can go on to read
it, and nobody is ever blocked, if and only if what the supervisor has left unread fits into the
window.  `stdin_deadlock` is a rate-limited client with a larger input. -/

namespace MeshSupervisor

open Wire (Bytes Codec)

/-! ### The two parties -/

/-- Where `stdin_stream` stands. -/
inductive StdinClient where
  /-- `write_msg`, then `copy`: this is still to be sent. -/
  | sending (rest : Bytes)
  /-- `read_response`, with what it has read so far. -/
  | receiving (got : Bytes)
  /-- Returned, and the connection is closed. -/
  | returned (result : Except String Response)

/-- Where `accept` stands. -/
inductive StdinServer where
  | limiting
  /-- `read_msg` of the request. -/
  | reading
  /-- `pipe_stdin` waits for the stdin lock. -/
  | locking (slot : Option LaunchId)
  /-- `copy`, with what it has read and not yet written to the child. -/
  | copying (chunk : Bytes)
  /-- `write_msg` of the response. -/
  | replying (resp : Response) (rest : Bytes)
  /-- `conn.closed`: the response is written. -/
  | closing (resp : Response)
  | returned

structure Exchange where
  client : StdinClient
  server : StdinServer
  up : Pipe UInt8
  down : Pipe UInt8
  /-- What the supervisor has read from `up`. -/
  taken : Bytes

/-- A choice of a party or of its environment. -/
inductive ExchangeAction where
  /-- The client writes its next `n` bytes. -/
  | send (n : ℕ)
  | finish
  /-- The client reads `n` bytes of the response. -/
  | receive (n : ℕ)
  /-- The response is complete. -/
  | result
  /-- The client's read timeout. -/
  | expire
  /-- The supervisor has dropped the connection. -/
  | lost
  /-- The limiter's decision. -/
  | limit (allowed : Bool)
  /-- The supervisor reads `n` bytes of the request. -/
  | read (n : ℕ)
  /-- The supervisor's request timeout. -/
  | timeout
  /-- The request is complete, with the process manager as it is then. -/
  | parse (m : Manager)
  /-- The lock is taken; the child's stdin is open or not. -/
  | lock (isOpen : Bool)
  /-- The supervisor reads `n` bytes of the input. -/
  | copy (n : ℕ)
  /-- The child's stdin takes `n` bytes. -/
  | feed (n : ℕ)
  /-- The child has closed its read end. -/
  | broken
  /-- The end of the input. -/
  | eof
  /-- The supervisor writes `n` bytes of the response. -/
  | reply (n : ℕ)
  /-- The client has closed the connection. -/
  | closed

inductive ExchangeEvent where
  | fed (bytes : Bytes)
  | returned (result : Except String Response)

def StdinClient.rest : StdinClient → Bytes
  | .sending rest => rest
  | _ => []

def StdinClient.got : StdinClient → Bytes
  | .receiving got => got
  | _ => []

/-- `accept` does not know its answer yet. -/
def StdinServer.undecided : StdinServer → Bool
  | .limiting | .reading | .locking _ | .copying _ => true
  | .replying _ _ | .closing _ | .returned => false

/-- `accept` has read the request. -/
def StdinServer.requested : StdinServer → Bool
  | .limiting | .reading => false
  | _ => true

/-- The response that `accept` has decided on, and what of it is still to be written. -/
def StdinServer.response : StdinServer → Option (Response × Bytes)
  | .replying resp rest => some (resp, rest)
  | .closing resp => some (resp, [])
  | _ => none

theorem StdinServer.undecided_spec {server : StdinServer} (h : server.undecided = true) :
    server ≠ .returned ∧ server.response = none := by
  cases server with
  | limiting | reading | locking | copying => exact ⟨by simp, rfl⟩
  | replying | closing | returned => cases h

theorem StdinServer.response_reply (n : ℕ) (resp : Response) (rest : Bytes) :
    (if n = rest.length then StdinServer.closing resp
      else StdinServer.replying resp (rest.drop n)).response = some (resp, rest.drop n) := by
  by_cases hn : n = rest.length
  · rw [if_pos hn, hn, List.drop_length]
    rfl
  · rw [if_neg hn]
    rfl

/-! ### Their steps -/

/-- How many bytes `read_msg` reads, once it has `got`: the header, then what it announces. -/
def wanted (got : Bytes) : ℕ :=
  match readU32 got with
  | none => 4
  | some (len, _) => if maxFrame < len then 4 else 4 + len

/-- A step of the exchange: its new state and what is seen of it. -/
abbrev Exchanged := Exchange × List ExchangeEvent

theorem wanted_header {α : Type} [Codec α] {msg : α} {frame got : Bytes}
    (h : writeMsg msg = .ok frame) (hp : got <+: frame) :
    (got = frame → wanted got ≤ got.length) ∧ (got ≠ frame → got.length < wanted got) := by
  obtain ⟨hfit, rfl⟩ := writeMsg_eq_ok.mp h
  have hframe := length_writeU32_append (Codec.encode msg).length (Codec.encode msg)
  rcases header_cases hp with ⟨hshort, hnone⟩ | ⟨rest, rfl⟩
  · constructor
    · intro he
      rw [he] at hshort
      omega
    · intro _
      rw [wanted, hnone]
      exact hshort
  · have hwant : wanted (writeU32 (Codec.encode msg).length ++ rest) =
        4 + (Codec.encode msg).length := by
      simp only [wanted, readU32_writeU32 (lt_of_fits hfit), Nat.not_lt.mpr hfit, if_false]
    rw [hwant]
    constructor
    · intro he
      rw [he, hframe]
    · intro hne
      have hle := hp.length_le
      by_contra hge
      exact hne (hp.eq_of_length (by omega))

theorem wanted_frame {α : Type} [Codec α] {msg : α} {frame : Bytes} (h : writeMsg msg = .ok frame)
    (more : Bytes) : wanted (frame ++ more) = wanted frame := by
  obtain ⟨-, rfl⟩ := writeMsg_eq_ok.mp h
  rfl

theorem four_le_wanted (got : Bytes) : 4 ≤ wanted got := by
  unfold wanted
  cases readU32 got with
  | none => exact le_rfl
  | some p =>
      obtain ⟨len, rest⟩ := p
      dsimp only
      split_ifs <;> omega

/-- `read_msg` does not read beyond its message. -/
theorem wanted_append {got bytes : Bytes} (h : got.length + bytes.length ≤ wanted got) :
    (got ++ bytes).length ≤ wanted (got ++ bytes) := by
  have hfour := four_le_wanted (got ++ bytes)
  rw [List.length_append]
  match got, h, hfour with
  | [], h, hfour => exact h.trans hfour
  | [_], h, hfour => exact h.trans hfour
  | [_, _], h, hfour => exact h.trans hfour
  | [_, _, _], h, hfour => exact h.trans hfour
  | _ :: _ :: _ :: _ :: _, h, _ => exact h

section Steps

variable [Codec Request] [Codec Response] {EndpointId : Type} [DecidableEq EndpointId]

/-- What `stdin_stream` sends. -/
def stdinBytes (id : Handle) (input : Bytes) : Bytes :=
  match writeMsg (Request.stdinStream id) with
  | .ok frame => frame ++ input
  | .error _ => []

def Exchange.start (window response : ℕ) (id : Handle) (input : Bytes) : Exchange where
  client :=
    match writeMsg (Request.stdinStream id) with
    | .ok frame => .sending (frame ++ input)
    | .error e => .returned (.error e)
  server := .limiting
  up := .new window
  down := .new response
  taken := []

namespace Exchange

/-- `stdin_stream` returns and drops or closes the connection. -/
def clientReturn (s : Exchange) (result : Except String Response) : Option Exchanged :=
  some ({ s with client := .returned result }, [.returned result])

/-- `write_msg` of the response; one that does not fit into a frame ends `accept`. -/
def answer (s : Exchange) (resp : Response) : Option Exchanged :=
  match writeMsg resp with
  | .ok frame => some ({ s with server := .replying resp frame }, [])
  | .error _ => some ({ s with server := .returned }, [])

/-- The request as `accept` has read it. -/
def parse (authz : Authz EndpointId) (remote : EndpointId) (s : Exchange) (m : Manager) :
    Option Exchanged :=
  match readMsg s.taken with
  | .error _ => s.answer (.error (.badRequest "malformed request"))
  | .ok (req, _) =>
      match authz.authorize remote req with
      | .error e => s.answer (.error e)
      | .ok () =>
          match req with
          | .stdinStream id =>
              match m.stdinSlot id with
              | .error e => s.answer (.error e)
              | .ok slot => some ({ s with server := .locking slot }, [])
          -- another request than the client's
          | _ => none

def clientStep (s : Exchange) : ExchangeAction → Option Exchanged
  | .send n =>
      match s.client with
      | .sending rest =>
          if 0 < n ∧ n ≤ rest.length then
            (s.up.write (rest.take n)).map (fun up =>
              ({ s with client := .sending (rest.drop n), up := up }, []))
          else none
      | _ => none
  | .finish =>
      match s.client with
      | .sending [] => some ({ s with client := .receiving [], up := s.up.finish }, [])
      | _ => none
  | .receive n =>
      match s.client with
      | .receiving got =>
          if 0 < n ∧ got.length + n ≤ wanted got then
            (s.down.read n).map (fun p => ({ s with client := .receiving (got ++ p.1), down := p.2 }, []))
          else none
      | _ => none
  | .result =>
      match s.client with
      | .receiving got =>
          if wanted got ≤ got.length then
            match readMsg got with
            | .ok (resp, _) => s.clientReturn (.ok resp)
            | .error e => s.clientReturn (.error e)
          else none
      | _ => none
  | .expire =>
      match s.client with
      | .receiving _ => s.clientReturn (.error "timed out waiting for stdin response")
      | _ => none
  | .lost =>
      match s.client, s.server with
      | .returned _, _ => none
      | _, .returned => s.clientReturn (.error "connection lost")
      | _, _ => none
  | _ => none

def serverStep (authz : Authz EndpointId) (remote : EndpointId) (s : Exchange) :
    ExchangeAction → Option Exchanged
  | .limit allowed =>
      match s.server with
      | .limiting =>
          if allowed then some ({ s with server := .reading }, [])
          else s.answer (.error .rateLimited)
      | _ => none
  | .read n =>
      match s.server with
      | .reading =>
          if 0 < n ∧ s.taken.length + n ≤ wanted s.taken then
            (s.up.read n).map (fun p => ({ s with up := p.2, taken := s.taken ++ p.1 }, []))
          else none
      | _ => none
  | .timeout =>
      match s.server with
      | .reading => s.answer (.error .timeout)
      | _ => none
  | .parse m =>
      match s.server with
      | .reading =>
          if wanted s.taken ≤ s.taken.length || s.up.ended then s.parse authz remote m else none
      | _ => none
  | .lock isOpen =>
      match s.server with
      | .locking slot =>
          if isOpen && slot.isSome then some ({ s with server := .copying [] }, [])
          else s.answer (.error (.badRequest "stdin unavailable"))
      | _ => none
  | .copy n =>
      match s.server with
      | .copying chunk =>
          if 0 < n then
            (s.up.read n).map (fun p =>
              ({ s with server := .copying (chunk ++ p.1), up := p.2, taken := s.taken ++ p.1 }, []))
          else none
      | _ => none
  | .feed n =>
      match s.server with
      | .copying chunk =>
          if 0 < n ∧ n ≤ chunk.length then
            some ({ s with server := .copying (chunk.drop n) }, [.fed (chunk.take n)])
          else none
      | _ => none
  | .broken =>
      match s.server with
      | .copying (_ :: _) => s.answer (pipedResponse (.error (.badRequest "stdin pipe closed")))
      | _ => none
  | .eof =>
      match s.server with
      | .copying [] => if s.up.ended then s.answer (pipedResponse (.ok ())) else none
      | _ => none
  | .reply n =>
      match s.server with
      | .replying resp rest =>
          if 0 < n ∧ n ≤ rest.length then
            (s.down.write (rest.take n)).map (fun down =>
              ({ s with
                  server := if n = rest.length then .closing resp else .replying resp (rest.drop n)
                  down := down }, []))
          else none
      | _ => none
  | .closed =>
      match s.client, s.server with
      | _, .returned => none
      | .returned _, _ => some ({ s with server := .returned }, [])
      | _, _ => none
  | _ => none

end Exchange

def exchange (authz : Authz EndpointId) (remote : EndpointId) (s : Exchange) (a : ExchangeAction) :
    Option Exchanged :=
  match s.clientStep a with
  | some r => some r
  | none => s.serverStep authz remote a

/-! ### What a step can do -/

namespace Exchange

inductive Moves (s : Exchange) : Exchange → Prop
  | send (n : ℕ) (rest : Bytes) (up : Pipe UInt8) : s.client = .sending rest → 0 < n →
      n ≤ rest.length → s.up.write (rest.take n) = some up →
      Moves s { s with client := .sending (rest.drop n), up := up }
  | finish : s.client = .sending [] →
      Moves s { s with client := .receiving [], up := s.up.finish }
  | receive (n : ℕ) (got bytes : Bytes) (down : Pipe UInt8) : s.client = .receiving got →
      s.down.read n = some (bytes, down) →
      Moves s { s with client := .receiving (got ++ bytes), down := down }
  | clientReturns (result : Except String Response) :
      (∃ got, s.client = .receiving got) ∨ s.server = .returned →
      Moves s { s with client := .returned result }
  | take (n : ℕ) (bytes : Bytes) (up : Pipe UInt8) (server : StdinServer) :
      s.server.undecided = true → server.undecided = true → s.up.read n = some (bytes, up) →
      (server = .reading ∧ s.taken.length + n ≤ wanted s.taken) ∨ server.requested = true →
      Moves s { s with server := server, up := up, taken := s.taken ++ bytes }
  | proceed (server : StdinServer) : s.server.undecided = true → server.undecided = true →
      (server = .reading ∧ s.server = .limiting) ∨ server.requested = true →
      Moves s { s with server := server }
  | answer (resp : Response) (frame : Bytes) : s.server.undecided = true →
      (resp = .ack → s.up.ended = true) → writeMsg resp = .ok frame →
      Moves s { s with server := .replying resp frame }
  | fails : s.server.undecided = true → Moves s { s with server := .returned }
  | reply (n : ℕ) (resp : Response) (rest : Bytes) (down : Pipe UInt8) :
      s.server = .replying resp rest → s.down.write (rest.take n) = some down →
      Moves s { s with
        server := if n = rest.length then .closing resp else .replying resp (rest.drop n)
        down := down }
  | closed (result : Except String Response) : s.client = .returned result →
      Moves s { s with server := .returned }

omit [Codec Request] in
theorem answer_moves {s s' : Exchange} {resp : Response} {evs : List ExchangeEvent}
    (hu : s.server.undecided = true) (hack : resp = .ack → s.up.ended = true)
    (h : s.answer resp = some (s', evs)) : s.Moves s' := by
  unfold Exchange.answer at h
  cases hw : writeMsg resp with
  | ok frame =>
      rw [hw] at h
      obtain ⟨rfl, -⟩ := Prod.mk.inj (Option.some.inj h)
      exact .answer resp frame hu hack hw
  | error e =>
      rw [hw] at h
      obtain ⟨rfl, -⟩ := Prod.mk.inj (Option.some.inj h)
      exact .fails hu

theorem parse_moves {authz : Authz EndpointId} {remote : EndpointId} {s s' : Exchange} {m : Manager}
    {evs : List ExchangeEvent} (hu : s.server.undecided = true)
    (h : s.parse authz remote m = some (s', evs)) : s.Moves s' := by
  unfold Exchange.parse at h
  cases hread : readMsg (α := Request) s.taken with
  | error e =>
      rw [hread] at h
      exact answer_moves hu (by simp) h
  | ok p =>
      obtain ⟨req, rest⟩ := p
      rw [hread] at h
      dsimp only at h
      cases hauth : authz.authorize remote req with
      | error e =>
          rw [hauth] at h
          exact answer_moves hu (by simp) h
      | ok u =>
          rw [hauth] at h
          cases req with
          | stdinStream id =>
              dsimp only at h
              cases hslot : m.stdinSlot id with
              | error e =>
                  rw [hslot] at h
                  exact answer_moves hu (by simp) h
              | ok slot =>
                  rw [hslot] at h
                  obtain ⟨rfl, -⟩ := Prod.mk.inj (Option.some.inj h)
                  exact .proceed _ hu rfl (.inr rfl)
          | _ => cases h

omit [Codec Request] in
theorem clientStep_moves {s s' : Exchange} {a : ExchangeAction} {evs : List ExchangeEvent}
    (h : s.clientStep a = some (s', evs)) : s.Moves s' := by
  cases a with
  | send n =>
      simp only [clientStep] at h
      cases hc : s.client with
      | sending rest =>
          rw [hc] at h
          dsimp only at h
          split_ifs at h with hn
          obtain ⟨up, hw, he⟩ := Option.map_eq_some_iff.mp h
          obtain ⟨rfl, -⟩ := Prod.mk.inj he
          exact .send n rest up hc hn.1 hn.2 hw
      | _ =>
          rw [hc] at h
          cases h
  | finish =>
      simp only [clientStep] at h
      cases hc : s.client with
      | sending rest =>
          rw [hc] at h
          cases rest with
          | nil =>
              obtain ⟨rfl, -⟩ := Prod.mk.inj (Option.some.inj h)
              exact .finish hc
          | cons b rest => cases h
      | _ =>
          rw [hc] at h
          cases h
  | receive n =>
      simp only [clientStep] at h
      cases hc : s.client with
      | receiving got =>
          rw [hc] at h
          dsimp only at h
          split_ifs at h with hn
          obtain ⟨⟨bytes, down⟩, hr, he⟩ := Option.map_eq_some_iff.mp h
          obtain ⟨rfl, -⟩ := Prod.mk.inj he
          exact .receive n got bytes down hc hr
      | _ =>
          rw [hc] at h
          cases h
  | result =>
      simp only [clientStep] at h
      cases hc : s.client with
      | receiving got =>
          rw [hc] at h
          dsimp only at h
          split_ifs at h with hn
          cases hread : readMsg (α := Response) got with
          | ok p =>
              rw [hread] at h
              obtain ⟨rfl, -⟩ := Prod.mk.inj (Option.some.inj h)
              exact .clientReturns _ (.inl ⟨got, hc⟩)
          | error e =>
              rw [hread] at h
              obtain ⟨rfl, -⟩ := Prod.mk.inj (Option.some.inj h)
              exact .clientReturns _ (.inl ⟨got, hc⟩)
      | _ =>
          rw [hc] at h
          cases h
  | expire =>
      simp only [clientStep] at h
      cases hc : s.client with
      | receiving got =>
          rw [hc] at h
          obtain ⟨rfl, -⟩ := Prod.mk.inj (Option.some.inj h)
          exact .clientReturns _ (.inl ⟨got, hc⟩)
      | _ =>
          rw [hc] at h
          cases h
  | lost =>
      simp only [clientStep] at h
      split at h
      · cases h
      · rename_i hs _
        obtain ⟨rfl, -⟩ := Prod.mk.inj (Option.some.inj h)
        exact .clientReturns _ (.inr hs)
      · cases h
  | _ => cases h

theorem serverStep_moves {authz : Authz EndpointId} {remote : EndpointId} {s s' : Exchange}
    {a : ExchangeAction} {evs : List ExchangeEvent}
    (h : s.serverStep authz remote a = some (s', evs)) : s.Moves s' := by
  have hund : ∀ {server : StdinServer}, s.server = server → server.undecided = true →
      s.server.undecided = true := by
    rintro server rfl hu
    exact hu
  cases a with
  | limit allowed =>
      simp only [serverStep] at h
      cases hs : s.server with
      | limiting =>
          rw [hs] at h
          cases allowed with
          | true =>
              obtain ⟨rfl, -⟩ := Prod.mk.inj (Option.some.inj h)
              exact .proceed _ (hund hs rfl) rfl (.inl ⟨rfl, hs⟩)
          | false => exact answer_moves (hund hs rfl) (by simp) h
      | _ =>
          rw [hs] at h
          cases h
  | read n =>
      simp only [serverStep] at h
      cases hs : s.server with
      | reading =>
          rw [hs] at h
          dsimp only at h
          split_ifs at h with hn
          obtain ⟨⟨bytes, up⟩, hr, he⟩ := Option.map_eq_some_iff.mp h
          obtain ⟨rfl, -⟩ := Prod.mk.inj he
          exact .take n bytes up _ (hund hs rfl) rfl hr (.inl ⟨rfl, hn.2⟩)
      | _ =>
          rw [hs] at h
          cases h
  | timeout =>
      simp only [serverStep] at h
      cases hs : s.server with
      | reading =>
          rw [hs] at h
          exact answer_moves (hund hs rfl) (by simp) h
      | _ =>
          rw [hs] at h
          cases h
  | parse m =>
      simp only [serverStep] at h
      cases hs : s.server with
      | reading =>
          rw [hs] at h
          dsimp only at h
          split_ifs at h
          exact parse_moves (hund hs rfl) h
      | _ =>
          rw [hs] at h
          cases h
  | lock isOpen =>
      simp only [serverStep] at h
      cases hs : s.server with
      | locking slot =>
          rw [hs] at h
          dsimp only at h
          split_ifs at h
          · obtain ⟨rfl, -⟩ := Prod.mk.inj (Option.some.inj h)
            exact .proceed _ (hund hs rfl) rfl (.inr rfl)
          · exact answer_moves (hund hs rfl) (by simp) h
      | _ =>
          rw [hs] at h
          cases h
  | copy n =>
      simp only [serverStep] at h
      cases hs : s.server with
      | copying chunk =>
          rw [hs] at h
          dsimp only at h
          split_ifs at h
          obtain ⟨⟨bytes, up⟩, hr, he⟩ := Option.map_eq_some_iff.mp h
          obtain ⟨rfl, -⟩ := Prod.mk.inj he
          exact .take n bytes up _ (hund hs rfl) rfl hr (.inr rfl)
      | _ =>
          rw [hs] at h
          cases h
  | feed n =>
      simp only [serverStep] at h
      cases hs : s.server with
      | copying chunk =>
          rw [hs] at h
          dsimp only at h
          split_ifs at h
          obtain ⟨rfl, -⟩ := Prod.mk.inj (Option.some.inj h)
          exact .proceed _ (hund hs rfl) rfl (.inr rfl)
      | _ =>
          rw [hs] at h
          cases h
  | broken =>
      simp only [serverStep] at h
      cases hs : s.server with
      | copying chunk =>
          rw [hs] at h
          cases chunk with
          | nil => cases h
          | cons b chunk => exact answer_moves (hund hs rfl) (by simp [pipedResponse]) h
      | _ =>
          rw [hs] at h
          cases h
  | eof =>
      simp only [serverStep] at h
      cases hs : s.server with
      | copying chunk =>
          rw [hs] at h
          cases chunk with
          | nil =>
              dsimp only at h
              split_ifs at h with hend
              exact answer_moves (hund hs rfl) (fun _ => hend) h
          | cons b chunk => cases h
      | _ =>
          rw [hs] at h
          cases h
  | reply n =>
      simp only [serverStep] at h
      cases hs : s.server with
      | replying resp rest =>
          rw [hs] at h
          dsimp only at h
          by_cases hn : 0 < n ∧ n ≤ rest.length
          · rw [if_pos hn] at h
            obtain ⟨down, hw, he⟩ := Option.map_eq_some_iff.mp h
            obtain ⟨rfl, -⟩ := Prod.mk.inj he
            exact .reply n resp rest down hs hw
          · rw [if_neg hn] at h
            cases h
      | _ =>
          rw [hs] at h
          cases h
  | closed =>
      simp only [serverStep] at h
      split at h
      · cases h
      · rename_i result _ hc _
        obtain ⟨rfl, -⟩ := Prod.mk.inj (Option.some.inj h)
        exact .closed _ hc
      · cases h
  | _ => cases h

end Exchange

theorem exchange_moves {authz : Authz EndpointId} {remote : EndpointId} {s s' : Exchange}
    {a : ExchangeAction} {evs : List ExchangeEvent}
    (h : exchange authz remote s a = some (s', evs)) : s.Moves s' := by
  unfold exchange at h
  cases hc : s.clientStep a with
  | some r =>
      rw [hc] at h
      obtain rfl := Option.some.inj h
      exact Exchange.clientStep_moves hc
  | none =>
      rw [hc] at h
      exact Exchange.serverStep_moves h

/-! ### What a run keeps -/

/-- The way up, in an exchange that sends `bytes` through a window. -/
structure Exchange.Upward (window : ℕ) (bytes : Bytes) (s : Exchange) : Prop where
  window : s.up.window = window
  /-- Nothing is lost and nothing is made up, as long as `accept` has not dropped the stream. -/
  conserved : s.server ≠ .returned → s.taken ++ s.up.buffer ++ s.client.rest = bytes
  isOpen : ∀ rest, s.client = .sending rest → s.up.finished = false
  rest : s.up.finished = true → s.client.rest = []
  /-- An input that is acknowledged was read to its end. -/
  acknowledged : ∀ rest, s.server.response = some (.ack, rest) → s.up.ended = true

omit [Codec Response] in
theorem Exchange.Upward.start (window response : ℕ) (id : Handle) (input : Bytes) :
    (Exchange.start window response id input).Upward window (stdinBytes id input) where
  window := rfl
  conserved _ := by
    unfold Exchange.start stdinBytes
    cases writeMsg (Request.stdinStream id) with
    | ok frame => rfl
    | error e => rfl
  isOpen _ _ := rfl
  rest h := by cases h
  acknowledged _ h := by cases h

omit [Codec Request] in
theorem Exchange.Upward.keep {window : ℕ} {bytes : Bytes} {s s' : Exchange}
    (h : s.Upward window bytes) (hm : s.Moves s') : s'.Upward window bytes := by
  cases hm with
  | send n rest up hc h0 hn hw =>
      obtain ⟨hbuf, hwin, hopen, hopen'⟩ := Pipe.write_spec hw
      refine ⟨hwin.trans h.window, fun hs => ?_, fun _ _ => hopen', fun hf => ?_, fun rest' hs => ?_⟩
      · have hcons := h.conserved hs
        rw [hc] at hcons
        simp only [StdinClient.rest] at hcons ⊢
        rw [hbuf, ← hcons, ← List.append_assoc, List.append_assoc _ (rest.take n), List.take_append_drop]
      · rw [hopen'] at hf
        cases hf
      · have := Pipe.ended_iff.mp (h.acknowledged rest' hs)
        rw [hopen] at this
        cases this.1
  | finish hc =>
      refine ⟨h.window, fun hs => ?_, fun rest hr => ?_, fun _ => rfl, fun rest hs => ?_⟩
      · have hcons := h.conserved hs
        rw [hc] at hcons
        exact hcons
      · cases hr
      · exact Pipe.ended_iff.mpr ⟨rfl, (Pipe.ended_iff.mp (h.acknowledged rest hs)).2⟩
  | receive n got bs down hc hr =>
      refine ⟨h.window, fun hs => ?_, fun rest hr => ?_, fun _ => rfl, h.acknowledged⟩
      · have hcons := h.conserved hs
        rw [hc] at hcons
        exact hcons
      · cases hr
  | clientReturns result hc =>
      refine ⟨h.window, fun hs => ?_, fun rest hr => ?_, fun _ => rfl, h.acknowledged⟩
      · rcases hc with ⟨got, hc⟩ | hret
        · have hcons := h.conserved hs
          rw [hc] at hcons
          exact hcons
        · exact absurd hret hs
      · cases hr
  | take n bs up server hu hu' hr =>
      obtain ⟨hbuf, -, hwin, hfin⟩ := Pipe.read_spec hr
      refine ⟨hwin.trans h.window, fun hs => ?_, fun rest hc => ?_, fun hf => ?_, fun rest hs => ?_⟩
      · rw [← h.conserved (StdinServer.undecided_spec hu).1, ← hbuf]
        simp only [List.append_assoc]
      · exact hfin.trans (h.isOpen rest hc)
      · exact h.rest (hfin ▸ hf)
      · rw [(StdinServer.undecided_spec hu').2] at hs
        cases hs
  | proceed server hu hu' =>
      refine ⟨h.window, fun _ => h.conserved (StdinServer.undecided_spec hu).1, h.isOpen, h.rest,
        fun rest hs => ?_⟩
      rw [(StdinServer.undecided_spec hu').2] at hs
      cases hs
  | answer resp frame hu hack hw =>
      refine ⟨h.window, fun _ => h.conserved (StdinServer.undecided_spec hu).1, h.isOpen, h.rest,
        fun rest hs => ?_⟩
      exact hack (Prod.mk.inj (Option.some.inj hs)).1
  | fails hu => exact ⟨h.window, fun hs => absurd rfl hs, h.isOpen, h.rest, fun rest hs => by cases hs⟩
  | reply n resp rest down hs hw =>
      refine ⟨h.window, fun _ => h.conserved (by simp [hs]), h.isOpen, h.rest, fun rest' hs' => ?_⟩
      obtain ⟨rfl, -⟩ := Prod.mk.inj
        (Option.some.inj ((StdinServer.response_reply n resp rest).symm.trans hs'))
      exact h.acknowledged rest (by rw [hs]; rfl)
  | closed result hc =>
      exact ⟨h.window, fun hs => absurd rfl hs, h.isOpen, h.rest, fun rest hs => by cases hs⟩

/-- The way down: the client has read what the supervisor has written of its response. -/
structure Exchange.Downward (s : Exchange) : Prop where
  silent : s.server.undecided = true → s.client.got ++ s.down.buffer = []
  response : ∀ resp rest, s.server.response = some (resp, rest) → (∃ r, s.client = .returned r) ∨
    ∃ frame, writeMsg resp = .ok frame ∧ s.client.got ++ s.down.buffer ++ rest = frame

theorem Exchange.Downward.start (window response : ℕ) (id : Handle) (input : Bytes) :
    (Exchange.start window response id input).Downward where
  silent _ := by
    unfold Exchange.start
    cases writeMsg (Request.stdinStream id) with
    | ok frame => rfl
    | error e => rfl
  response _ _ h := by cases h

omit [Codec Request] in
theorem Exchange.Downward.keep {s s' : Exchange} (h : s.Downward) (hm : s.Moves s') : s'.Downward := by
  -- what the client has read and what it can read stay the same
  have hkeep : ∀ {client : StdinClient} {down : Pipe UInt8}, (∀ r, s.client ≠ .returned r) →
      client.got ++ down.buffer = s.client.got ++ s.down.buffer → ∀ resp rest,
      s.server.response = some (resp, rest) → (∃ r, client = .returned r) ∨
        ∃ frame, writeMsg resp = .ok frame ∧ client.got ++ down.buffer ++ rest = frame := by
    intro client down hret hgot resp rest hs
    rcases h.response resp rest hs with ⟨r, hr⟩ | ⟨frame, hw, hframe⟩
    · exact absurd hr (hret r)
    · exact .inr ⟨frame, hw, (congrArg (· ++ rest) hgot).trans hframe⟩
  cases hm with
  | send n rest up hc h0 hn hw =>
      have hgot : ([] : Bytes) ++ s.down.buffer = s.client.got ++ s.down.buffer := by
        rw [hc]
        rfl
      exact ⟨fun hs => hgot.trans (h.silent hs), hkeep (by simp [hc]) hgot⟩
  | finish hc =>
      have hgot : ([] : Bytes) ++ s.down.buffer = s.client.got ++ s.down.buffer := by
        rw [hc]
        rfl
      exact ⟨fun hs => hgot.trans (h.silent hs), hkeep (by simp [hc]) hgot⟩
  | receive n got bs down hc hr =>
      obtain ⟨hbuf, -, -, -⟩ := Pipe.read_spec hr
      have hgot : got ++ bs ++ down.buffer = s.client.got ++ s.down.buffer := by
        rw [hc, ← hbuf, List.append_assoc]
        rfl
      exact ⟨fun hs => hgot.trans (h.silent hs), hkeep (by simp [hc]) hgot⟩
  | clientReturns result hc =>
      refine ⟨fun hs => ?_, fun resp rest hs => .inl ⟨result, rfl⟩⟩
      exact (List.append_eq_nil_iff.mp (h.silent hs)).2
  | take n bs up server hu hu' hr =>
      refine ⟨fun _ => h.silent hu, fun resp rest hs => ?_⟩
      rw [(StdinServer.undecided_spec hu').2] at hs
      cases hs
  | proceed server hu hu' =>
      refine ⟨fun _ => h.silent hu, fun resp rest hs => ?_⟩
      rw [(StdinServer.undecided_spec hu').2] at hs
      cases hs
  | answer resp frame hu hack hw =>
      refine ⟨fun hs => (by cases hs), fun resp' rest hs => ?_⟩
      obtain ⟨rfl, rfl⟩ := Prod.mk.inj (Option.some.inj hs)
      refine .inr ⟨frame, hw, ?_⟩
      rw [h.silent hu]
      rfl
  | fails hu => exact ⟨fun hs => (by cases hs), fun resp rest hs => by cases hs⟩
  | reply n resp rest down hs hw =>
      obtain ⟨hbuf, -, -, -⟩ := Pipe.write_spec hw
      have hserver := StdinServer.response_reply n resp rest
      refine ⟨fun hu => ?_, fun resp' rest' hs' => ?_⟩
      · have hnone := (StdinServer.undecided_spec hu).2
        rw [hserver] at hnone
        cases hnone
      · obtain ⟨rfl, rfl⟩ := Prod.mk.inj (Option.some.inj (hserver.symm.trans hs'))
        rcases h.response resp rest (by rw [hs]; rfl) with hret | ⟨frame, hframe, heq⟩
        · exact .inl hret
        · refine .inr ⟨frame, hframe, ?_⟩
          dsimp only
          rw [hbuf, ← heq, ← List.append_assoc, List.append_assoc _ (rest.take n), List.take_append_drop]
  | closed result hc => exact ⟨fun hs => (by cases hs), fun resp rest hs => by cases hs⟩

/-- The supervisor has read no more than its request. -/
structure Exchange.Parsing (s : Exchange) : Prop where
  limiting : s.server = .limiting → s.taken = []
  reading : s.server = .reading → s.taken.length ≤ wanted s.taken

omit [Codec Response] in
theorem Exchange.Parsing.start (window response : ℕ) (id : Handle) (input : Bytes) :
    (Exchange.start window response id input).Parsing where
  limiting _ := rfl
  reading h := by cases h

omit [Codec Request] in
theorem Exchange.Parsing.keep {s s' : Exchange} (h : s.Parsing) (hm : s.Moves s') : s'.Parsing := by
  have hrequested : ∀ {server : StdinServer}, server.requested = true →
      server ≠ .limiting ∧ server ≠ .reading := by
    intro server hreq
    cases server with
    | limiting | reading => cases hreq
    | _ => exact ⟨by simp, by simp⟩
  cases hm with
  | send | finish | receive | clientReturns => exact ⟨h.limiting, h.reading⟩
  | take n bs up server hu hu' hr hread =>
      obtain ⟨-, hlen, -, -⟩ := Pipe.read_spec hr
      rcases hread with ⟨rfl, hroom⟩ | hreq
      · refine ⟨fun hs => (by cases hs), fun _ => ?_⟩
        apply wanted_append
        rw [hlen]
        exact hroom
      · exact ⟨fun hs => absurd hs (hrequested hreq).1, fun hs => absurd hs (hrequested hreq).2⟩
  | proceed server hu hu' hread =>
      rcases hread with ⟨rfl, hlimit⟩ | hreq
      · refine ⟨fun hs => (by cases hs), fun _ => ?_⟩
        rw [h.limiting hlimit]
        exact Nat.zero_le _
      · exact ⟨fun hs => absurd hs (hrequested hreq).1, fun hs => absurd hs (hrequested hreq).2⟩
  | answer | fails | closed => exact ⟨fun hs => (by cases hs), fun hs => (by cases hs)⟩
  | reply n resp rest down hs hw =>
      have hreq : (if n = rest.length then StdinServer.closing resp
          else StdinServer.replying resp (rest.drop n)).requested = true := by
        split_ifs <;> rfl
      exact ⟨fun hs => absurd hs (hrequested hreq).1, fun hs => absurd hs (hrequested hreq).2⟩

variable {authz : Authz EndpointId} {remote : EndpointId} {window response : ℕ} {id : Handle}
  {input bytes : Bytes} {s s' : Exchange} {resp : Response}
  {l : List (Lts.Tr Exchange ExchangeAction ExchangeEvent)}

theorem upward_run (h : s.Upward window bytes) (hr : Lts.Run (exchange authz remote) s l s') :
    s'.Upward window bytes :=
  (hr.invariant h (fun _ hv hinv => hinv.keep (exchange_moves hv))).1

theorem downward_run (h : s.Downward) (hr : Lts.Run (exchange authz remote) s l s') : s'.Downward :=
  (hr.invariant h (fun _ hv hinv => hinv.keep (exchange_moves hv))).1

/-- **Conservation.**  What the supervisor has read, what is under way and what is still to be
sent are the request and the input, until the supervisor drops the stream. -/
theorem conservation (hr : Lts.Run (exchange authz remote) (.start window response id input) l s)
    (hs : s.server ≠ .returned) :
    s.taken ++ s.up.buffer ++ s.client.rest = stdinBytes id input :=
  (upward_run (.start window response id input) hr).conserved hs

/-- What the supervisor acknowledges was read to its end. -/
theorem acknowledged_taken (hr : Lts.Run (exchange authz remote) (.start window response id input) l s)
    (hs : s.server = .closing .ack) : s.taken = stdinBytes id input := by
  have hup := upward_run (.start window response id input) hr
  obtain ⟨hfin, hbuf⟩ := Pipe.ended_iff.mp (hup.acknowledged [] (by rw [hs]; rfl))
  have hcons := hup.conserved (by simp [hs])
  rw [hup.rest hfin, hbuf, List.append_nil, List.append_nil] at hcons
  exact hcons

theorem parse_total (hr : Lts.Run (exchange authz remote) (.start window response id input) l s)
    (hs : s.server = .reading) (m : Manager) : ∃ r, s.parse authz remote m = some r := by
  have hanswer : ∀ resp : Response, ∃ r, s.answer resp = some r := by
    intro resp
    unfold Exchange.answer
    cases writeMsg resp with
    | ok frame => exact ⟨_, rfl⟩
    | error e => exact ⟨_, rfl⟩
  have hlen : s.taken.length ≤ wanted s.taken :=
    (hr.invariant (I := Exchange.Parsing) (.start window response id input)
      (fun _ hv hinv => hinv.keep (exchange_moves hv))).1.reading hs
  have hcons := conservation hr (by simp [hs])
  rw [List.append_assoc] at hcons
  cases hw : writeMsg (Request.stdinStream id) with
  | error e =>
      have hnil : s.taken = [] := by
        rw [stdinBytes, hw] at hcons
        exact (List.append_eq_nil_iff.mp hcons).1
      have hread : readMsg (α := Request) s.taken = .error "early eof" := by
        rw [hnil]
        rfl
      simp only [Exchange.parse, hread]
      exact hanswer _
  | ok frame =>
      have hpre : s.taken <+: frame := by
        rw [stdinBytes, hw] at hcons
        have hall : s.taken <+: frame ++ input := ⟨_, hcons⟩
        rcases Nat.lt_or_ge frame.length s.taken.length with hlong | hshort
        · -- the whole frame and more would have been read
          obtain ⟨more, hmore⟩ := List.prefix_of_prefix_length_le (List.prefix_append frame input) hall hlong.le
          have hwant := (wanted_header hw (List.prefix_refl frame)).1 rfl
          have hsame : wanted s.taken = wanted frame := by
            rw [← hmore]
            exact wanted_frame hw more
          omega
        · exact List.prefix_of_prefix_length_le hall (List.prefix_append frame input) hshort
      by_cases heq : s.taken = frame
      · have hread : readMsg (α := Request) s.taken = .ok (.stdinStream id, []) := by
          have := readMsg_writeMsg hw []
          rw [List.append_nil] at this
          rw [heq]
          exact this
        simp only [Exchange.parse, hread]
        cases authz.authorize remote (.stdinStream id) with
        | error e => exact hanswer _
        | ok u =>
            dsimp only
            cases m.stdinSlot id with
            | error e => exact hanswer _
            | ok slot => exact ⟨_, rfl⟩
      · have hread : readMsg (α := Request) s.taken = .error "early eof" := by
          have hshort := recvMsg_prefix hw hpre heq
          rw [readMsg_eq]
          cases hrecv : (recvMsg s.taken : Except String Request × Bytes) with
          | mk res rest =>
              rw [hrecv] at hshort
              obtain rfl : res = .error "early eof" := hshort
              rfl
        simp only [Exchange.parse, hread]
        exact hanswer _

/-! ### Reading the response -/

/-- A client that receives reads the whole response and returns it. -/
theorem receive_run (authz : Authz EndpointId) (remote : EndpointId) {frame : Bytes} (hw : writeMsg resp = .ok frame) :
    ∀ (k : ℕ) {s : Exchange} {got : Bytes}, s.down.buffer.length = k → s.client = .receiving got →
      got ++ s.down.buffer = frame →
      ∃ l s', Lts.Run (exchange authz remote) s l s' ∧ s'.client = .returned (.ok resp) := by
  intro k
  induction k with
  | zero =>
      intro s got hk hc hgot
      rw [List.eq_nil_of_length_eq_zero hk, List.append_nil] at hgot
      have hwant := (wanted_header hw (hgot ▸ List.prefix_refl got)).1 hgot
      have hread : readMsg got = .ok (resp, []) := by
        have := readMsg_writeMsg hw []
        rw [List.append_nil] at this
        rw [hgot]
        exact this
      have hstep : exchange authz remote s .result =
          some ({ s with client := .returned (.ok resp) }, [.returned (.ok resp)]) := by
        simp only [exchange, Exchange.clientStep, hc, hwant, if_true, hread, Exchange.clientReturn]
      exact ⟨_, _, Lts.Run.single hstep, rfl⟩
  | succ k ih =>
      intro s got hk hc hgot
      obtain ⟨bs, down, hr⟩ := Pipe.read_of_le (p := s.down) (n := 1) (by omega)
      obtain ⟨hbuf, hlen, -, -⟩ := Pipe.read_spec hr
      have hne : got ≠ frame := by
        intro he
        have := congrArg List.length hgot
        rw [List.length_append, he] at this
        omega
      have hwant := (wanted_header hw ⟨s.down.buffer, hgot⟩).2 hne
      have hstep : exchange authz remote s (.receive 1) =
          some ({ s with client := .receiving (got ++ bs), down := down }, []) := by
        have hroom : 0 < 1 ∧ got.length + 1 ≤ wanted got := ⟨Nat.one_pos, hwant⟩
        simp only [exchange, Exchange.clientStep, hc, hroom, and_self, if_true, hr, Option.map_some]
      have hk' : down.buffer.length = k := by
        have := congrArg List.length hbuf
        rw [List.length_append, hlen] at this
        omega
      obtain ⟨l, s', hrun, hret⟩ := ih (s := { s with client := .receiving (got ++ bs), down := down })
        hk' rfl (by rw [List.append_assoc, hbuf, hgot])
      exact ⟨_, s', Lts.Run.cons hstep hrun, hret⟩

/-- A client with room for the rest of its input gets as far as receiving. -/
theorem send_run (authz : Authz EndpointId) (remote : EndpointId) {rest : Bytes} (hc : s.client = .sending rest) (hopen : s.up.finished = false)
    (hroom : rest.length ≤ s.up.room) : ∃ l s', Lts.Run (exchange authz remote) s l s' ∧
      s'.client = .receiving [] ∧ s'.server = s.server ∧ s'.down = s.down := by
  have hfinish : ∀ {s₁ : Exchange}, s₁.client = .sending [] →
      exchange authz remote s₁ .finish =
        some ({ s₁ with client := .receiving [], up := s₁.up.finish }, []) := by
    intro s₁ hc₁
    simp only [exchange, Exchange.clientStep, hc₁]
  by_cases hne : rest = []
  · rw [hne] at hc
    exact ⟨_, _, Lts.Run.single (hfinish hc), rfl, rfl, rfl⟩
  · obtain ⟨up, hw⟩ := Pipe.write_of_room hopen hroom
    have hpos := List.length_pos_iff.mpr hne
    have hstep : exchange authz remote s (.send rest.length) =
        some ({ s with client := .sending [], up := up }, []) := by
      have hlen : 0 < rest.length ∧ rest.length ≤ rest.length := ⟨hpos, le_rfl⟩
      simp only [exchange, Exchange.clientStep, hc, hlen, and_self, if_true, List.take_length, hw,
        Option.map_some, List.drop_length]
    exact ⟨_, _, Lts.Run.cons hstep (Lts.Run.single (hfinish rfl)), rfl, rfl, rfl⟩

/-- When what is left fits into the window, the client reads the response. -/
theorem return_run (h : s.Upward window bytes) (hdown : s.Downward) (hs : s.server = .closing resp)
    (hret : ∀ r, s.client ≠ .returned r) (hfits : bytes.length ≤ s.taken.length + window) :
    ∃ l s', Lts.Run (exchange authz remote) s l s' ∧ s'.client = .returned (.ok resp) := by
  obtain ⟨frame, hw, hframe⟩ : ∃ frame, writeMsg resp = .ok frame ∧
      s.client.got ++ s.down.buffer ++ [] = frame := by
    rcases hdown.response resp [] (by rw [hs]; rfl) with ⟨r, hr⟩ | hframe
    · exact absurd hr (hret r)
    · exact hframe
  rw [List.append_nil] at hframe
  cases hc : s.client with
  | returned r => exact absurd hc (hret r)
  | receiving got =>
      rw [hc] at hframe
      exact receive_run authz remote hw _ rfl hc hframe
  | sending rest =>
      have hcons := congrArg List.length (h.conserved (by simp [hs]))
      rw [hc] at hframe hcons
      have hroom : rest.length ≤ s.up.room := by
        have hb := s.up.bounded
        have hwin := h.window
        simp only [StdinClient.rest, List.length_append] at hcons
        unfold Pipe.room
        omega
      obtain ⟨l, s₁, hr, hc₁, -, hsame⟩ := send_run authz remote hc (h.isOpen rest hc) hroom
      obtain ⟨l', s', hr', hret'⟩ := receive_run authz remote hw _ rfl hc₁
        (by rw [hsame]; exact hframe)
      exact ⟨_, s', hr.append hr', hret'⟩

/-! ### Nobody is blocked -/

/-- The client has not returned, and neither party can do anything. -/
def Exchange.Blocked (authz : Authz EndpointId) (remote : EndpointId) (s : Exchange) : Prop :=
  (∀ r, s.client ≠ .returned r) ∧ ∀ a, exchange authz remote s a = none

/-- From `s` on, nobody is ever blocked, and a client that has not returned can go on to return
the response. -/
def Exchange.Answerable (authz : Authz EndpointId) (remote : EndpointId) (resp : Response)
    (s : Exchange) : Prop :=
  ∀ l s', Lts.Run (exchange authz remote) s l s' → ¬ s'.Blocked authz remote ∧
    ((∀ r, s'.client ≠ .returned r) → ∃ l' s'', Lts.Run (exchange authz remote) s' l' s'' ∧
      s''.client = .returned (.ok resp))

/-- While the client has not returned, a supervisor that has answered reads nothing more. -/
theorem closing_run (hs : s.server = .closing resp) (hr : Lts.Run (exchange authz remote) s l s') :
    (∃ r, s'.client = .returned r) ∨ (s'.server = .closing resp ∧ s'.taken = s.taken) := by
  refine (hr.invariant (I := fun s' => (∃ r, s'.client = .returned r) ∨
    (s'.server = .closing resp ∧ s'.taken = s.taken)) (.inr ⟨hs, rfl⟩) ?_).1
  intro tr hv hinv
  have hclosing : ∀ {server : StdinServer}, tr.pre.server = server → server ≠ .closing resp →
      ∃ r, tr.pre.client = .returned r := by
    intro server hserver hne
    rcases hinv with hret | ⟨hclose, -⟩
    · exact hret
    · exact absurd (hserver.symm.trans hclose) hne
  have hund : tr.pre.server.undecided = true → ∃ r, tr.pre.client = .returned r := by
    intro hu
    apply hclosing rfl
    intro he
    rw [he] at hu
    cases hu
  have hclient : ∀ {client : StdinClient}, tr.pre.client = client → (∀ r, client ≠ .returned r) →
      tr.pre.server = .closing resp ∧ tr.pre.taken = s.taken := by
    intro client hc hne
    rcases hinv with ⟨r, hret⟩ | hclose
    · exact absurd (hc.symm.trans hret) (hne r)
    · exact hclose
  have hm := exchange_moves hv
  generalize tr.post = s'' at hm
  cases hm with
  | send n rest up hc => exact .inr (hclient hc (by simp))
  | finish hc => exact .inr (hclient hc (by simp))
  | receive n got bs down hc => exact .inr (hclient hc (by simp))
  | clientReturns result => exact .inl ⟨result, rfl⟩
  | take n bs up server hu => exact .inl (hund hu)
  | proceed server hu => exact .inl (hund hu)
  | answer resp' frame hu => exact .inl (hund hu)
  | fails hu => exact .inl (hund hu)
  | reply n resp' rest down hserver => exact .inl (hclosing hserver (by simp))
  | closed result hc => exact .inl ⟨result, hc⟩

/-- A client that has more to send than there is room for is blocked once the room is used up. -/
theorem blocked_of_full (hs : s.server = .closing resp) {rest : Bytes}
    (hc : s.client = .sending rest) (hne : rest ≠ []) (hfull : s.up.room = 0) :
    s.Blocked authz remote := by
  refine ⟨fun r hr => ?_, fun a => ?_⟩
  · rw [hc] at hr
    cases hr
  · cases hstep : exchange authz remote s a with
    | none => rfl
    | some p =>
        obtain ⟨s', evs⟩ := p
        have hm := exchange_moves hstep
        have hund : s.server.undecided = true → False := by
          intro hu
          rw [hs] at hu
          cases hu
        exfalso
        cases hm with
        | send n rest' up hc' h0 hn hw =>
            have htake : rest'.take n ≠ [] := by
              rw [← List.length_pos_iff, List.length_take_of_le hn]
              exact h0
            rw [Pipe.write_full hfull htake] at hw
            cases hw
        | finish hc' =>
            rw [hc] at hc'
            cases hc'
            exact hne rfl
        | receive n got bs down hc' =>
            rw [hc] at hc'
            cases hc'
        | clientReturns result hret =>
            rcases hret with ⟨got, hc'⟩ | hs'
            · rw [hc] at hc'
              cases hc'
            · rw [hs] at hs'
              cases hs'
        | take n bs up server hu => exact hund hu
        | proceed server hu => exact hund hu
        | answer resp' frame hu => exact hund hu
        | fails hu => exact hund hu
        | reply n resp' rest' down hs' =>
            rw [hs] at hs'
            cases hs'
        | closed result hc' =>
            rw [hc] at hc'
            cases hc'

theorem blocked_run (authz : Authz EndpointId) (remote : EndpointId) (h : s.Upward window bytes) (hs : s.server = .closing resp)
    (hlong : s.taken.length + window < bytes.length) :
    ∃ l s', Lts.Run (exchange authz remote) s l s' ∧ s'.Blocked authz remote := by
  have hcons := congrArg List.length (h.conserved (by simp [hs]))
  have hb := s.up.bounded
  have hwin := h.window
  rw [List.length_append, List.length_append] at hcons
  cases hc : s.client with
  | receiving got =>
      rw [hc] at hcons
      simp only [StdinClient.rest, List.length_nil] at hcons
      omega
  | returned r =>
      rw [hc] at hcons
      simp only [StdinClient.rest, List.length_nil] at hcons
      omega
  | sending rest =>
      rw [hc] at hcons
      simp only [StdinClient.rest] at hcons
      have hroom : s.up.room < rest.length := by
        unfold Pipe.room
        omega
      by_cases hfull : s.up.room = 0
      · have hne : rest ≠ [] := List.length_pos_iff.mp (by omega)
        exact ⟨[], s, Lts.Run.nil, blocked_of_full hs hc hne hfull⟩
      · have hlen : (rest.take s.up.room).length = s.up.room := List.length_take_of_le hroom.le
        obtain ⟨up, hw⟩ := Pipe.write_of_room (h.isOpen rest hc) hlen.le
        have hstep : exchange authz remote s (.send s.up.room) =
            some ({ s with client := .sending (rest.drop s.up.room), up := up }, []) := by
          have hn : 0 < s.up.room ∧ s.up.room ≤ rest.length := ⟨Nat.pos_of_ne_zero hfull, hroom.le⟩
          simp only [exchange, Exchange.clientStep, hc, hn, and_self, if_true, hw, Option.map_some]
        refine ⟨_, _, Lts.Run.single hstep, blocked_of_full hs rfl ?_ ?_⟩
        · rw [← List.length_pos_iff, List.length_drop]
          omega
        · obtain ⟨hbuf, hwin', -, -⟩ := Pipe.write_spec hw
          have hbuf := congrArg List.length hbuf
          rw [List.length_append, hlen] at hbuf
          show up.room = 0
          unfold Pipe.room at hbuf hfull ⊢
          omega

/-- **The stdin exchange.**  Once the supervisor has written its response, nobody is ever
blocked and the client can go on to read it, if and only if the request and the input are no
longer than what the supervisor has read of them and the window together. -/
theorem stdin_answered_iff
    (hr : Lts.Run (exchange authz remote) (.start window response id input) l s)
    (hs : s.server = .closing resp) :
    s.Answerable authz remote resp ↔ (stdinBytes id input).length ≤ s.taken.length + window := by
  have hup := upward_run (.start window response id input) hr
  have hdown := downward_run (.start window response id input) hr
  constructor
  · intro hall
    by_contra hlong
    obtain ⟨l', s', hr', hblocked⟩ := blocked_run authz remote hup hs
      (Nat.not_le.mp hlong)
    exact (hall l' s' hr').1 hblocked
  · intro hfits l' s' hr'
    have hreturn : (∀ r, s'.client ≠ .returned r) → ∃ l'' s'',
        Lts.Run (exchange authz remote) s' l'' s'' ∧ s''.client = .returned (.ok resp) := by
      intro hret
      rcases closing_run hs hr' with ⟨r, hr⟩ | ⟨hs', htaken⟩
      · exact absurd hr (hret r)
      · exact return_run (upward_run hup hr') (downward_run hdown hr') hs' hret
          (by rw [htaken]; exact hfits)
    refine ⟨fun hblocked => ?_, hreturn⟩
    obtain ⟨l'', s'', hr'', hc⟩ := hreturn hblocked.1
    cases l'' with
    | nil =>
        rw [hr''.eq_of_nil] at hc
        exact hblocked.1 _ hc
    | cons tr l'' =>
        obtain ⟨hnil, hv, -⟩ := hr''.split (List.nil_append _).symm
        have hstep : exchange authz remote tr.pre tr.act = some (tr.post, tr.evs) := hv
        rw [hnil.eq_of_nil, hblocked.2] at hstep
        cases hstep

end Steps

/-! ### A rate-limited client -/

section RateLimited

attribute [local instance] requestCodec responseCodec

/-- The limiter refuses the connection, and the supervisor writes its response. -/
theorem limited_run (window : ℕ) (input : Bytes) : ∃ l s,
    Lts.Run (exchange ({ openAll := true } : Authz ℕ) 1) (.start window 1024 1 input) l s ∧
      s.server = .closing (.error .rateLimited) ∧ s.taken = [] := by
  have hw : writeMsg (Response.error .rateLimited) = .ok [0, 0, 0, 2, 4, 2] := by decide
  let s₀ := Exchange.start window 1024 1 input
  have hlimit : exchange ({ openAll := true } : Authz ℕ) 1 s₀ (.limit false) =
      some ({ s₀ with server := .replying (.error .rateLimited) [0, 0, 0, 2, 4, 2] }, []) := by
    have hanswer : s₀.answer (.error .rateLimited) =
        some ({ s₀ with server := .replying (.error .rateLimited) [0, 0, 0, 2, 4, 2] }, []) := by
      simp only [Exchange.answer, hw]
    exact hanswer
  obtain ⟨down, hdown⟩ : ∃ down, s₀.down.write [0, 0, 0, 2, 4, 2] = some down :=
    Pipe.write_of_room rfl (show 6 ≤ 1024 by omega)
  have hreply : exchange ({ openAll := true } : Authz ℕ) 1
      { s₀ with server := .replying (.error .rateLimited) [0, 0, 0, 2, 4, 2] } (.reply 6) =
      some ({ s₀ with server := .closing (.error .rateLimited), down := down }, []) := by
    simp [exchange, Exchange.clientStep, Exchange.serverStep, hdown]
  exact ⟨_, _, Lts.Run.cons hlimit (Lts.Run.single hreply), rfl, rfl⟩

theorem length_stdinBytes (input : Bytes) : (stdinBytes 1 input).length = 6 + input.length := by
  have hw : writeMsg (Request.stdinStream 1) = .ok [0, 0, 0, 2, 3, 1] := by decide
  rw [stdinBytes, hw, List.length_append]
  rfl

/-- A short input fits into the window, so that the client gets to read the refusal. -/
theorem stdin_answered_short : ∃ l s,
    Lts.Run (exchange ({ openAll := true } : Authz ℕ) 1) (.start 1250000 1024 1 [104, 105, 10]) l s ∧
      s.Answerable { openAll := true } 1 (.error .rateLimited) := by
  obtain ⟨l, s, hr, hs, htaken⟩ := limited_run 1250000 [104, 105, 10]
  refine ⟨l, s, hr, (stdin_answered_iff hr hs).mpr ?_⟩
  rw [length_stdinBytes, htaken, List.length_nil, List.length_cons, List.length_cons,
    List.length_singleton]
  omega

/-- A longer one leaves both parties waiting for each other. -/
theorem stdin_deadlock : ∃ l s,
    Lts.Run (exchange ({ openAll := true } : Authz ℕ) 1)
      (.start 1250000 1024 1 (List.replicate 1250000 0)) l s ∧
      s.server = .closing (.error .rateLimited) ∧
      ∃ l' s', Lts.Run (exchange ({ openAll := true } : Authz ℕ) 1) s l' s' ∧
        s'.Blocked { openAll := true } 1 := by
  obtain ⟨l, s, hr, hs, htaken⟩ := limited_run 1250000 (List.replicate 1250000 0)
  have hlong : s.taken.length + 1250000 < (stdinBytes 1 (List.replicate 1250000 0)).length := by
    rw [length_stdinBytes, htaken, List.length_nil, List.length_replicate]
    omega
  exact ⟨l, s, hr, hs, blocked_run _ _ (upward_run (.start _ _ _ _) hr) hs hlong⟩

end RateLimited

end MeshSupervisor
