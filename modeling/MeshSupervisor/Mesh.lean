import MeshSupervisor.Client
import MeshSupervisor.Provenance

/-! # Clients and a supervisor on one network

Any number of one-shot calls of `client.rs` against the supervisor of `Supervisor.lean`, step by
step: each call dials, writes its request on the stream it gets and waits for the response, the
supervisor serves the connections, and other programs open streams and write what they like.  The
network is QUIC's: a stream delivers a prefix of what was written to it, and it may be given up at
any point.

* `Answers` says for which reason the supervisor writes a response on a connection
  (`sent_run`).
* `Wired` is what holds between the calls, the streams and the supervisor in every run
  (`wired_run`): a stream has one call at most, what the supervisor reads on it is part of the
  call's request, and what the call reads is what the supervisor wrote there. -/

namespace MeshSupervisor

open Wire (Bytes Codec)

inductive CallStage (ε : Type) where
  /-- `connect_bi` is at this attempt. -/
  | dialing (attempt : ℕ)
  /-- A stream is open. -/
  | opened
  /-- The request is written. -/
  | awaiting
  | ended (result : Except (Client.Error ε) Response)
deriving DecidableEq

structure ClientCall (EndpointId ε : Type) where
  peer : EndpointId
  req : Request
  /-- The connection whose stream the call uses. -/
  conn : Option ℕ
  stage : CallStage ε

/-- The stream of a connection; `up` leads to the supervisor. -/
structure BiStream (EndpointId : Type) where
  peer : EndpointId
  /-- The call that opened it, `none` for another program. -/
  owner : Option ℕ
  up : Bytes
  down : Bytes

structure Net (EndpointId F ε : Type) where
  sup : Supervisor EndpointId F
  calls : ℕ → Option (ClientCall EndpointId ε)
  streams : ℕ → Option (BiStream EndpointId)

inductive NetAction (EndpointId ε : Type) where
  | call (k : ℕ) (peer : EndpointId) (req : Request)
  | attemptFails (k : ℕ) (e : ε)
  /-- The attempt succeeds, on connection `c`. -/
  | opens (k c : ℕ)
  | writes (k : ℕ)
  /-- The write fails after `n` bytes. -/
  | writeFails (k n : ℕ) (e : ε)
  | receives (k : ℕ)
  /-- No response: an error of the transport, or the time is over. -/
  | waitFails (k : ℕ) (e : Option ε)
  /-- Another program of `peer` writes on connection `c`. -/
  | foreign (c : ℕ) (peer : EndpointId) (bytes : Bytes)
  | serve (a : ServiceAction EndpointId)

namespace Net

variable {EndpointId F ε : Type}

def start (w : World) : Net EndpointId F ε := ⟨.new w, fun _ => none, fun _ => none⟩

def setCall (n : Net EndpointId F ε) (k : ℕ) (cc : ClientCall EndpointId ε) : Net EndpointId F ε :=
  { n with calls := Function.update n.calls k (some cc) }

def setStream (n : Net EndpointId F ε) (c : ℕ) (st : BiStream EndpointId) : Net EndpointId F ε :=
  { n with streams := Function.update n.streams c (some st) }

/-- `write_msg` on the stream of connection `c`. -/
def push (n : Net EndpointId F ε) (c : ℕ) (bytes : Bytes) : Net EndpointId F ε :=
  let written := (n.streams c).map fun st => { st with up := st.up ++ bytes }
  { n with streams := Function.update n.streams c written }

@[simp] theorem calls_setCall (n : Net EndpointId F ε) (k k' : ℕ) (cc : ClientCall EndpointId ε) :
    (n.setCall k cc).calls k' = if k' = k then some cc else n.calls k' := Function.update_apply ..

@[simp] theorem streams_setStream (n : Net EndpointId F ε) (c c' : ℕ) (st : BiStream EndpointId) :
    (n.setStream c st).streams c' = if c' = c then some st else n.streams c' :=
  Function.update_apply ..

@[simp] theorem streams_push (n : Net EndpointId F ε) (c c' : ℕ) (bytes : Bytes) :
    (n.push c bytes).streams c' =
      if c' = c then (n.streams c).map fun st => { st with up := st.up ++ bytes }
      else n.streams c' := Function.update_apply ..

attribute [local instance] responseCodec

section

variable [DecidableEq EndpointId]

/-- What an action of the supervisor finds on the network. -/
def delivers (n : Net EndpointId F ε) : ServiceAction EndpointId → Bool
  | .accept c remote _ => (n.streams c).any (fun st => decide (st.peer = remote))
  | .request c remote stream _ =>
      (n.streams c).any (fun st => decide (st.peer = remote) && stream.isPrefixOf st.up)
  | _ => true

/-- What the supervisor wrote reaches its streams. -/
def settle (n : Net EndpointId F ε) (sup : Supervisor EndpointId F)
    (evs : List (ServiceEvent EndpointId)) : Net EndpointId F ε where
  sup := sup
  calls := n.calls
  streams := fun c =>
    (n.streams c).map fun st => { st with down := st.down ++ (writtenTo c evs).flatten }

variable [Codec Record] [Codec Request] [Tokens F]

/-- One step of a client, of another program or of the supervisor. -/
def step (attempts : ℕ) (cfg : RateLimiterConfig F) (authz : Authz EndpointId)
    (n : Net EndpointId F ε) :
    NetAction EndpointId ε → Option (Net EndpointId F ε × List (ServiceEvent EndpointId))
  | .call k peer req =>
      if (n.calls k).isNone && req.isOneShot then
        some (n.setCall k ⟨peer, req, none, .dialing 1⟩, [])
      else none
  | .attemptFails k e =>
      match n.calls k with
      | some ⟨peer, req, conn, .dialing i⟩ =>
          some (n.setCall k ⟨peer, req, conn,
            if i = attempts then .ended (.error (.transport e)) else .dialing (i + 1)⟩, [])
      | _ => none
  | .opens k c =>
      match n.calls k with
      | some ⟨peer, req, _, .dialing _⟩ =>
          if (n.streams c).isNone then
            some ((n.setCall k ⟨peer, req, some c, .opened⟩).setStream c ⟨peer, some k, [], []⟩, [])
          else none
      | _ => none
  | .writes k =>
      match n.calls k with
      | some ⟨peer, req, some c, .opened⟩ =>
          match writeMsg req with
          | .error msg => some (n.setCall k ⟨peer, req, some c, .ended (.error (.frame msg))⟩, [])
          | .ok frame => some ((n.setCall k ⟨peer, req, some c, .awaiting⟩).push c frame, [])
      | _ => none
  | .writeFails k i e =>
      match n.calls k with
      | some ⟨peer, req, some c, .opened⟩ =>
          match writeMsg req with
          | .error _ => none
          | .ok frame =>
              some ((n.setCall k ⟨peer, req, some c, .ended (.error (.transport e))⟩).push c
                (frame.take i), [])
      | _ => none
  | .receives k =>
      match n.calls k with
      | some ⟨peer, req, some c, .awaiting⟩ =>
          match (n.streams c).map (fun st => readMsg st.down) with
          | some (.ok (resp, _)) => some (n.setCall k ⟨peer, req, some c, .ended (.ok resp)⟩, [])
          | _ => none
      | _ => none
  | .waitFails k e =>
      match n.calls k with
      | some ⟨peer, req, some c, .awaiting⟩ =>
          some (n.setCall k ⟨peer, req, some c, .ended (.error
            (match e with
            | some e => .transport e
            | none => .timedOut "response"))⟩, [])
      | _ => none
  | .foreign c peer bytes =>
      match n.streams c with
      | none => some (n.setStream c ⟨peer, none, bytes, []⟩, [])
      | some st =>
          if st.owner.isNone && decide (st.peer = peer) then some (n.push c bytes, []) else none
  | .serve a =>
      if n.delivers a then
        match serve cfg authz n.sup a with
        | some (sup, evs) => some (n.settle sup evs, evs)
        | none => none
      else none

/-- What a step can do. -/
inductive Moves (attempts : ℕ) (cfg : RateLimiterConfig F) (authz : Authz EndpointId)
    (n : Net EndpointId F ε) :
    NetAction EndpointId ε → Net EndpointId F ε → List (ServiceEvent EndpointId) → Prop
  | call {k : ℕ} {peer : EndpointId} {req : Request} : n.calls k = none → req.isOneShot = true →
      Moves attempts cfg authz n (.call k peer req) (n.setCall k ⟨peer, req, none, .dialing 1⟩) []
  | attemptFails {k : ℕ} {e : ε} {peer : EndpointId} {req : Request} {conn : Option ℕ} {i : ℕ} :
      n.calls k = some ⟨peer, req, conn, .dialing i⟩ →
      Moves attempts cfg authz n (.attemptFails k e) (n.setCall k ⟨peer, req, conn,
        if i = attempts then .ended (.error (.transport e)) else .dialing (i + 1)⟩) []
  | opens {k c : ℕ} {peer : EndpointId} {req : Request} {conn : Option ℕ} {i : ℕ} :
      n.calls k = some ⟨peer, req, conn, .dialing i⟩ → n.streams c = none →
      Moves attempts cfg authz n (.opens k c)
        ((n.setCall k ⟨peer, req, some c, .opened⟩).setStream c ⟨peer, some k, [], []⟩) []
  | unframed {k c : ℕ} {peer : EndpointId} {req : Request} {msg : String} :
      n.calls k = some ⟨peer, req, some c, .opened⟩ → writeMsg req = .error msg →
      Moves attempts cfg authz n (.writes k)
        (n.setCall k ⟨peer, req, some c, .ended (.error (.frame msg))⟩) []
  | writes {k c : ℕ} {peer : EndpointId} {req : Request} {frame : Bytes} :
      n.calls k = some ⟨peer, req, some c, .opened⟩ → writeMsg req = .ok frame →
      Moves attempts cfg authz n (.writes k)
        ((n.setCall k ⟨peer, req, some c, .awaiting⟩).push c frame) []
  | writeFails {k i c : ℕ} {e : ε} {peer : EndpointId} {req : Request} {frame : Bytes} :
      n.calls k = some ⟨peer, req, some c, .opened⟩ → writeMsg req = .ok frame →
      Moves attempts cfg authz n (.writeFails k i e)
        ((n.setCall k ⟨peer, req, some c, .ended (.error (.transport e))⟩).push c (frame.take i)) []
  | receives {k c : ℕ} {peer : EndpointId} {req : Request} {st : BiStream EndpointId}
      {resp : Response} {rest : Bytes} :
      n.calls k = some ⟨peer, req, some c, .awaiting⟩ → n.streams c = some st →
      readMsg st.down = .ok (resp, rest) →
      Moves attempts cfg authz n (.receives k) (n.setCall k ⟨peer, req, some c, .ended (.ok resp)⟩) []
  | waitFails {k c : ℕ} {e : Option ε} {peer : EndpointId} {req : Request} :
      n.calls k = some ⟨peer, req, some c, .awaiting⟩ →
      Moves attempts cfg authz n (.waitFails k e) (n.setCall k ⟨peer, req, some c, .ended (.error
        (match e with
        | some e => .transport e
        | none => .timedOut "response"))⟩) []
  | foreignOpens {c : ℕ} {peer : EndpointId} {bytes : Bytes} : n.streams c = none →
      Moves attempts cfg authz n (.foreign c peer bytes) (n.setStream c ⟨peer, none, bytes, []⟩) []
  | foreignWrites {c : ℕ} {peer : EndpointId} {bytes : Bytes} {st : BiStream EndpointId} :
      n.streams c = some st → st.owner = none →
      Moves attempts cfg authz n (.foreign c peer bytes) (n.push c bytes) []
  | serve {a : ServiceAction EndpointId} {sup : Supervisor EndpointId F}
      {evs : List (ServiceEvent EndpointId)} : n.delivers a = true →
      serve cfg authz n.sup a = some (sup, evs) →
      Moves attempts cfg authz n (.serve a) (n.settle sup evs) evs

theorem step_moves {attempts : ℕ} {cfg : RateLimiterConfig F} {authz : Authz EndpointId}
    {n n' : Net EndpointId F ε} {act : NetAction EndpointId ε}
    {evs : List (ServiceEvent EndpointId)} (hs : n.step attempts cfg authz act = some (n', evs)) :
    Moves attempts cfg authz n act n' evs := by
  cases act with
  | call k peer req =>
      simp only [step] at hs
      split_ifs at hs with hnew
      cases hs
      obtain ⟨hk, hone⟩ := Bool.and_eq_true_iff.mp hnew
      exact .call (Option.isNone_iff_eq_none.mp hk) hone
  | attemptFails k e =>
      simp only [step] at hs
      split at hs
      · rename_i hcc
        cases hs
        exact .attemptFails hcc
      · cases hs
  | opens k c =>
      simp only [step] at hs
      split at hs
      · rename_i hcc
        split_ifs at hs with hfree
        cases hs
        exact .opens hcc (Option.isNone_iff_eq_none.mp hfree)
      · cases hs
  | writes k =>
      simp only [step] at hs
      split at hs
      · rename_i hcc
        split at hs
        · rename_i hw
          cases hs
          exact .unframed hcc hw
        · rename_i hw
          cases hs
          exact .writes hcc hw
      · cases hs
  | writeFails k i e =>
      simp only [step] at hs
      split at hs
      · rename_i hcc
        split at hs
        · cases hs
        · rename_i hw
          cases hs
          exact .writeFails hcc hw
      · cases hs
  | receives k =>
      simp only [step] at hs
      split at hs
      · rename_i hcc
        split at hs
        · rename_i hread
          cases hs
          obtain ⟨st, hst, hresp⟩ := Option.map_eq_some_iff.mp hread
          exact .receives hcc hst hresp
        · cases hs
      · cases hs
  | waitFails k e =>
      simp only [step] at hs
      split at hs
      · rename_i hcc
        cases hs
        exact .waitFails hcc
      · cases hs
  | foreign c peer bytes =>
      simp only [step] at hs
      split at hs
      · rename_i hc
        cases hs
        exact .foreignOpens hc
      · rename_i st hst
        split_ifs at hs with hforeign
        cases hs
        exact .foreignWrites hst (Option.isNone_iff_eq_none.mp (Bool.and_eq_true_iff.mp hforeign).1)
  | serve a =>
      simp only [step] at hs
      split_ifs at hs with hd
      split at hs
      · rename_i hserve
        cases hs
        exact .serve hd hserve
      · cases hs

end

end Net

/-! ### Where a response comes from -/

section Answers

variable {EndpointId F : Type} [DecidableEq EndpointId] [Codec Request] [Codec Record]

attribute [local instance] responseCodec

/-- A transition of the supervisor writes this response on connection `c`. -/
inductive Answers (authz : Authz EndpointId) (tr : ServiceTr EndpointId F) (c : ℕ) : Response → Prop
  | refused {r : EndpointId} {now : Instant} : tr.act = .accept c r now →
      tr.post.conns c = some (r, .closed) → Answers authz tr c (.error .rateLimited)
  | late {r : EndpointId} : tr.act = .timeout c r → tr.pre.conns c = some (r, .reading) →
      tr.post.conns c = some (r, .closed) → Answers authz tr c (.error .timeout)
  | piped {r : EndpointId} {result : Except ControlError Unit} : tr.act = .piped c r result →
      tr.pre.conns c = some (r, .piping) → Answers authz tr c (pipedResponse result)
  | atOnce {r : EndpointId} {stream : Bytes} {usage : Handle → Option Usage} {w : World}
      {phase : Phase} {resp : Response} : tr.act = .request c r stream usage →
      receive authz tr.pre.procs c r stream usage = some (w, phase, some resp) →
      Answers authz tr c resp
  | returned {r : EndpointId} {os : Os} {e : Event} {resp : Response} : tr.act = .sched c os →
      tr.pre.conns c = some (r, .dispatched) → .manager e ∈ tr.evs → e.response = some resp →
      Answers authz tr c resp

omit [DecidableEq EndpointId] [Codec Request] [Codec Record] in
theorem mem_reply {c c' : ℕ} {r r' : EndpointId} {resp : Response} {frame : Bytes}
    (h : .sent c r frame ∈ reply c' r' resp) : c = c' ∧ writeMsg resp = .ok frame := by
  unfold reply at h
  cases hw : writeMsg resp with
  | error msg =>
      rw [hw] at h
      simp at h
  | ok frame' =>
      rw [hw] at h
      simp only [List.mem_singleton, ServiceEvent.sent.injEq] at h
      obtain ⟨hc, -, rfl⟩ := h
      exact ⟨hc, rfl⟩

omit [DecidableEq EndpointId] [Codec Request] [Codec Record] in
theorem not_sent_of_manager {c : ℕ} {r : EndpointId} {frame : Bytes} {es : List Event}
    (h : .sent c r frame ∈ (es.map .manager : List (ServiceEvent EndpointId))) : False := by
  simp at h

theorem serve_answers [Tokens F] {cfg : RateLimiterConfig F} {authz : Authz EndpointId}
    {s s' : Supervisor EndpointId F} {a : ServiceAction EndpointId}
    {evs : List (ServiceEvent EndpointId)} (hs : serve cfg authz s a = some (s', evs)) {c : ℕ}
    {r : EndpointId} {frame : Bytes} (h : .sent c r frame ∈ evs) :
    ∃ resp, writeMsg resp = .ok frame ∧ Answers authz ⟨s, a, evs, s'⟩ c resp := by
  have hback : ∀ {b : Action}, s.background b = some (s', evs) → False := by
    intro b hb
    obtain ⟨p, -, he⟩ := Option.map_eq_some_iff.mp hb
    cases he
    exact not_sent_of_manager h
  cases a with
  | accept c' r' now =>
      obtain ⟨-, -, limiter, ⟨rfl, rfl⟩ | ⟨rfl, rfl⟩⟩ := Supervisor.accept_ok hs
      · cases h
      · obtain ⟨rfl, hw⟩ := mem_reply h
        exact ⟨_, hw, .refused rfl (conns_setConn _ _)⟩
  | request c' r' stream usage =>
      obtain ⟨-, w, phase, resp, hrec, rfl, rfl⟩ := Supervisor.request_ok hs
      cases resp with
      | none => cases h
      | some resp =>
          obtain ⟨rfl, hw⟩ := mem_reply h
          exact ⟨resp, hw, .atOnce rfl hrec⟩
  | timeout c' r' =>
      obtain ⟨hc, rfl, rfl⟩ := Supervisor.finish_ok hs
      obtain ⟨rfl, hw⟩ := mem_reply h
      exact ⟨_, hw, .late rfl hc (conns_setConn _ _)⟩
  | piped c' r' result =>
      obtain ⟨hc, rfl, rfl⟩ := Supervisor.finish_ok hs
      obtain ⟨rfl, hw⟩ := mem_reply h
      exact ⟨_, hw, .piped rfl hc⟩
  | sched t os =>
      obtain ⟨w, es, -, ⟨r', resp, hans, rfl, rfl⟩ | ⟨-, rfl, rfl⟩⟩ := sched_cases hs
      · rcases List.mem_append.mp h with h | h
        · exact (not_sent_of_manager h).elim
        · obtain ⟨rfl, hw⟩ := mem_reply h
          have hc := Supervisor.answer_some hans
          unfold Supervisor.answer at hans
          rw [hc] at hans
          obtain ⟨resp', hfind, he⟩ := Option.map_eq_some_iff.mp hans
          cases he
          obtain ⟨e, he, hresp⟩ := List.exists_of_findSome?_eq_some hfind
          exact ⟨resp, hw, .returned rfl hc
            (List.mem_append_left _ (List.mem_map_of_mem he)) hresp⟩
      · exact (not_sent_of_manager h).elim
  | exit n code => exact (hback hs).elim
  | shutdown t =>
      simp only [serve] at hs
      split_ifs at hs
      exact (hback hs).elim

/-- Whatever was written on a connection is a response with a cause. -/
theorem sent_run [Tokens F] {cfg : RateLimiterConfig F} {authz : Authz EndpointId}
    {s s' : Supervisor EndpointId F} {l : List (ServiceTr EndpointId F)}
    (hr : Lts.Run (serve cfg authz) s l s') {c : ℕ} {r : EndpointId} {frame : Bytes}
    (h : .sent c r frame ∈ Lts.events l) :
    ∃ resp, writeMsg resp = .ok frame ∧ ∃ tr ∈ l, tr.Valid (serve cfg authz) ∧ Answers authz tr c resp := by
  obtain ⟨tr, htr, hmem⟩ := List.mem_flatMap.mp h
  obtain ⟨l₁, l₂, -, -, hv, -⟩ := hr.mem_split htr
  obtain ⟨resp, hw, hans⟩ := serve_answers hv hmem
  exact ⟨resp, hw, tr, htr, hv, hans⟩

omit [DecidableEq EndpointId] [Codec Request] [Codec Record] in
theorem mem_writtenTo {c : ℕ} {evs : List (ServiceEvent EndpointId)} {frame : Bytes} :
    frame ∈ writtenTo c evs ↔ ∃ r, .sent c r frame ∈ evs := by
  simp only [writtenTo, List.mem_filterMap]
  constructor
  · rintro ⟨e, he, hf⟩
    cases e with
    | manager e => cases hf
    | sent c' r frame' =>
        simp only [ServiceEvent.frameTo] at hf
        split_ifs at hf with hc
        obtain rfl := Option.some.inj hf
        exact ⟨r, hc ▸ he⟩
  · rintro ⟨r, hmem⟩
    exact ⟨_, hmem, if_pos rfl⟩

omit [Codec Request] [Codec Record] in
/-- What is read from a sequence of frames is the first of them. -/
theorem readMsg_frames {α : Type} [Codec α] {frames : List Bytes} {msg : α} {rest : Bytes}
    (hframes : ∀ f ∈ frames, ∃ m : α, writeMsg m = .ok f)
    (h : readMsg frames.flatten = .ok (msg, rest)) : ∃ f ∈ frames, writeMsg msg = .ok f := by
  cases frames with
  | nil => cases h
  | cons f frames =>
      obtain ⟨m, hm⟩ := hframes f List.mem_cons_self
      rw [List.flatten_cons, readMsg_writeMsg hm] at h
      cases h
      exact ⟨f, List.mem_cons_self, hm⟩

end Answers

/-! ### What holds in every run -/

section Runs

variable {EndpointId F ε : Type} [Codec Request]

attribute [local instance] responseCodec

abbrev NetTr (EndpointId F ε : Type) :=
  Lts.Tr (Net EndpointId F ε) (NetAction EndpointId ε) (ServiceEvent EndpointId)

def serviced (l : List (NetTr EndpointId F ε)) : List (ServiceTr EndpointId F) :=
  l.filterMap fun tr =>
    match tr.act with
    | .serve a => some ⟨tr.pre.sup, a, tr.evs, tr.post.sup⟩
    | _ => none

/-- What a call may have written to its stream. -/
def ClientCall.Uploads (cc : ClientCall EndpointId ε) (up : Bytes) : Prop :=
  up = [] ∨ (∃ frame, writeMsg cc.req = .ok frame ∧ up <+: frame) ∧
    match cc.stage with
    | .dialing _ | .opened => False
    | .awaiting | .ended _ => True

/-- What a call has come to, given the events of the supervisor so far. -/
def ClientCall.Placed (cc : ClientCall EndpointId ε) (evs : List (ServiceEvent EndpointId)) : Prop :=
  match cc.stage with
  | .dialing _ => cc.conn = none
  | .ended (.ok resp) => ∃ c r frame, cc.conn = some c ∧ writeMsg resp = .ok frame ∧
      .sent c r frame ∈ evs
  | _ => True

/-- The calls, the streams and the supervisor fit together. -/
structure Wired [DecidableEq EndpointId] [Codec Record] [Tokens F] (cfg : RateLimiterConfig F)
    (authz : Authz EndpointId) (w₀ : World) (ls : List (ServiceTr EndpointId F))
    (n : Net EndpointId F ε) : Prop where
  run : Lts.Run (serve cfg authz) (Supervisor.new w₀) ls n.sup
  unused : ∀ c, n.streams c = none → n.sup.conns c = none
  down : ∀ c st, n.streams c = some st → st.down = (writtenTo c (Lts.events ls)).flatten
  read : ∀ tr ∈ ls, ∀ c r stream usage, tr.act = .request c r stream usage →
    ∃ st, n.streams c = some st ∧ stream <+: st.up
  oneShot : ∀ k cc, n.calls k = some cc → cc.req.isOneShot = true
  placed : ∀ k cc, n.calls k = some cc → cc.Placed (Lts.events ls)
  conn : ∀ k cc c, n.calls k = some cc → cc.conn = some c →
    ∃ st, n.streams c = some st ∧ st.owner = some k
  owner : ∀ c st k, n.streams c = some st → st.owner = some k →
    ∃ cc, n.calls k = some cc ∧ cc.conn = some c ∧ cc.Uploads st.up

namespace Wired

variable [DecidableEq EndpointId] [Codec Record] [Tokens F] {cfg : RateLimiterConfig F}
  {authz : Authz EndpointId} {w₀ : World} {ls : List (ServiceTr EndpointId F)}
  {n : Net EndpointId F ε}

theorem start : Wired cfg authz w₀ [] (Net.start w₀ : Net EndpointId F ε) := by
  constructor
  · exact .nil
  all_goals simp [Net.start, Supervisor.new]

theorem setCall (h : Wired cfg authz w₀ ls n) {k : ℕ} {cc : ClientCall EndpointId ε}
    (hone : cc.req.isOneShot = true) (hplaced : cc.Placed (Lts.events ls))
    (hconn : ∀ c, cc.conn = some c → ∃ st, n.streams c = some st ∧ st.owner = some k)
    (howner : ∀ c st, n.streams c = some st → st.owner = some k → cc.conn = some c ∧ cc.Uploads st.up) :
    Wired cfg authz w₀ ls (n.setCall k cc) := by
  have hcalls : ∀ k' cc', (n.setCall k cc).calls k' = some cc' →
      (k' = k ∧ cc' = cc) ∨ (k' ≠ k ∧ n.calls k' = some cc') := by
    intro k' cc' hcc
    rw [Net.calls_setCall] at hcc
    split_ifs at hcc with hk
    · exact .inl ⟨hk, (Option.some.inj hcc).symm⟩
    · exact .inr ⟨hk, hcc⟩
  constructor
  · exact h.run
  · exact h.unused
  · exact h.down
  · exact h.read
  · intro k' cc' hcc
    rcases hcalls k' cc' hcc with ⟨-, rfl⟩ | ⟨-, hold⟩
    · exact hone
    · exact h.oneShot k' cc' hold
  · intro k' cc' hcc
    rcases hcalls k' cc' hcc with ⟨-, rfl⟩ | ⟨-, hold⟩
    · exact hplaced
    · exact h.placed k' cc' hold
  · intro k' cc' c hcc hc
    rcases hcalls k' cc' hcc with ⟨rfl, rfl⟩ | ⟨-, hold⟩
    · exact hconn c hc
    · exact h.conn k' cc' c hold hc
  · intro c st k' hst hk'
    by_cases hk : k' = k
    · subst hk
      obtain ⟨hc, hup⟩ := howner c st hst hk'
      exact ⟨cc, by rw [Net.calls_setCall, if_pos rfl], hc, hup⟩
    · obtain ⟨cc', hcc, hrest⟩ := h.owner c st k' hst hk'
      exact ⟨cc', by rw [Net.calls_setCall, if_neg hk, hcc], hrest⟩

theorem push (h : Wired cfg authz w₀ ls n) {c : ℕ} {bytes : Bytes}
    (hup : ∀ st k cc, n.streams c = some st → st.owner = some k → n.calls k = some cc →
      cc.Uploads (st.up ++ bytes)) :
    Wired cfg authz w₀ ls (n.push c bytes) := by
  have hstreams : ∀ c' st', (n.push c bytes).streams c' = some st' →
      ∃ st, n.streams c' = some st ∧ st'.owner = st.owner ∧ st'.down = st.down ∧
        ((c' = c ∧ st'.up = st.up ++ bytes) ∨ st'.up = st.up) := by
    intro c' st' hst
    rw [Net.streams_push] at hst
    split_ifs at hst with hc
    · obtain ⟨st, hold, rfl⟩ := Option.map_eq_some_iff.mp hst
      exact ⟨st, hc ▸ hold, rfl, rfl, .inl ⟨hc, rfl⟩⟩
    · exact ⟨st', hst, rfl, rfl, .inr rfl⟩
  have hkept : ∀ c' st, n.streams c' = some st → ∃ st', (n.push c bytes).streams c' = some st' ∧
      st'.owner = st.owner ∧ st.up <+: st'.up := by
    intro c' st hst
    rw [Net.streams_push]
    split_ifs with hc
    · exact ⟨{ st with up := st.up ++ bytes }, by rw [← hc, hst]; rfl, rfl, List.prefix_append _ _⟩
    · exact ⟨st, hst, rfl, List.prefix_refl _⟩
  constructor
  · exact h.run
  · intro c' hnone
    apply h.unused c'
    cases hst : n.streams c' with
    | none => rfl
    | some st =>
        obtain ⟨st', hst', -⟩ := hkept c' st hst
        rw [hst'] at hnone
        cases hnone
  · intro c' st' hst'
    obtain ⟨st, hst, -, hdown, -⟩ := hstreams c' st' hst'
    rw [hdown]
    exact h.down c' st hst
  · intro tr htr c' r stream usage hact
    obtain ⟨st, hst, hpre⟩ := h.read tr htr c' r stream usage hact
    obtain ⟨st', hst', -, hmore⟩ := hkept c' st hst
    exact ⟨st', hst', hpre.trans hmore⟩
  · exact h.oneShot
  · exact h.placed
  · intro k cc c' hcc hc'
    obtain ⟨st, hst, ho⟩ := h.conn k cc c' hcc hc'
    obtain ⟨st', hst', ho', -⟩ := hkept c' st hst
    exact ⟨st', hst', ho'.trans ho⟩
  · intro c' st' k hst' hk
    obtain ⟨st, hst, ho, -, hcase⟩ := hstreams c' st' hst'
    obtain ⟨cc, hcc, hconn, hupl⟩ := h.owner c' st k hst (ho ▸ hk)
    refine ⟨cc, hcc, hconn, ?_⟩
    rcases hcase with ⟨rfl, heq⟩ | heq
    · rw [heq]
      exact hup st k cc hst (ho ▸ hk) hcc
    · rw [heq]
      exact hupl

theorem silent (h : Wired cfg authz w₀ ls n) {c : ℕ} (hc : n.streams c = none) :
    (writtenTo c (Lts.events ls)).flatten = [] := by
  rw [(unread_run h.run).1 (h.unused c hc)]
  rfl

theorem foreign (h : Wired cfg authz w₀ ls n) {c : ℕ} (hc : n.streams c = none) (peer : EndpointId)
    (bytes : Bytes) : Wired cfg authz w₀ ls (n.setStream c ⟨peer, none, bytes, []⟩) := by
  have hold : ∀ c' st, n.streams c' = some st →
      (n.setStream c ⟨peer, none, bytes, []⟩).streams c' = some st := by
    intro c' st hst
    rw [Net.streams_setStream, if_neg, hst]
    rintro rfl
    rw [hc] at hst
    cases hst
  constructor
  · exact h.run
  · intro c' hnone
    rw [Net.streams_setStream] at hnone
    split_ifs at hnone
    exact h.unused c' hnone
  · intro c' st hst
    rw [Net.streams_setStream] at hst
    split_ifs at hst with heq
    · obtain rfl := Option.some.inj hst
      rw [heq, h.silent hc]
    · exact h.down c' st hst
  · intro tr htr c' r stream usage hact
    obtain ⟨st, hst, hpre⟩ := h.read tr htr c' r stream usage hact
    exact ⟨st, hold c' st hst, hpre⟩
  · exact h.oneShot
  · exact h.placed
  · intro k cc c' hcc hc'
    obtain ⟨st, hst, ho⟩ := h.conn k cc c' hcc hc'
    exact ⟨st, hold c' st hst, ho⟩
  · intro c' st k hst hk
    rw [Net.streams_setStream] at hst
    split_ifs at hst with heq
    · obtain rfl := Option.some.inj hst
      cases hk
    · exact h.owner c' st k hst hk

theorem opens (h : Wired cfg authz w₀ ls n) {k c : ℕ} {cc : ClientCall EndpointId ε}
    (hcc : n.calls k = some cc) (hdial : cc.conn = none) (hc : n.streams c = none) :
    Wired cfg authz w₀ ls
      ((n.setCall k ⟨cc.peer, cc.req, some c, .opened⟩).setStream c ⟨cc.peer, some k, [], []⟩) := by
  -- no stream is the call's before
  have hfree : ∀ c' st, n.streams c' = some st → st.owner ≠ some k := by
    intro c' st hst hk
    obtain ⟨cc', hcc', hconn, -⟩ := h.owner c' st k hst hk
    rw [hcc] at hcc'
    obtain rfl := Option.some.inj hcc'
    rw [hdial] at hconn
    cases hconn
  have hstream : ∀ c' st, (Net.setStream (n.setCall k ⟨cc.peer, cc.req, some c, .opened⟩) c
      ⟨cc.peer, some k, [], []⟩).streams c' = some st →
      (c' = c ∧ st = ⟨cc.peer, some k, [], []⟩) ∨ (c' ≠ c ∧ n.streams c' = some st) := by
    intro c' st hst
    rw [Net.streams_setStream] at hst
    split_ifs at hst with heq
    · exact .inl ⟨heq, (Option.some.inj hst).symm⟩
    · exact .inr ⟨heq, hst⟩
  have hold : ∀ c' st, n.streams c' = some st → (Net.setStream (n.setCall k
      ⟨cc.peer, cc.req, some c, .opened⟩) c ⟨cc.peer, some k, [], []⟩).streams c' = some st := by
    intro c' st hst
    rw [Net.streams_setStream, if_neg]
    · exact hst
    · rintro rfl
      rw [hc] at hst
      cases hst
  have hcalls : ∀ k' cc', (n.setCall k ⟨cc.peer, cc.req, some c, .opened⟩).calls k' = some cc' →
      (k' = k ∧ cc' = ⟨cc.peer, cc.req, some c, .opened⟩) ∨ (k' ≠ k ∧ n.calls k' = some cc') := by
    intro k' cc' hcc'
    rw [Net.calls_setCall] at hcc'
    split_ifs at hcc' with hk
    · exact .inl ⟨hk, (Option.some.inj hcc').symm⟩
    · exact .inr ⟨hk, hcc'⟩
  constructor
  · exact h.run
  · intro c' hnone
    rw [Net.streams_setStream] at hnone
    split_ifs at hnone
    exact h.unused c' hnone
  · intro c' st hst
    rcases hstream c' st hst with ⟨rfl, rfl⟩ | ⟨-, hst⟩
    · exact (h.silent hc).symm
    · exact h.down c' st hst
  · intro tr htr c' r stream usage hact
    obtain ⟨st, hst, hpre⟩ := h.read tr htr c' r stream usage hact
    exact ⟨st, hold c' st hst, hpre⟩
  · intro k' cc' hcc'
    rcases hcalls k' cc' hcc' with ⟨-, rfl⟩ | ⟨-, hcc'⟩
    · exact h.oneShot k cc hcc
    · exact h.oneShot k' cc' hcc'
  · intro k' cc' hcc'
    rcases hcalls k' cc' hcc' with ⟨-, rfl⟩ | ⟨-, hcc'⟩
    · trivial
    · exact h.placed k' cc' hcc'
  · intro k' cc' c' hcc' hc'
    rcases hcalls k' cc' hcc' with ⟨rfl, rfl⟩ | ⟨-, hcc'⟩
    · obtain rfl := Option.some.inj hc'
      exact ⟨_, (Net.streams_setStream _ _ _ _).trans (if_pos rfl), rfl⟩
    · obtain ⟨st, hst, ho⟩ := h.conn k' cc' c' hcc' hc'
      exact ⟨st, hold c' st hst, ho⟩
  · intro c' st k' hst hk
    rcases hstream c' st hst with ⟨rfl, rfl⟩ | ⟨-, hprev⟩
    · obtain rfl := Option.some.inj hk
      exact ⟨_, (Net.calls_setCall _ _ _ _).trans (if_pos rfl), rfl, .inl rfl⟩
    · obtain ⟨cc', hcc', hrest⟩ := h.owner c' st k' hprev hk
      refine ⟨cc', ?_, hrest⟩
      show (n.setCall k ⟨cc.peer, cc.req, some c, .opened⟩).calls k' = some cc'
      rw [Net.calls_setCall, if_neg, hcc']
      rintro rfl
      exact hfree c' st hprev hk

theorem unused_serve (h : Wired cfg authz w₀ ls n) {a : ServiceAction EndpointId}
    {sup : Supervisor EndpointId F} {evs : List (ServiceEvent EndpointId)}
    (hd : n.delivers a = true) (hs : serve cfg authz n.sup a = some (sup, evs)) {c : ℕ}
    (hc : n.streams c = none) : sup.conns c = none := by
  have hnone := h.unused c hc
  by_cases hslot : a.slot = some c
  · cases a with
    | accept c' r now | request c' r stream usage =>
        cases hslot
        simp only [Net.delivers, hc, Option.any_none] at hd
        cases hd
    | timeout c' r | piped c' r result =>
        cases hslot
        have hconn := (Supervisor.finish_ok hs).1
        rw [hnone] at hconn
        cases hconn
    | sched t os =>
        cases hslot
        obtain ⟨w, es, -, ⟨r, resp, hans, -⟩ | ⟨-, rfl, -⟩⟩ := sched_cases hs
        · have hconn := Supervisor.answer_some hans
          rw [hnone] at hconn
          cases hconn
        · exact hnone
    | exit m code => cases hslot
    | shutdown t =>
        cases hslot
        simp only [serve] at hs
        split_ifs at hs
        obtain ⟨p, -, he⟩ := Option.map_eq_some_iff.mp hs
        cases he
        exact hnone
  · exact (serve_other hs hslot).1.trans hnone

theorem settle (h : Wired cfg authz w₀ ls n) {a : ServiceAction EndpointId}
    {sup : Supervisor EndpointId F} {evs : List (ServiceEvent EndpointId)}
    (hd : n.delivers a = true) (hs : serve cfg authz n.sup a = some (sup, evs)) :
    Wired cfg authz w₀ (ls ++ [⟨n.sup, a, evs, sup⟩]) (n.settle sup evs) := by
  have hevents : Lts.events (ls ++ [⟨n.sup, a, evs, sup⟩]) = Lts.events ls ++ evs := by
    simp
  have hstream : ∀ c st', (n.settle sup evs).streams c = some st' → ∃ st, n.streams c = some st ∧
      st' = { st with down := st.down ++ (writtenTo c evs).flatten } := by
    intro c st' hst
    obtain ⟨st, hold, rfl⟩ := Option.map_eq_some_iff.mp hst
    exact ⟨st, hold, rfl⟩
  have hkept : ∀ c st, n.streams c = some st → (n.settle sup evs).streams c =
      some { st with down := st.down ++ (writtenTo c evs).flatten } := by
    intro c st hst
    show (n.streams c).map _ = _
    rw [hst]
    rfl
  constructor
  · exact h.run.snoc hs
  · intro c hnone
    exact h.unused_serve hd hs (Option.map_eq_none_iff.mp hnone)
  · intro c st' hst
    obtain ⟨st, hold, rfl⟩ := hstream c st' hst
    rw [hevents, writtenTo_append, List.flatten_append, ← h.down c st hold]
  · intro tr htr c r stream usage hact
    rcases List.mem_append.mp htr with htr | htr
    · obtain ⟨st, hst, hpre⟩ := h.read tr htr c r stream usage hact
      exact ⟨_, hkept c st hst, hpre⟩
    · obtain rfl := List.mem_singleton.mp htr
      obtain rfl : a = .request c r stream usage := hact
      obtain ⟨st, hst, hpre⟩ := (Option.any_eq_true _ _).mp hd
      exact ⟨_, hkept c st hst, List.isPrefixOf_iff_prefix.mp (Bool.and_eq_true_iff.mp hpre).2⟩
  · exact h.oneShot
  · intro k cc hcc
    have hold := h.placed k cc hcc
    unfold ClientCall.Placed at hold ⊢
    rw [hevents]
    split at hold
    · exact hold
    · obtain ⟨c, r, frame, hc, hw, hmem⟩ := hold
      exact ⟨c, r, frame, hc, hw, List.mem_append_left _ hmem⟩
    · trivial
  · intro k cc c hcc hc
    obtain ⟨st, hst, ho⟩ := h.conn k cc c hcc hc
    exact ⟨_, hkept c st hst, ho⟩
  · intro c st' k hst' hk
    obtain ⟨st, hst, rfl⟩ := hstream c st' hst'
    exact h.owner c st k hst hk

/-- What a call reads is a response that was written on its connection. -/
theorem received (h : Wired cfg authz w₀ ls n) {c : ℕ} {st : BiStream EndpointId} {resp : Response}
    {rest : Bytes} (hst : n.streams c = some st) (hread : readMsg st.down = .ok (resp, rest)) :
    ∃ r frame, writeMsg resp = .ok frame ∧ .sent c r frame ∈ Lts.events ls := by
  rw [h.down c st hst] at hread
  have hframes : ∀ f ∈ writtenTo c (Lts.events ls), ∃ m : Response, writeMsg m = .ok f := by
    intro f hf
    obtain ⟨r, hmem⟩ := mem_writtenTo.mp hf
    obtain ⟨m, hm, -⟩ := sent_run h.run hmem
    exact ⟨m, hm⟩
  obtain ⟨frame, hf, hw⟩ := readMsg_frames hframes hread
  obtain ⟨r, hmem⟩ := mem_writtenTo.mp hf
  exact ⟨r, frame, hw, hmem⟩

theorem goOn (h : Wired cfg authz w₀ ls n) {k c : ℕ} {cc : ClientCall EndpointId ε}
    (hcc : n.calls k = some cc) (hc : cc.conn = some c) {stage : CallStage ε}
    (hplaced : ClientCall.Placed ⟨cc.peer, cc.req, some c, stage⟩ (Lts.events ls))
    (hup : ∀ up, cc.Uploads up → ClientCall.Uploads ⟨cc.peer, cc.req, some c, stage⟩ up) :
    Wired cfg authz w₀ ls (n.setCall k ⟨cc.peer, cc.req, some c, stage⟩) := by
  have hone : (⟨cc.peer, cc.req, some c, stage⟩ : ClientCall EndpointId ε).req.isOneShot = true :=
    h.oneShot k cc hcc
  apply h.setCall hone hplaced
  · intro c' hc'
    exact h.conn k cc c' hcc (hc.trans hc')
  · intro c' st hst hk
    obtain ⟨cc', hcc', hconn, hupl⟩ := h.owner c' st k hst hk
    rw [hcc] at hcc'
    obtain rfl := Option.some.inj hcc'
    exact ⟨hc.symm.trans hconn, hup _ hupl⟩

theorem uploads (h : Wired cfg authz w₀ ls n) {k c : ℕ} {cc : ClientCall EndpointId ε}
    (hcc : n.calls k = some cc) (hc : cc.conn = some c) (hopen : cc.stage = .opened)
    {stage : CallStage ε} (hstage : stage = .awaiting ∨ ∃ e, stage = .ended (.error e))
    {frame bytes : Bytes} (hframe : writeMsg cc.req = .ok frame) (hpre : bytes <+: frame) :
    Wired cfg authz w₀ ls ((n.setCall k ⟨cc.peer, cc.req, some c, stage⟩).push c bytes) := by
  have hempty : ∀ {up}, cc.Uploads up → up = [] := by
    rintro up (rfl | ⟨-, hfalse⟩)
    · rfl
    · rw [hopen] at hfalse
      exact hfalse.elim
  have hgo : Wired cfg authz w₀ ls (n.setCall k ⟨cc.peer, cc.req, some c, stage⟩) := by
    apply h.goOn hcc hc
    · rcases hstage with rfl | ⟨e, rfl⟩
      · trivial
      · trivial
    · intro up hup
      exact .inl (hempty hup)
  apply hgo.push
  intro st k' cc' hst hk hcc'
  obtain ⟨st', hst', ho⟩ := h.conn k cc c hcc hc
  have hsame : n.streams c = some st := hst
  rw [hsame] at hst'
  obtain rfl := Option.some.inj hst'
  rw [hk] at ho
  obtain rfl := Option.some.inj ho
  rw [Net.calls_setCall, if_pos rfl] at hcc'
  obtain rfl := Option.some.inj hcc'
  obtain ⟨cc'', hcc'', -, hup⟩ := h.owner c st k' hsame hk
  rw [hcc] at hcc''
  obtain rfl := Option.some.inj hcc''
  rw [hempty hup, List.nil_append]
  refine .inr ⟨⟨frame, hframe, hpre⟩, ?_⟩
  rcases hstage with rfl | ⟨e, rfl⟩
  · trivial
  · trivial

theorem step {attempts : ℕ} {act : NetAction EndpointId ε} {n' : Net EndpointId F ε}
    {evs : List (ServiceEvent EndpointId)} (h : Wired cfg authz w₀ ls n)
    (hs : n.step attempts cfg authz act = some (n', evs)) :
    Wired cfg authz w₀ (ls ++ serviced [⟨n, act, evs, n'⟩]) n' := by
  -- a step of a client or of another program is no transition of the supervisor
  have hclient : ∀ {m : Net EndpointId F ε}, Wired cfg authz w₀ ls m →
      Wired cfg authz w₀ (ls ++ []) m := by
    intro m hm
    rw [List.append_nil]
    exact hm
  cases Net.step_moves hs with
  | serve hd hserve => exact h.settle hd hserve
  | call hnew hone =>
      apply hclient
      refine h.setCall hone rfl (fun c hc => by cases hc) ?_
      intro c st hst ho
      obtain ⟨cc, hcc, -⟩ := h.owner c st _ hst ho
      rw [hcc] at hnew
      cases hnew
  | @attemptFails k e peer req conn i hcc =>
      have hone : req.isOneShot = true := h.oneShot k _ hcc
      have hconn : conn = none := h.placed k _ hcc
      subst hconn
      apply hclient
      refine h.setCall hone ?_ (fun c hc => by cases hc) ?_
      · unfold ClientCall.Placed
        split_ifs
        · trivial
        · rfl
      · intro c st hst ho
        obtain ⟨cc, hcc', hc, -⟩ := h.owner c st k hst ho
        rw [hcc] at hcc'
        obtain rfl := Option.some.inj hcc'
        cases hc
  | opens hcc hfree => exact hclient (h.opens hcc (h.placed _ _ hcc) hfree)
  | unframed hcc hw =>
      apply hclient
      refine h.goOn hcc rfl trivial ?_
      rintro up (rfl | ⟨-, hfalse⟩)
      · exact .inl rfl
      · exact hfalse.elim
  | writes hcc hw => exact hclient (h.uploads hcc rfl rfl (.inl rfl) hw (List.prefix_refl _))
  | writeFails hcc hw =>
      exact hclient (h.uploads hcc rfl rfl (.inr ⟨_, rfl⟩) hw (List.take_prefix _ _))
  | receives hcc hst hresp =>
      obtain ⟨r, frame, hw, hmem⟩ := h.received hst hresp
      exact hclient (h.goOn hcc rfl ⟨_, r, frame, rfl, hw, hmem⟩ fun up hup => hup)
  | waitFails hcc => exact hclient (h.goOn hcc rfl trivial fun up hup => hup)
  | foreignOpens hc => exact hclient (h.foreign hc _ _)
  | foreignWrites hst hforeign =>
      apply hclient
      apply h.push
      intro st' k cc hst' hk
      rw [hst] at hst'
      obtain rfl := Option.some.inj hst'
      rw [hk] at hforeign
      cases hforeign

end Wired

/-- In every run the calls, the streams and the supervisor fit together. -/
theorem wired_run [DecidableEq EndpointId] [Codec Record] [Tokens F] {attempts : ℕ}
    {cfg : RateLimiterConfig F} {authz : Authz EndpointId} {w₀ : World}
    {l : List (NetTr EndpointId F ε)} {n : Net EndpointId F ε}
    (hr : Lts.Run (Net.step attempts cfg authz) (Net.start w₀) l n) :
    Wired cfg authz w₀ (serviced l) n := by
  induction hr with
  | nil => exact .start
  | snoc hr hs ih =>
      rw [serviced, List.filterMap_append]
      exact ih.step hs

end Runs

/-- A call spawns a process, at its second attempt, while a stranger writes nonsense. -/
def spawnCall : List (NetAction ℕ String) :=
  [.call 0 1 (.spawn { cmd := "a" }), .foreign 1 3 [0, 0, 0, 9], .attemptFails 0 "refused",
    .opens 0 0, .serve (.accept 1 3 0), .serve (.accept 0 1 100), .writes 0,
    .serve (.request 0 1 (frameOf (.spawn { cmd := "a" })) (fun _ => none)),
    .serve (.request 1 3 [0, 0, 0, 9] (fun _ => none)), .serve (.sched 0 {}),
    .serve (.sched 0 { spawn := some 100 }), .serve (.sched 0 {}), .serve (.sched 0 {}),
    .serve (.sched 0 {}), .receives 0]

theorem spawnCall_run : ∃ l n cc,
    Lts.Run (@Net.step _ ℚ String _ recordCodec requestCodec _ (ClientConfig.fromCli (F := ℚ) {}).attempts
      threeBuckets twoPeers) (Net.start (World.start .new)) l n ∧ n.calls 0 = some cc ∧
      cc.req = .spawn { cmd := "a" } ∧ cc.stage = .ended (.ok (.spawned 2 100)) := by
  obtain ⟨l, n, hr, hp⟩ := Lts.run_of_exec
    (@Net.step _ ℚ String _ recordCodec requestCodec _ (ClientConfig.fromCli (F := ℚ) {}).attempts
      threeBuckets twoPeers) (Net.start (World.start .new)) spawnCall
    (fun p => (p.2.calls 0).any fun cc : ClientCall ℕ String =>
      decide (cc.req = .spawn { cmd := "a" } ∧ cc.stage = .ended (.ok (.spawned 2 100))))
    (by decide +kernel)
  obtain ⟨cc, hcc, hend⟩ := (Option.any_eq_true _ _).mp hp
  exact ⟨l, n, cc, hr, hcc, of_decide_eq_true hend⟩

end MeshSupervisor
