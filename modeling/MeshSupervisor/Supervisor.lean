import Mathlib.Data.Finset.Basic
import MeshSupervisor.Frame
import MeshSupervisor.RateLimit
import MeshSupervisor.Tasks

/-! # The control plane

`Supervisor::accept` of `supervisor.rs` around the process manager of `Tasks.lean`.  A
connection goes through `accept` (the limiter's decision), then either a `request` (the
bytes of its stream are parsed, authorized and dispatched) or a `timeout`; all connections,
the operations they have called, the background tasks and the exits of children interleave
step by step.  A connection has a number, and the operation it calls takes the task slot of
that number.

`handle_readOnly` with `Authz.authorize_ok`: a request of a peer outside `control` leaves the
manager alone. -/

namespace MeshSupervisor

open Wire (Bytes Codec)

/-! ### Authorization -/

/-- Authorization policy. -/
structure Authz (EndpointId : Type) where
  /-- The source's `open`: everyone has full control. -/
  openAll : Bool := false
  control : Finset EndpointId := ∅
  read : Finset EndpointId := ∅

section Authorize

variable {EndpointId : Type} [DecidableEq EndpointId]

/-- `control` ids do anything, `read` ids do read-only requests, everyone else is denied. -/
def Authz.authorize (a : Authz EndpointId) (remote : EndpointId) (req : Request) :
    Except ControlError Unit :=
  if a.openAll || decide (remote ∈ a.control) then .ok ()
  else if req.isReadOnly && decide (remote ∈ a.read) then .ok ()
  else .error .denied

/-- Outside `control` only read-only requests are authorized. -/
theorem Authz.authorize_ok {a : Authz EndpointId} (hclosed : a.openAll = false)
    {remote : EndpointId} (hr : remote ∉ a.control) {req : Request}
    (h : a.authorize remote req = .ok ()) : req.isReadOnly = true := by
  unfold authorize at h
  rw [hclosed, decide_eq_false hr] at h
  by_cases hread : req.isReadOnly && decide (remote ∈ a.read)
  · exact (Bool.and_eq_true_iff.mp hread).1
  · simp only [Bool.or_self, Bool.false_eq_true, if_false, hread] at h
    cases h

end Authorize

/-! ### Connections -/

/-- How far `accept` is with a connection. -/
inductive Phase where
  /-- Admitted; waiting for the request. -/
  | reading
  /-- The request was dispatched to an operation that has not returned. -/
  | dispatched
  /-- `Subscribe`: acknowledged, stdout follows. -/
  | streaming
  /-- `StdinStream`: the stream is being copied into the child. -/
  | piping
  | closed
deriving DecidableEq

/-- The supervisor: the process manager with its tasks, the limiter's buckets, and the
connections by number. -/
structure Supervisor (EndpointId F : Type) where
  procs : World
  limiter : Buckets EndpointId F
  conns : ℕ → Option (EndpointId × Phase)

def Supervisor.new {EndpointId F : Type} (procs : World) : Supervisor EndpointId F :=
  ⟨procs, ∅, fun _ => none⟩

/-- A choice of a client, of the environment or of the scheduler. -/
inductive ServiceAction (EndpointId : Type) where
  /-- Connection `c` of peer `remote` is accepted at time `now`. -/
  | accept (c : ℕ) (remote : EndpointId) (now : Instant)
  /-- The stream of `c` carries `stream`; `usage` are the cgroup counters at that time. -/
  | request (c : ℕ) (remote : EndpointId) (stream : Bytes) (usage : Handle → Option Usage)
  /-- The request of `c` did not come in time. -/
  | timeout (c : ℕ) (remote : EndpointId)
  /-- The copy into a child's stdin ends with this result. -/
  | piped (c : ℕ) (remote : EndpointId) (result : Except ControlError Unit)
  | sched (t : ℕ) (os : Os)
  | exit (n : LaunchId) (code : Option ℤ)
  /-- `Router::shutdown` calls `kill_all` in slot `t`. -/
  | shutdown (t : ℕ)

def ServiceAction.peer {EndpointId : Type} : ServiceAction EndpointId → Option EndpointId
  | .accept _ remote _ | .request _ remote _ _ | .timeout _ remote | .piped _ remote _ => some remote
  | .sched _ _ | .exit _ _ | .shutdown _ => none

/-- What is seen of the supervisor: the frames it sends, and what its manager does. -/
inductive ServiceEvent (EndpointId : Type) where
  | sent (c : ℕ) (remote : EndpointId) (frame : Bytes)
  | manager (e : Event)

/-- What the caller of an operation answers when it returns. -/
def Event.response : Event → Option Response
  | .spawned id pid => some (.spawned id pid)
  | .spawnFailed _ => some (.error (.spawnFailed "could not start process"))
  | .stopped _ (.ok ()) | .signalled _ _ (.ok ()) | .forgotten _ (.ok ()) => some .ack
  | .stopped _ (.error e) | .signalled _ _ (.error e) | .forgotten _ (.error e) => some (.error e)
  | _ => none

namespace Supervisor

variable {EndpointId F : Type}

/-- Put connection `c` into a phase. -/
def setConn (s : Supervisor EndpointId F) (c : ℕ) (remote : EndpointId) (phase : Phase) :
    Supervisor EndpointId F :=
  { s with conns := Function.update s.conns c (some (remote, phase)) }

/-- The answer that these events of task `t` call for, when its connection waits for one. -/
def answer (s : Supervisor EndpointId F) (t : ℕ) (evs : List Event) :
    Option (EndpointId × Response) :=
  match s.conns t with
  | some (remote, .dispatched) => (evs.findSome? Event.response).map (remote, ·)
  | _ => none

theorem answer_some {s : Supervisor EndpointId F} {t : ℕ} {evs : List Event} {remote : EndpointId}
    {resp : Response} (h : s.answer t evs = some (remote, resp)) :
    s.conns t = some (remote, .dispatched) := by
  unfold answer at h
  cases hc : s.conns t with
  | none =>
      rw [hc] at h
      cases h
  | some x =>
      obtain ⟨p, phase⟩ := x
      rw [hc] at h
      cases phase with
      | dispatched =>
          obtain ⟨r, -, he⟩ := Option.map_eq_some_iff.mp h
          rw [(Prod.mk.inj he).1]
      | reading => cases h
      | streaming => cases h
      | piping => cases h
      | closed => cases h

end Supervisor

/-! ### Requests -/

section Serve

variable [Codec Record]

/-- An operation is called in the connection's slot; its answer follows when it returns. -/
def callFor (w : World) (c : ℕ) (op : Call) : Option (World × Phase × Option Response) :=
  (step w (.call c op)).map (fun p => (p.1, .dispatched, none))

/-- One authorized request: the manager, the connection's phase and the answer, if there is
one already. -/
def dispatch (w : World) (c : ℕ) (usage : Handle → Option Usage) :
    Request → Option (World × Phase × Option Response)
  | .spawn spec => callFor w c (.spawn spec)
  | .query id =>
      match w.mgr.query usage id with
      | .ok info => some (w, .closed, some (.status info))
      | .error e => some (w, .closed, some (.error e))
  | .signal id sig => callFor w c (.signal id sig)
  | .stop id => callFor w c (.stop id)
  | .forget id => callFor w c (.forget id)
  | .list => some (w, .closed, some (.list (w.mgr.snapshot usage)))
  -- `unreachable!`: the two streams are handled before
  | .subscribe _ => none
  | .stdinStream _ => none

/-- `accept` after authorization: the two streams, and everything else. -/
def handle (w : World) (c : ℕ) (usage : Handle → Option Usage) (req : Request) :
    Option (World × Phase × Option Response) :=
  match req with
  | .subscribe id =>
      match w.mgr.subscribe id with
      | .ok _ => some (w, .streaming, some .ack)
      | .error e => some (w, .closed, some (.error e))
  | .stdinStream id =>
      match w.mgr.stdinSlot id with
      | .ok _ => some (w, .piping, none)
      | .error e => some (w, .closed, some (.error e))
  | req => dispatch w c usage req

theorem handle_readOnly {w w' : World} {c : ℕ} {usage : Handle → Option Usage} {req : Request}
    {phase : Phase} {resp : Option Response} (hro : req.isReadOnly = true)
    (h : handle w c usage req = some (w', phase, resp)) : w' = w := by
  have hkeep : ∀ (phase' : Phase) (resp' : Option Response),
      some (w, phase', resp') = some (w', phase, resp) → w' = w := by
    intro phase' resp' he
    exact (Prod.mk.inj (Option.some.inj he)).1.symm
  cases req with
  | subscribe id =>
      cases hs : w.mgr.subscribe id with
      | ok _ => 
          simp only [handle, hs] at h
          exact hkeep _ _ h
      | error e =>
          simp only [handle, hs] at h
          exact hkeep _ _ h
  | query id =>
      cases hq : w.mgr.query usage id with
      | ok info =>
          simp only [handle, dispatch, hq] at h
          exact hkeep _ _ h
      | error e =>
          simp only [handle, dispatch, hq] at h
          exact hkeep _ _ h
  | list => exact hkeep _ _ h
  | spawn spec => cases hro
  | signal id sig => cases hro
  | stop id => cases hro
  | stdinStream id => cases hro
  | forget id => cases hro

variable {EndpointId F : Type} [DecidableEq EndpointId] [Codec Request] [Codec Response] [Tokens F]

/-- `write_msg` of a response; a response that does not fit into a frame is not sent. -/
def reply (c : ℕ) (remote : EndpointId) (resp : Response) : List (ServiceEvent EndpointId) :=
  match writeMsg resp with
  | .ok frame => [.sent c remote frame]
  | .error _ => []

/-- What becomes of a request: parsed, authorized, then handled. -/
def receive (authz : Authz EndpointId) (w : World) (c : ℕ) (remote : EndpointId) (stream : Bytes)
    (usage : Handle → Option Usage) : Option (World × Phase × Option Response) :=
  match readMsg stream with
  | .error _ => some (w, .closed, some (.error (.badRequest "malformed request")))
  | .ok (req, _) =>
      match authz.authorize remote req with
      | .error e => some (w, .closed, some (.error e))
      | .ok () => handle w c usage req

/-! ### One step of the supervisor -/

/-- What a step leads to: the supervisor, and what is seen of it. -/
abbrev Served (EndpointId F : Type) := Supervisor EndpointId F × List (ServiceEvent EndpointId)

namespace Supervisor

/-- A new connection: the limiter decides, and a refusal is answered at once. -/
def accept (cfg : RateLimiterConfig F) (s : Supervisor EndpointId F) (c : ℕ) (remote : EndpointId)
    (now : Instant) : Option (Served EndpointId F) :=
  if (s.conns c).isNone && (s.procs.tasks c).isNone then
    match cfg.allow s.limiter remote now with
    | (limiter, true) => some ({ s with limiter := limiter }.setConn c remote .reading, [])
    | (limiter, false) =>
        some ({ s with limiter := limiter }.setConn c remote .closed,
          reply c remote (.error .rateLimited))
  else none

def request (authz : Authz EndpointId) (s : Supervisor EndpointId F) (c : ℕ) (remote : EndpointId)
    (stream : Bytes) (usage : Handle → Option Usage) : Option (Served EndpointId F) :=
  if s.conns c = some (remote, .reading) then
    match receive authz s.procs c remote stream usage with
    | none => none
    | some (procs, phase, resp) =>
        some ({ s with procs := procs }.setConn c remote phase, resp.elim [] (reply c remote))
  else none

def finish (s : Supervisor EndpointId F) (c : ℕ) (remote : EndpointId) (phase : Phase)
    (resp : Response) : Option (Served EndpointId F) :=
  if s.conns c = some (remote, phase) then
    some (s.setConn c remote .closed, reply c remote resp)
  else none

/-- A step of task `t`, and the answer to its connection when the operation returns. -/
def sched (s : Supervisor EndpointId F) (t : ℕ) (os : Os) : Option (Served EndpointId F) :=
  match step s.procs (.sched t os) with
  | none => none
  | some (procs, evs) =>
      match s.answer t evs with
      | some (remote, resp) =>
          some ({ s with procs := procs }.setConn t remote .closed,
            evs.map .manager ++ reply t remote resp)
      | none => some ({ s with procs := procs }, evs.map .manager)

/-- A step of the manager that answers nobody. -/
def background (s : Supervisor EndpointId F) (a : Action) : Option (Served EndpointId F) :=
  (step s.procs a).map (fun p => ({ s with procs := p.1 }, p.2.map .manager))

end Supervisor

/-- What the copy into a child's stdin is answered with. -/
def pipedResponse : Except ControlError Unit → Response
  | .ok () => .ack
  | .error e => .error e

def serve (cfg : RateLimiterConfig F) (authz : Authz EndpointId) (s : Supervisor EndpointId F) :
    ServiceAction EndpointId → Option (Served EndpointId F)
  | .accept c remote now => s.accept cfg c remote now
  | .request c remote stream usage => s.request authz c remote stream usage
  | .timeout c remote => s.finish c remote .reading (.error .timeout)
  | .piped c remote result => s.finish c remote .piping (pipedResponse result)
  | .sched t os => s.sched t os
  | .exit n code => s.background (.exit n code)
  | .shutdown t => if (s.conns t).isNone then s.background (.call t .killAll) else none

/-! ### What a step leads to -/

namespace Supervisor

variable {s s' : Supervisor EndpointId F} {evs : List (ServiceEvent EndpointId)} {c : ℕ}
  {remote : EndpointId}

omit [Codec Record] [Codec Request] in
theorem accept_ok {cfg : RateLimiterConfig F} {now : Instant}
    (h : s.accept cfg c remote now = some (s', evs)) :
    s.conns c = none ∧ s.procs.tasks c = none ∧ ∃ limiter,
      (s' = { s with limiter := limiter }.setConn c remote .reading ∧ evs = []) ∨
        (s' = { s with limiter := limiter }.setConn c remote .closed ∧
          evs = reply c remote (.error .rateLimited)) := by
  unfold accept at h
  split_ifs at h with hfree
  obtain ⟨hc, ht⟩ := Bool.and_eq_true_iff.mp hfree
  refine ⟨Option.isNone_iff_eq_none.mp hc, Option.isNone_iff_eq_none.mp ht, ?_⟩
  cases ha : cfg.allow s.limiter remote now with
  | mk limiter ok =>
      rw [ha] at h
      cases ok with
      | true =>
          obtain ⟨rfl, rfl⟩ := Prod.mk.inj (Option.some.inj h)
          exact ⟨limiter, .inl ⟨rfl, rfl⟩⟩
      | false =>
          obtain ⟨rfl, rfl⟩ := Prod.mk.inj (Option.some.inj h)
          exact ⟨limiter, .inr ⟨rfl, rfl⟩⟩

omit [Tokens F] in
theorem request_ok {authz : Authz EndpointId} {stream : Bytes} {usage : Handle → Option Usage}
    (h : s.request authz c remote stream usage = some (s', evs)) :
    s.conns c = some (remote, .reading) ∧ ∃ procs phase resp,
      receive authz s.procs c remote stream usage = some (procs, phase, resp) ∧
      s' = { s with procs := procs }.setConn c remote phase ∧ evs = resp.elim [] (reply c remote) := by
  unfold request at h
  split_ifs at h with hc
  cases hrec : receive authz s.procs c remote stream usage with
  | none =>
      rw [hrec] at h
      cases h
  | some p =>
      obtain ⟨procs, phase, resp⟩ := p
      rw [hrec] at h
      obtain ⟨rfl, rfl⟩ := Prod.mk.inj (Option.some.inj h)
      exact ⟨hc, procs, phase, resp, rfl, rfl, rfl⟩

omit [Codec Record] [Codec Request] [Tokens F] in
theorem finish_ok {phase : Phase} {resp : Response}
    (h : s.finish c remote phase resp = some (s', evs)) :
    s.conns c = some (remote, phase) ∧ s' = s.setConn c remote .closed ∧ evs = reply c remote resp := by
  unfold finish at h
  split_ifs at h with hc
  obtain ⟨rfl, rfl⟩ := Prod.mk.inj (Option.some.inj h)
  exact ⟨hc, rfl, rfl⟩

end Supervisor

end Serve

end MeshSupervisor
