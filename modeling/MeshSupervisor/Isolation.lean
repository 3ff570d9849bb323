import MeshSupervisor.Supervisor

/-! # Clients without control rights

Two runs are compared: one with connections of any peers, and the same run without the
connections of the peers outside `control`.  `Purged` relates their states: the process
manager is the same, and so are the connections and the buckets of the peers in `control`.
It is kept by every step (`Purged.visible`, `Purged.hidden`), because such a peer can only
have its own bucket drained and read-only requests answered, and because peers that fit into
the limiter are never evicted.

`control_isolated`: the second run exists, ends with the same manager, and shows the same
events and the same frames sent to the peers in `control`. -/

namespace MeshSupervisor

open Wire (Bytes Codec)

section Isolation

variable {EndpointId F : Type} [DecidableEq EndpointId]

/-! ### The run without the others -/

/-- An action that stays when the connections of peers outside `control` are removed. -/
def ServiceAction.retained (authz : Authz EndpointId) (a : ServiceAction EndpointId) : Bool :=
  a.peer.all (fun p => decide (p ∈ authz.control))

/-- What peers in `control` are sent, and everything the manager does. -/
def ServiceEvent.observed (authz : Authz EndpointId) : ServiceEvent EndpointId → Bool
  | .sent _ remote _ => decide (remote ∈ authz.control)
  | .manager _ => true

/-- `s'` is `s` as the peers in `control` know it: the same manager, their connections and
their buckets.  The peers of both are among `peers`. -/
structure Purged (authz : Authz EndpointId) (peers : List EndpointId)
    (s s' : Supervisor EndpointId F) : Prop where
  procs : s'.procs = s.procs
  conns : ∀ c, s'.conns c = (s.conns c).filter (fun x => decide (x.1 ∈ authz.control))
  buckets : ∀ p ∈ authz.control, s'.limiter.lookup p = s.limiter.lookup p
  known : ∀ p, (s.limiter.lookup p).isSome = true → p ∈ peers
  known' : ∀ p, (s'.limiter.lookup p).isSome = true → p ∈ peers

theorem manager_observed (authz : Authz EndpointId) (evs : List Event) :
    (evs.map ServiceEvent.manager).filter (·.observed authz) = evs.map ServiceEvent.manager := by
  rw [List.filter_eq_self]
  intro e he
  obtain ⟨e', -, rfl⟩ := List.mem_map.mp he
  rfl

namespace Purged

variable {authz : Authz EndpointId} {peers : List EndpointId} {s s' : Supervisor EndpointId F}

theorem new (w : World) :
    Purged authz peers (Supervisor.new w : Supervisor EndpointId F) (Supervisor.new w) where
  procs := rfl
  conns _ := rfl
  buckets _ _ := rfl
  known p hp := by
    rw [Supervisor.new, AList.lookup_empty] at hp
    cases hp
  known' p hp := by
    rw [Supervisor.new, AList.lookup_empty] at hp
    cases hp

theorem conn_none (h : Purged authz peers s s') {c : ℕ} (hc : s.conns c = none) :
    s'.conns c = none := by
  rw [h.conns, hc]
  rfl

theorem conn_some (h : Purged authz peers s s') {c : ℕ} {remote : EndpointId} {phase : Phase}
    (hr : remote ∈ authz.control) (hc : s.conns c = some (remote, phase)) :
    s'.conns c = some (remote, phase) := by
  rw [h.conns, hc, Option.filter_some, decide_eq_true hr]
  rfl

theorem conn_hidden (h : Purged authz peers s s') {c : ℕ} {remote : EndpointId} {phase : Phase}
    (hr : remote ∉ authz.control) (hc : s.conns c = some (remote, phase)) :
    s'.conns c = none := by
  rw [h.conns, hc, Option.filter_some, decide_eq_false hr]
  rfl

theorem setConn (h : Purged authz peers s s') {remote : EndpointId} (hr : remote ∈ authz.control)
    (c : ℕ) (phase : Phase) :
    Purged authz peers (s.setConn c remote phase) (s'.setConn c remote phase) where
  procs := h.procs
  conns c' := by
    dsimp only [Supervisor.setConn]
    by_cases hc : c' = c
    · subst hc
      rw [Function.update_self, Function.update_self, Option.filter_some, decide_eq_true hr]
      rfl
    · rw [Function.update_of_ne hc, Function.update_of_ne hc]
      exact h.conns c'
  buckets := h.buckets
  known := h.known
  known' := h.known'

theorem setHidden (h : Purged authz peers s s') {remote : EndpointId}
    (hr : remote ∉ authz.control) {c : ℕ} (hc : s'.conns c = none) (phase : Phase) :
    Purged authz peers (s.setConn c remote phase) s' where
  procs := h.procs
  conns c' := by
    dsimp only [Supervisor.setConn]
    by_cases hc' : c' = c
    · subst hc'
      rw [Function.update_self, Option.filter_some, decide_eq_false hr]
      exact hc
    · rw [Function.update_of_ne hc']
      exact h.conns c'
  buckets := h.buckets
  known := h.known
  known' := h.known'

theorem setProcs (h : Purged authz peers s s') (w : World) :
    Purged authz peers { s with procs := w } { s' with procs := w } :=
  ⟨rfl, h.conns, h.buckets, h.known, h.known'⟩

/-- A peer in `control` gets the same bucket in both. -/
theorem setBucket (h : Purged authz peers s s') {peer : EndpointId} (hp : peer ∈ peers)
    (b : Bucket F) :
    Purged authz peers { s with limiter := AList.insert peer b s.limiter }
      { s' with limiter := AList.insert peer b s'.limiter } where
  procs := h.procs
  conns := h.conns
  buckets p hpc := by
    rw [Table.lookup_insert_if, Table.lookup_insert_if, h.buckets p hpc]
  known p hs := by
    rw [Table.lookup_insert_if] at hs
    by_cases he : p = peer
    · rw [he]
      exact hp
    · rw [if_neg he] at hs
      exact h.known p hs
  known' p hs := by
    rw [Table.lookup_insert_if] at hs
    by_cases he : p = peer
    · rw [he]
      exact hp
    · rw [if_neg he] at hs
      exact h.known' p hs

theorem setOtherBucket (h : Purged authz peers s s') {peer : EndpointId} (hp : peer ∈ peers)
    (hr : peer ∉ authz.control) (b : Bucket F) :
    Purged authz peers { s with limiter := AList.insert peer b s.limiter } s' where
  procs := h.procs
  conns := h.conns
  buckets p hpc := by
    have hne : p ≠ peer := by
      rintro rfl
      exact hr hpc
    rw [Table.lookup_insert_if, if_neg hne]
    exact h.buckets p hpc
  known p hs := by
    rw [Table.lookup_insert_if] at hs
    by_cases he : p = peer
    · rw [he]
      exact hp
    · rw [if_neg he] at hs
      exact h.known p hs
  known' := h.known'

theorem answer (h : Purged authz peers s s') (t : ℕ) (es : List Event) :
    s'.answer t es = (s.answer t es).filter (fun x => decide (x.1 ∈ authz.control)) := by
  unfold Supervisor.answer
  cases hc : s.conns t with
  | none =>
      rw [h.conn_none hc]
      rfl
  | some x =>
      obtain ⟨remote, phase⟩ := x
      by_cases hr : remote ∈ authz.control
      · rw [h.conn_some hr hc]
        cases phase with
        | dispatched => cases es.findSome? Event.response <;> simp [Option.filter_some, hr]
        | reading => rfl
        | streaming => rfl
        | piping => rfl
        | closed => rfl
      · rw [h.conn_hidden hr hc]
        cases phase with
        | dispatched => cases es.findSome? Event.response <;> simp [Option.filter_some, hr]
        | reading => rfl
        | streaming => rfl
        | piping => rfl
        | closed => rfl

end Purged

/-! ### Frames sent -/

variable [Codec Response]

theorem reply_observed {authz : Authz EndpointId} {remote : EndpointId}
    (h : remote ∈ authz.control) (c : ℕ) (resp : Response) :
    (reply c remote resp).filter (·.observed authz) = reply c remote resp := by
  unfold reply
  cases writeMsg resp with
  | ok frame => simp [ServiceEvent.observed, h]
  | error _ => rfl

theorem reply_hidden {authz : Authz EndpointId} {remote : EndpointId}
    (h : remote ∉ authz.control) (c : ℕ) (resp : Response) :
    (reply c remote resp).filter (·.observed authz) = [] := by
  unfold reply
  cases writeMsg resp with
  | ok frame => simp [ServiceEvent.observed, h]
  | error _ => rfl

/-! ### One step -/

variable {authz : Authz EndpointId} {peers : List EndpointId}
  {s s₁ s' : Supervisor EndpointId F} {evs : List (ServiceEvent EndpointId)}

namespace Purged

theorem finish (h : Purged authz peers s s') {c : ℕ} {remote : EndpointId} {phase : Phase} {resp : Response}
    (hr : remote ∈ authz.control) (hs : s.finish c remote phase resp = some (s₁, evs)) :
    ∃ s₂, s'.finish c remote phase resp = some (s₂, evs.filter (·.observed authz)) ∧
      Purged authz peers s₁ s₂ := by
  obtain ⟨hc, rfl, rfl⟩ := Supervisor.finish_ok hs
  rw [Supervisor.finish, if_pos (h.conn_some hr hc), reply_observed hr]
  exact ⟨_, rfl, h.setConn hr c .closed⟩

theorem finish_hidden (h : Purged authz peers s s') {c : ℕ} {remote : EndpointId} {phase : Phase} {resp : Response}
    (hr : remote ∉ authz.control) (hs : s.finish c remote phase resp = some (s₁, evs)) :
    evs.filter (·.observed authz) = [] ∧ Purged authz peers s₁ s' := by
  obtain ⟨hc, rfl, rfl⟩ := Supervisor.finish_ok hs
  exact ⟨reply_hidden hr c resp, h.setHidden hr (h.conn_hidden hr hc) .closed⟩

theorem accept [Tokens F] {cfg : RateLimiterConfig F} (h : Purged authz peers s s')
    (hcap : peers.dedup.length ≤ cfg.maxBuckets)
    {c : ℕ} {remote : EndpointId} {now : Instant} (hp : remote ∈ peers)
    (hr : remote ∈ authz.control) (hs : s.accept cfg c remote now = some (s₁, evs)) :
    ∃ s₂, s'.accept cfg c remote now = some (s₂, evs.filter (·.observed authz)) ∧
      Purged authz peers s₁ s₂ := by
  unfold Supervisor.accept at hs ⊢
  split_ifs at hs with hfree
  have hfree' : ((s'.conns c).isNone && (s'.procs.tasks c).isNone) = true := by
    rw [Bool.and_eq_true, Option.isNone_iff_eq_none] at hfree
    rw [h.conn_none hfree.1, h.procs, hfree.2]
    rfl
  rw [RateLimiterConfig.allow_of_few hcap h.known hp] at hs
  rw [if_pos hfree', RateLimiterConfig.allow_of_few hcap h.known' hp, h.buckets remote hr]
  have hb := h.setBucket hp (cfg.consume now (s.limiter.lookup remote)).1
  cases ha : (cfg.consume now (s.limiter.lookup remote)).2 with
  | true =>
      simp only [ha] at hs ⊢
      obtain ⟨rfl, rfl⟩ := Prod.mk.inj (Option.some.inj hs)
      exact ⟨_, rfl, hb.setConn hr c .reading⟩
  | false =>
      simp only [ha] at hs ⊢
      obtain ⟨rfl, rfl⟩ := Prod.mk.inj (Option.some.inj hs)
      rw [reply_observed hr]
      exact ⟨_, rfl, hb.setConn hr c .closed⟩

theorem accept_hidden [Tokens F] {cfg : RateLimiterConfig F} (h : Purged authz peers s s')
    (hcap : peers.dedup.length ≤ cfg.maxBuckets)
    {c : ℕ} {remote : EndpointId} {now : Instant} (hp : remote ∈ peers)
    (hr : remote ∉ authz.control) (hs : s.accept cfg c remote now = some (s₁, evs)) :
    evs.filter (·.observed authz) = [] ∧ Purged authz peers s₁ s' := by
  unfold Supervisor.accept at hs
  split_ifs at hs with hfree
  rw [Bool.and_eq_true, Option.isNone_iff_eq_none] at hfree
  rw [RateLimiterConfig.allow_of_few hcap h.known hp] at hs
  have hb := h.setOtherBucket hp hr (cfg.consume now (s.limiter.lookup remote)).1
  cases ha : (cfg.consume now (s.limiter.lookup remote)).2 with
  | true =>
      simp only [ha] at hs
      obtain ⟨rfl, rfl⟩ := Prod.mk.inj (Option.some.inj hs)
      exact ⟨rfl, hb.setHidden hr (h.conn_none hfree.1) .reading⟩
  | false =>
      simp only [ha] at hs
      obtain ⟨rfl, rfl⟩ := Prod.mk.inj (Option.some.inj hs)
      exact ⟨reply_hidden hr c _, hb.setHidden hr (h.conn_none hfree.1) .closed⟩

variable [Codec Record]

theorem sched (h : Purged authz peers s s') {t : ℕ} {os : Os}
    (hs : s.sched t os = some (s₁, evs)) :
    ∃ s₂, s'.sched t os = some (s₂, evs.filter (·.observed authz)) ∧
      Purged authz peers s₁ s₂ := by
  unfold Supervisor.sched at hs ⊢
  rw [h.procs]
  cases hstep : step s.procs (.sched t os) with
  | none =>
      rw [hstep] at hs
      cases hs
  | some p =>
      obtain ⟨procs, es⟩ := p
      rw [hstep] at hs
      dsimp only at hs ⊢
      rw [h.answer]
      cases ha : s.answer t es with
      | none =>
          rw [ha] at hs
          obtain ⟨rfl, rfl⟩ := Prod.mk.inj (Option.some.inj hs)
          rw [manager_observed]
          exact ⟨_, rfl, h.setProcs procs⟩
      | some x =>
          obtain ⟨remote, resp⟩ := x
          rw [ha] at hs
          obtain ⟨rfl, rfl⟩ := Prod.mk.inj (Option.some.inj hs)
          rw [List.filter_append, manager_observed, Option.filter_some]
          by_cases hr : remote ∈ authz.control
          · rw [reply_observed hr, if_pos (decide_eq_true hr)]
            exact ⟨_, rfl, (h.setProcs procs).setConn hr t .closed⟩
          · rw [reply_hidden hr, if_neg (by simpa using hr), List.append_nil]
            have hc := h.conn_hidden hr (Supervisor.answer_some ha)
            exact ⟨_, rfl, (h.setProcs procs).setHidden hr hc .closed⟩

omit [Codec Response] in
theorem background (h : Purged authz peers s s') {a : Action}
    (hs : s.background a = some (s₁, evs)) :
    ∃ s₂, s'.background a = some (s₂, evs.filter (·.observed authz)) ∧
      Purged authz peers s₁ s₂ := by
  unfold Supervisor.background at hs ⊢
  obtain ⟨⟨w, es⟩, hstep, he⟩ := Option.map_eq_some_iff.mp hs
  obtain ⟨rfl, rfl⟩ := Prod.mk.inj he
  rw [h.procs, hstep, manager_observed]
  exact ⟨_, rfl, h.setProcs w⟩

end Purged

variable [Codec Record] [Codec Request]

namespace Purged

theorem request (h : Purged authz peers s s') {c : ℕ} {remote : EndpointId} {stream : Bytes}
    {usage : Handle → Option Usage} (hr : remote ∈ authz.control)
    (hs : s.request authz c remote stream usage = some (s₁, evs)) :
    ∃ s₂, s'.request authz c remote stream usage = some (s₂, evs.filter (·.observed authz)) ∧
      Purged authz peers s₁ s₂ := by
  obtain ⟨hc, procs, phase, resp, hrec, rfl, rfl⟩ := Supervisor.request_ok hs
  have hevs : (resp.elim [] (reply c remote)).filter (·.observed authz) =
      resp.elim [] (reply c remote) := by
    cases resp with
    | none => rfl
    | some r => exact reply_observed hr c r
  rw [Supervisor.request, if_pos (h.conn_some hr hc), h.procs, hrec, hevs]
  exact ⟨_, rfl, (h.setProcs procs).setConn hr c phase⟩

end Purged

omit [Codec Response] in
/-- Outside `control` a request is refused or read-only: the manager stays as it is. -/
theorem receive_hidden (hclosed : authz.openAll = false) {w w' : World} {c : ℕ}
    {remote : EndpointId} (hr : remote ∉ authz.control) {stream : Bytes}
    {usage : Handle → Option Usage} {phase : Phase} {resp : Option Response}
    (h : receive authz w c remote stream usage = some (w', phase, resp)) : w' = w := by
  unfold receive at h
  cases hm : readMsg (α := Request) stream with
  | error e =>
      rw [hm] at h
      exact (Prod.mk.inj (Option.some.inj h)).1.symm
  | ok p =>
      obtain ⟨req, rest⟩ := p
      rw [hm] at h
      dsimp only at h
      cases ha : authz.authorize remote req with
      | error e =>
          rw [ha] at h
          exact (Prod.mk.inj (Option.some.inj h)).1.symm
      | ok u =>
          rw [ha] at h
          exact handle_readOnly (authz.authorize_ok hclosed hr ha) h

namespace Purged

theorem request_hidden (h : Purged authz peers s s') (hclosed : authz.openAll = false)
    {c : ℕ} {remote : EndpointId} {stream : Bytes} {usage : Handle → Option Usage}
    (hr : remote ∉ authz.control)
    (hs : s.request authz c remote stream usage = some (s₁, evs)) :
    evs.filter (·.observed authz) = [] ∧ Purged authz peers s₁ s' := by
  obtain ⟨hc, procs, phase, resp, hrec, rfl, rfl⟩ := Supervisor.request_ok hs
  obtain rfl := receive_hidden hclosed hr hrec
  refine ⟨?_, h.setHidden hr (h.conn_hidden hr hc) phase⟩
  cases resp with
  | none => rfl
  | some r => exact reply_hidden hr c r

end Purged

variable [Tokens F] {cfg : RateLimiterConfig F}

namespace Purged

/-- An action that is not another peer's is followed in the purged run. -/
theorem visible (h : Purged authz peers s s') (hcap : peers.dedup.length ≤ cfg.maxBuckets)
    {a : ServiceAction EndpointId} (hp : ∀ p ∈ a.peer, p ∈ peers) (ha : a.retained authz = true)
    (hs : serve cfg authz s a = some (s₁, evs)) :
    ∃ s₂, serve cfg authz s' a = some (s₂, evs.filter (·.observed authz)) ∧
      Purged authz peers s₁ s₂ := by
  cases a with
  | accept c remote now => exact h.accept hcap (hp remote rfl) (of_decide_eq_true ha) hs
  | request c remote stream usage => exact h.request (of_decide_eq_true ha) hs
  | timeout c remote => exact h.finish (of_decide_eq_true ha) hs
  | piped c remote result => exact h.finish (of_decide_eq_true ha) hs
  | sched t os => exact h.sched hs
  | exit n code => exact h.background hs
  | shutdown t =>
      unfold serve at hs ⊢
      dsimp only at hs ⊢
      split_ifs at hs with hc
      rw [Option.isNone_iff_eq_none] at hc
      rw [if_pos (by rw [h.conn_none hc]; rfl)]
      exact h.background hs

/-- Another peer's action is not seen. -/
theorem hidden (h : Purged authz peers s s') (hclosed : authz.openAll = false)
    (hcap : peers.dedup.length ≤ cfg.maxBuckets) {a : ServiceAction EndpointId}
    (hp : ∀ p ∈ a.peer, p ∈ peers) (ha : a.retained authz = false)
    (hs : serve cfg authz s a = some (s₁, evs)) :
    evs.filter (·.observed authz) = [] ∧ Purged authz peers s₁ s' := by
  cases a with
  | accept c remote now => exact h.accept_hidden hcap (hp remote rfl) (of_decide_eq_false ha) hs
  | request c remote stream usage => exact h.request_hidden hclosed (of_decide_eq_false ha) hs
  | timeout c remote => exact h.finish_hidden (of_decide_eq_false ha) hs
  | piped c remote result => exact h.finish_hidden (of_decide_eq_false ha) hs
  | sched t os => cases ha
  | exit n code => cases ha
  | shutdown t => cases ha

end Purged

def peersOf (l : List (Lts.Tr (Supervisor EndpointId F) (ServiceAction EndpointId)
    (ServiceEvent EndpointId))) : List EndpointId :=
  (l.map Lts.Tr.act).filterMap ServiceAction.peer

/-- **Clients without control rights do not matter.**  Take any run of a supervisor that is
not open to everyone, in which no more peers connect than the limiter has buckets for.
Without the connections of the peers outside `control`, and with everything else as it was,
it is still a run; it ends with the same process table, store, counter and tasks, the manager
has done the same, and the peers in `control` have been sent the same frames. -/
theorem control_isolated (cfg : RateLimiterConfig F) (authz : Authz EndpointId)
    (hclosed : authz.openAll = false) (w : World)
    {l : List (Lts.Tr (Supervisor EndpointId F) (ServiceAction EndpointId) (ServiceEvent EndpointId))}
    {s : Supervisor EndpointId F} (hr : Lts.Run (serve cfg authz) (Supervisor.new w) l s)
    (hcap : (peersOf l).dedup.length ≤ cfg.maxBuckets) :
    ∃ l' s', Lts.Run (serve cfg authz) (Supervisor.new w) l' s' ∧
      l'.map Lts.Tr.act = (l.map Lts.Tr.act).filter (·.retained authz) ∧
      s'.procs = s.procs ∧
      Lts.events l' = (Lts.events l).filter (·.observed authz) := by
  have hG : ∀ tr ∈ l, ∀ p ∈ tr.act.peer, p ∈ peersOf l := by
    intro tr htr p hp
    exact List.mem_filterMap.mpr ⟨tr.act, List.mem_map_of_mem htr, hp⟩
  obtain ⟨l', s', hr', hR, hacts, hevs⟩ :=
    Lts.Run.unwind (Purged authz (peersOf l)) (·.retained authz) (·.observed authz)
      (fun tr => ∀ p ∈ tr.act.peer, p ∈ peersOf l)
      (fun tr t hv hg hR ha => hR.visible hcap hg ha hv)
      (fun tr t hv hg hR ha => hR.hidden hclosed hcap hg ha hv)
      hr hG (Purged.new w)
  exact ⟨l', s', hr', hacts, hR.procs, hevs⟩

end Isolation

/-- Peer `1` may do anything, peer `2` may read. -/
def twoPeers : Authz ℕ where
  control := {1}
  read := {2}

/-- A limiter for three peers. -/
def threeBuckets : RateLimiterConfig ℚ := ⟨20, 10, 3, .fromSecs 90⟩

def frameOf (req : Request) : Bytes :=
  match @writeMsg _ requestCodec req with
  | .ok frame => frame
  | .error _ => []

/-- A stranger and the reader try to spawn, the reader lists what is there, and the peer in
`control` spawns a process in the midst of it. -/
def mixedClients : List (ServiceAction ℕ) :=
  [.accept 0 3 0, .accept 1 1 100, .request 0 3 (frameOf (.spawn { cmd := "x" })) (fun _ => none),
    .accept 2 2 200, .request 1 1 (frameOf (.spawn { cmd := "a" })) (fun _ => none), .sched 1 {},
    .sched 1 { spawn := some 100 }, .sched 1 {}, .request 2 2 (frameOf .list) (fun _ => none),
    .accept 3 2 300, .sched 1 {}, .request 3 2 (frameOf (.spawn { cmd := "y" })) (fun _ => none),
    .sched 1 {}]

theorem control_isolated_mixed : ∃ l s,
    Lts.Run (@serve recordCodec _ _ _ requestCodec responseCodec _ threeBuckets twoPeers)
      (Supervisor.new (World.start .new)) l s ∧
    (Lts.events l).length = 6 ∧
    ∃ l' s', Lts.Run (@serve recordCodec _ _ _ requestCodec responseCodec _ threeBuckets twoPeers)
        (Supervisor.new (World.start .new)) l' s' ∧
      l'.map Lts.Tr.act = (l.map Lts.Tr.act).filter (·.retained twoPeers) ∧
      s'.procs = s.procs ∧ Lts.events l' = (Lts.events l).filter (·.observed twoPeers) := by
  obtain ⟨l, s, hr, hp⟩ := Lts.run_of_exec
    (@serve recordCodec _ _ _ requestCodec responseCodec _ threeBuckets twoPeers)
    (Supervisor.new (World.start .new)) mixedClients
    (fun p => decide ((Lts.events p.1).length = 6 ∧ (peersOf p.1).dedup.length ≤ 3))
    (by decide +kernel)
  obtain ⟨hlen, hcap⟩ := of_decide_eq_true hp
  exact ⟨l, s, hr, hlen, @control_isolated _ _ _ responseCodec recordCodec requestCodec _ threeBuckets
    twoPeers rfl _ _ _ hr hcap⟩

end MeshSupervisor
