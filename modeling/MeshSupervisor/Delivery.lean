import MeshSupervisor.Mesh

/-! # What a call has done

Results about the clients of `Mesh.lean`, in every run of the network.

* `response_truthful`: a response is the outcome of the call's own operation, or a refusal, and
  then nothing was done.
* `spawn_exactly_once`: a call that is answered `Spawned` has spawned, once, and nobody else is
  answered with its handle. -/

namespace MeshSupervisor

open Wire (Bytes Codec)

section Connections

variable {EndpointId F : Type} [DecidableEq EndpointId] [Codec Request] [Codec Record]

attribute [local instance] responseCodec

/-! ### Connections that were not read, or read once -/

variable [Tokens F] {cfg : RateLimiterConfig F} {authz : Authz EndpointId}
  {s : Supervisor EndpointId F} {w₀ : World} {c : ℕ}

theorem never_read {l₁ l₂ : List (ServiceTr EndpointId F)} {tr : ServiceTr EndpointId F}
    (hr : Lts.Run (serve cfg authz) (Supervisor.new w₀) (l₁ ++ tr :: l₂) s)
    (hpre : tr.pre.conns c = none ∨ ∃ r, tr.pre.conns c = some (r, .reading))
    (hact : tr.act.reads c = false) {r : EndpointId} (hpost : tr.post.conns c = some (r, .closed)) :
    requestsOn c (l₁ ++ tr :: l₂) = [] := by
  obtain ⟨hr₁, -, hr₂⟩ := hr.split rfl
  have hbefore : requestsOn c l₁ = [] := (reads_run hr₁ c).1 hpre
  have hafter : ∀ tr' ∈ l₂, ¬ tr'.act.reads c = true := by
    refine (hr₂.never (Q := fun s => s.conns c = some (r, .closed)) hpost ?_).2
    intro tr' hv hQ
    refine ⟨(serve_closed hQ hv).1, ?_⟩
    intro hread
    obtain ⟨s₁, a, evs, s₂⟩ := tr'
    cases a with
    | request c' r' stream usage =>
        obtain rfl : c' = c := by simpa [ServiceAction.reads] using hread
        have hconn := (Supervisor.request_ok hv).1
        rw [show s₁.conns c' = some (r, .closed) from hQ] at hconn
        cases hconn
    | _ => cases hread
  have hnil : requestsOn c l₂ = [] := List.filter_eq_nil_iff.mpr hafter
  simp only [requestsOn] at hbefore hnil ⊢
  rw [List.filter_append, List.filter_cons, hact, hbefore, hnil]
  rfl

theorem read_once {l : List (ServiceTr EndpointId F)}
    (hr : Lts.Run (serve cfg authz) (Supervisor.new w₀) l s) {tr tr' : ServiceTr EndpointId F}
    (htr : tr ∈ l) (hread : tr.act.reads c = true) (htr' : tr' ∈ l)
    (hread' : tr'.act.reads c = true) : tr = tr' := by
  have hone := (reads_run hr c).2
  have hmem : tr ∈ requestsOn c l := List.mem_filter.mpr ⟨htr, hread⟩
  have hmem' : tr' ∈ requestsOn c l := List.mem_filter.mpr ⟨htr', hread'⟩
  match hl : requestsOn c l with
  | [] =>
      rw [hl] at hmem
      cases hmem
  | [x] =>
      rw [hl] at hmem hmem'
      rw [List.mem_singleton.mp hmem, List.mem_singleton.mp hmem']
  | x :: y :: rest =>
      rw [hl, List.length_cons, List.length_cons] at hone
      omega

omit [Tokens F] in
theorem receive_piping {w w' : World} {r : EndpointId} {stream : Bytes}
    {usage : Handle → Option Usage} {resp : Option Response}
    (h : receive authz w c r stream usage = some (w', .piping, resp)) :
    ∃ (id : Handle) (rest : Bytes), readMsg stream = .ok (Request.stdinStream id, rest) := by
  unfold receive at h
  cases hread : readMsg (α := Request) stream with
  | error e =>
      rw [hread] at h
      cases h
  | ok p =>
      obtain ⟨req, rest⟩ := p
      rw [hread] at h
      dsimp only at h
      cases hauth : authz.authorize r req with
      | error e =>
          rw [hauth] at h
          cases h
      | ok u =>
          rw [hauth] at h
          cases req with
          | stdinStream id => exact ⟨id, rest, rfl⟩
          | spawn _ | signal _ _ | stop _ | forget _ => cases (callFor_ok h).2.1
          | list => cases h
          | query id =>
              cases hq : w.mgr.query usage id <;> simp only [handle, dispatch, hq] at h <;> cases h
          | subscribe id =>
              cases hs : w.mgr.subscribe id <;> simp only [handle, hs] at h <;> cases h

/-- A connection is piped only after a request for it. -/
theorem piping_run {l : List (ServiceTr EndpointId F)}
    (hr : Lts.Run (serve cfg authz) (Supervisor.new w₀) l s) {r : EndpointId}
    (hc : s.conns c = some (r, .piping)) : ∃ tr ∈ l, ∃ r' stream usage, ∃ (id : Handle) (rest : Bytes),
      tr.act = .request c r' stream usage ∧ readMsg stream = .ok (Request.stdinStream id, rest) := by
  induction hr with
  | nil => cases hc
  | @snoc l s₁ s₂ a evs hr hs ih =>
      by_cases hold : s₁.conns c = some (r, .piping)
      · obtain ⟨tr, htr, hrest⟩ := ih hold
        exact ⟨tr, List.mem_append_left _ htr, hrest⟩
      · have hset : ∀ {sup : Supervisor EndpointId F} {r' : EndpointId} {phase : Phase},
            (sup.setConn c r' phase).conns c = some (r, .piping) → phase = .piping := by
          intro sup r' phase he
          rw [conns_setConn] at he
          exact (Prod.mk.inj (Option.some.inj he)).2
        have hslot : a.slot = some c := by
          by_contra hne
          exact hold ((serve_other hs hne).1.symm.trans hc)
        cases a with
        | accept c' r' now =>
            cases hslot
            obtain ⟨-, -, limiter, ⟨rfl, -⟩ | ⟨rfl, -⟩⟩ := Supervisor.accept_ok hs
            · cases hset hc
            · cases hset hc
        | request c' r' stream usage =>
            cases hslot
            obtain ⟨-, w, phase, resp, hrec, rfl, -⟩ := Supervisor.request_ok hs
            obtain rfl := hset hc
            obtain ⟨id, rest, hread⟩ := receive_piping hrec
            exact ⟨_, List.mem_append_right _ (List.mem_singleton.mpr rfl), r', stream, usage, id, rest,
              rfl, hread⟩
        | timeout c' r' | piped c' r' result =>
            cases hslot
            obtain ⟨-, rfl, -⟩ := Supervisor.finish_ok hs
            cases hset hc
        | sched t os =>
            cases hslot
            obtain ⟨w, es, -, ⟨r', resp, -, rfl, -⟩ | ⟨-, rfl, -⟩⟩ := sched_cases hs
            · cases hset hc
            · exact absurd hc hold
        | exit m code => cases hslot
        | shutdown t =>
            simp only [serve] at hs
            split_ifs at hs
            obtain ⟨p, -, he⟩ := Option.map_eq_some_iff.mp hs
            cases he
            exact absurd hc hold

/-! ### Connections that nothing is done for -/

/-- Slot `c` has no task, but for a `kill_all` from before there was a connection `c`. -/
def Supervisor.Clear (s : Supervisor EndpointId F) (c : ℕ) : Prop :=
  ∀ task, s.procs.tasks c = some task → s.conns c = none ∧ task.call = .killAll

/-- Nothing is ever done for connection `c`. -/
structure Untouched (ls : List (ServiceTr EndpointId F)) (c : ℕ) : Prop where
  /-- It has no task. -/
  clear : ∀ tr ∈ ls, tr.pre.Clear c ∧ tr.post.Clear c
  /-- Its transitions leave the manager as it is, and the manager is not seen to do anything. -/
  quiet : ∀ tr ∈ ls, tr.act.slot = some c → tr.post.conns c ≠ none →
    tr.post.procs = tr.pre.procs ∧ managed tr.evs = []
  /-- No handle was taken on it, so no child is the work of it. -/
  untaken : ∀ id, taker ls id ≠ some c

theorem accept_of_conns {s s' : Supervisor EndpointId F} {a : ServiceAction EndpointId}
    {evs : List (ServiceEvent EndpointId)} (hs : serve cfg authz s a = some (s', evs))
    (hnone : s.conns c = none) (hc : s'.conns c ≠ none) : ∃ r now, a = .accept c r now := by
  by_cases hslot : a.slot = some c
  · cases a with
    | accept c' r now =>
        cases hslot
        exact ⟨r, now, rfl⟩
    | request c' r stream usage =>
        cases hslot
        rw [(Supervisor.request_ok hs).1] at hnone
        cases hnone
    | timeout c' r | piped c' r result =>
        cases hslot
        rw [(Supervisor.finish_ok hs).1] at hnone
        cases hnone
    | sched t os =>
        cases hslot
        obtain ⟨w, es, -, ⟨r, resp, hans, -, -⟩ | ⟨-, rfl, -⟩⟩ := sched_cases hs
        · rw [Supervisor.answer_some hans] at hnone
          cases hnone
        · exact absurd hnone hc
    | exit n code => cases hslot
    | shutdown t =>
        cases hslot
        simp only [serve] at hs
        split_ifs at hs
        obtain ⟨p, -, he⟩ := Option.map_eq_some_iff.mp hs
        cases he
        exact absurd hnone hc
  · rw [(serve_other hs hslot).1] at hc
    exact absurd hnone hc

theorem Supervisor.Clear.quiet {s s' : Supervisor EndpointId F} {a : ServiceAction EndpointId}
    {evs : List (ServiceEvent EndpointId)} (h : s.Clear c) (hs : serve cfg authz s a = some (s', evs))
    (hno : ∀ op, ¬ Asked authz [⟨s, a, evs, s'⟩] c op) (hslot : a.slot = some c)
    (hc : s'.conns c ≠ none) : s'.procs = s.procs ∧ managed evs = [] := by
  rcases serve_world hs with hsame | ⟨b, hb, hstep⟩
  · exact hsame
  · exfalso
    cases hb with
    | request hread hauth hop =>
        cases hslot
        exact hno _ ⟨_, List.mem_singleton_self _, _, _, _, _, _, rfl, hread, hop,
          Authz.control_of_call hop hauth⟩
    | shutdown =>
        cases hslot
        have hnone : s.conns c = none := by
          by_contra hsome
          simp only [serve, if_neg (mt Option.isNone_iff_eq_none.mp hsome)] at hs
          cases hs
        obtain ⟨r, now, hact⟩ := accept_of_conns hs hnone hc
        cases hact
    | sched =>
        cases hslot
        rcases step_moves hstep with ⟨_, _, hx, -⟩ | ⟨t, os, task, m', next, hx, ht, -⟩ |
          ⟨_, _, _, hx, -⟩
        · cases hx
        · cases hx
          obtain ⟨r, now, hact⟩ := accept_of_conns hs (h task ht).1 hc
          cases hact
        · cases hx
    | exit => cases hslot

/-- The slot of a connection of which no operation was asked stays without a task. -/
theorem clear_run (h₀ : Initial w₀) {l : List (ServiceTr EndpointId F)}
    (hr : Lts.Run (serve cfg authz) (Supervisor.new w₀) l s) (hno : ∀ op, ¬ Asked authz l c op) :
    s.Clear c := by
  induction hr with
  | nil =>
      intro task ht
      rw [show (Supervisor.new w₀ : Supervisor EndpointId F).procs.tasks c = none from
        h₀.idle.1 c] at ht
      cases ht
  | @snoc l s₁ s₂ a evs hr hs ih =>
      have hclear : s₁.Clear c := ih fun op hask => hno op hask.mono
      intro task ht
      have hkill : task.call = .killAll := by
        rcases stemming_run h₀.idle.1 (hr.snoc hs) c task ht with hask | ⟨hkill, -⟩
        · exact absurd hask (hno _)
        · exact hkill
      refine ⟨?_, hkill⟩
      by_contra hc
      by_cases hslot : a.slot = some c
      · have hsame : s₂.procs = s₁.procs := by
          refine (hclear.quiet hs ?_ hslot hc).1
          rintro op ⟨tr, htr, hrest⟩
          exact hno op ⟨tr, List.mem_append_right _ htr, hrest⟩
        rw [hsame] at ht
        obtain ⟨r, now, rfl⟩ := accept_of_conns hs (hclear task ht).1 hc
        cases hslot
        rw [(Supervisor.accept_ok hs).2.1] at ht
        cases ht
      · obtain ⟨hconn, htask, -⟩ := serve_other hs hslot
        rw [hconn] at hc
        rw [htask] at ht
        exact hc (hclear task ht).1

/-- Nothing is ever done for a connection of which no operation was asked. -/
theorem Untouched.of_not_asked (h₀ : Initial w₀) {l : List (ServiceTr EndpointId F)}
    (hr : Lts.Run (serve cfg authz) (Supervisor.new w₀) l s) (hno : ∀ op, ¬ Asked authz l c op) :
    Untouched l c := by
  have hpre : ∀ {l₁ l₂ : List (ServiceTr EndpointId F)} {tr : ServiceTr EndpointId F},
      l = l₁ ++ tr :: l₂ → (∀ op, ¬ Asked authz l₁ c op) ∧ (∀ op, ¬ Asked authz [tr] c op) ∧
        ∀ op, ¬ Asked authz (l₁ ++ [tr]) c op := by
    rintro l₁ l₂ tr rfl
    refine ⟨fun op hask => hno op hask.mono, ?_, ?_⟩
    · rintro op ⟨tr', htr', hrest⟩
      obtain rfl := List.mem_singleton.mp htr'
      exact hno op ⟨tr', by simp, hrest⟩
    · intro op hask
      have hlonger : Asked authz ((l₁ ++ [tr]) ++ l₂) c op := hask.mono
      rw [List.append_assoc] at hlonger
      exact hno op hlonger
  constructor
  · intro tr htr
    obtain ⟨l₁, l₂, hl, hr₁, hv, -⟩ := hr.mem_split htr
    exact ⟨clear_run h₀ hr₁ (hpre hl).1, clear_run h₀ (hr₁.snoc hv) (hpre hl).2.2⟩
  · intro tr htr hslot hc
    obtain ⟨l₁, l₂, hl, hr₁, hv, -⟩ := hr.mem_split htr
    exact (clear_run h₀ hr₁ (hpre hl).1).quiet hv (hpre hl).2.1 hslot hc
  · intro id htake
    obtain ⟨tr, htr, htakes⟩ := List.exists_of_findSome?_eq_some htake
    obtain ⟨l₁, l₂, hl, hr₁, hv, -⟩ := hr.mem_split htr
    obtain ⟨s₁, a, evs, s₂⟩ := tr
    cases a with
    | sched t os =>
        simp only [takes] at htakes
        split_ifs at htakes with hid
        cases htakes
        have hlt := lt_of_lt_of_le hid.1 hid.2
        rcases serve_world hv with ⟨hsame, -⟩ | ⟨b, hb, hstep⟩
        · rw [hsame] at hlt
          exact lt_irrefl _ hlt
        · cases hb
          rcases step_acts hstep with ⟨_, _, task, next, heq, ht, hm⟩ | ⟨-, hnext, -⟩
          · cases heq
            rcases hm.next_eq with hnext | ⟨⟨spec, rfl⟩, -⟩
            · exact hlt.ne' hnext
            · cases (clear_run h₀ hr₁ (hpre hl).1 _ ht).2
          · exact hlt.ne' hnext
    | _ => cases htakes

end Connections

/-! ### What the calls learn -/

section Results

attribute [local instance] responseCodec

variable {EndpointId F ε : Type} [Codec Request] [DecidableEq EndpointId] [Codec Record] [Tokens F] {attempts : ℕ}
  {cfg : RateLimiterConfig F} {authz : Authz EndpointId} {w₀ : World}
  {ls : List (ServiceTr EndpointId F)} {l : List (NetTr EndpointId F ε)}
  {n : Net EndpointId F ε} {k c : ℕ} {cc : ClientCall EndpointId ε}

/-- The response `resp` to `req` tells what the supervisor did on connection `c`. -/
inductive Truthful (ls : List (ServiceTr EndpointId F)) (c : ℕ) (req : Request) : Response → Prop
  /-- A refusal: nothing is done, before or after. -/
  | refused {e : ControlError} :
      e ∈ [.rateLimited, .timeout, .denied, .badRequest "malformed request"] →
      Untouched ls c → Truthful ls c req (.error e)
  /-- The outcome of the request's own operation. -/
  | done {op : Call} {tr : ServiceTr EndpointId F} {os : Os} {e : Event} {resp : Response} :
      req.call = some op → tr ∈ ls → tr.act = .sched c os → .manager e ∈ tr.evs →
      op.Does (taker ls · = some c) (RanAs ls) e → e.response = some resp → Truthful ls c req resp
  /-- What there was to be seen at one moment. -/
  | seen {tr : ServiceTr EndpointId F} {r : EndpointId} {stream : Bytes}
      {usage : Handle → Option Usage} {resp : Response} : req.isReadOnly = true → tr ∈ ls →
      tr.act = .request c r stream usage →
      handle tr.pre.procs c usage req = some (tr.pre.procs, .closed, some resp) →
      Truthful ls c req resp

omit [Codec Request] [Codec Record] in
/-- What is read from part of a frame is its message. -/
theorem readMsg_of_prefix {α : Type} [Codec α] {msg msg' : α} {frame stream rest : Bytes}
    (hw : writeMsg msg = .ok frame) (hpre : stream <+: frame)
    (h : readMsg stream = .ok (msg', rest)) : msg' = msg := by
  by_cases heq : stream = frame
  · have hread := readMsg_writeMsg hw []
    rw [List.append_nil, ← heq, h] at hread
    cases hread
    rfl
  · have herr := recvMsg_prefix hw hpre heq
    rw [readMsg_eq] at h
    cases hr : (recvMsg stream : Except String α × Bytes) with
    | mk res tail =>
        rw [hr] at h herr
        obtain rfl := herr
        cases h

/-- The request that is read on a call's connection is the call's. -/
theorem Wired.request_eq (h : Wired cfg authz w₀ ls n) (hcc : n.calls k = some cc)
    (hc : cc.conn = some c) {tr : ServiceTr EndpointId F} (htr : tr ∈ ls) {r : EndpointId}
    {stream rest : Bytes} {usage : Handle → Option Usage} {req : Request}
    (hact : tr.act = .request c r stream usage) (hread : readMsg stream = .ok (req, rest)) :
    req = cc.req := by
  obtain ⟨st, hst, hpre⟩ := h.read tr htr c r stream usage hact
  obtain ⟨st', hst', ho⟩ := h.conn k cc c hcc hc
  rw [hst] at hst'
  obtain rfl := Option.some.inj hst'
  obtain ⟨cc', hcc', -, hup⟩ := h.owner c st k hst ho
  rw [hcc] at hcc'
  obtain rfl := Option.some.inj hcc'
  rcases hup with hnil | ⟨⟨frame, hw, hframe⟩, -⟩
  · rw [hnil, List.prefix_nil] at hpre
    subst hpre
    cases hread
  · exact readMsg_of_prefix hw (hpre.trans hframe) hread

omit [Codec Request] [Codec Record] in
theorem Authz.authorize_of_control {remote : EndpointId} (req : Request)
    (h : authz.openAll = true ∨ remote ∈ authz.control) : authz.authorize remote req = .ok () := by
  unfold Authz.authorize
  rw [if_pos]
  rcases h with h | h
  · simp [h]
  · simp [h]

omit [Codec Request] [Codec Record] in
theorem Authz.authorize_error {remote : EndpointId} {req : Request} {e : ControlError}
    (h : authz.authorize remote req = .error e) : e = .denied := by
  unfold Authz.authorize at h
  split_ifs at h
  exact (Except.error.inj h).symm

/-- What was asked on a connection was asked in the one request read on it. -/
theorem Asked.here {s : Supervisor EndpointId F}
    (hr : Lts.Run (serve cfg authz) (Supervisor.new w₀) ls s) {tr : ServiceTr EndpointId F}
    (htr : tr ∈ ls) {r : EndpointId} {stream : Bytes} {usage : Handle → Option Usage}
    (hact : tr.act = .request c r stream usage) {op : Call} (h : Asked authz ls c op) :
    ∃ (req : Request) (rest : Bytes), readMsg stream = .ok (req, rest) ∧
      (authz.openAll = true ∨ r ∈ authz.control) := by
  obtain ⟨tr', htr', r', stream', usage', req, rest, hact', hread, -, hctl⟩ := h
  have htwice := read_once hr htr (c := c) (by rw [hact]; simp [ServiceAction.reads]) htr'
    (by rw [hact']; simp [ServiceAction.reads])
  rw [htwice, hact'] at hact
  cases hact
  exact ⟨req, rest, hread, hctl⟩

omit [Codec Request] in
theorem Request.seen {w w' : World} {usage : Handle → Option Usage} {req : Request} {phase : Phase}
    {resp : Response} (hone : req.isOneShot = true)
    (h : handle w c usage req = some (w', phase, some resp)) :
    req.isReadOnly = true ∧ handle w c usage req = some (w, .closed, some resp) := by
  cases req with
  | spawn _ | signal _ _ | stop _ | forget _ => cases (callFor_ok h).2.2
  | subscribe _ | stdinStream _ => cases hone
  | list =>
      cases h
      exact ⟨rfl, rfl⟩
  | query id =>
      refine ⟨rfl, ?_⟩
      cases hq : w.mgr.query usage id <;> simp only [handle, dispatch, hq] at h ⊢ <;> cases h <;> rfl

/-- A response that was written on the connection of a call is truthful. -/
theorem Wired.truthful (h : Wired cfg authz w₀ ls n) (h₀ : Initial w₀) (hcc : n.calls k = some cc)
    (hc : cc.conn = some c) {tr : ServiceTr EndpointId F} (htr : tr ∈ ls) {resp : Response}
    (hans : Answers authz tr c resp) : Truthful ls c cc.req resp := by
  obtain ⟨l₁, l₂, rfl, hr₁, hv, -⟩ := h.run.mem_split htr
  have hquiet : (∀ op, ¬ Asked authz (l₁ ++ tr :: l₂) c op) → Untouched (l₁ ++ tr :: l₂) c :=
    Untouched.of_not_asked h₀ h.run
  have hunread : requestsOn c (l₁ ++ tr :: l₂) = [] → Untouched (l₁ ++ tr :: l₂) c :=
    fun hnil => hquiet fun op hask => hask.read hnil
  cases hans with
  | refused hact hpost =>
      refine .refused (by simp) (hunread (never_read h.run ?_ (by rw [hact]; rfl) hpost))
      obtain ⟨s₁, a, evs, s₂⟩ := tr
      obtain rfl := hact
      exact .inl (Supervisor.accept_ok hv).1
  | late hact hpre hpost =>
      exact .refused (by simp) (hunread (never_read h.run (.inr ⟨_, hpre⟩) (by rw [hact]; rfl) hpost))
  | piped hact hpre =>
      obtain ⟨tr', htr', r', stream, usage, id, rest, hact', hread⟩ := piping_run hr₁ hpre
      have heq := h.request_eq hcc hc (List.mem_append_left _ htr') hact' hread
      have hone := h.oneShot k cc hcc
      rw [← heq] at hone
      cases hone
  | @atOnce r stream usage w phase resp hact hrec =>
      unfold receive at hrec
      cases hread : readMsg (α := Request) stream with
      | error e =>
          rw [hread] at hrec
          cases hrec
          refine .refused (by simp) (hquiet ?_)
          intro op hask
          obtain ⟨req, rest, hok, -⟩ := hask.here h.run htr hact
          rw [hread] at hok
          cases hok
      | ok p =>
          obtain ⟨req, rest⟩ := p
          rw [hread] at hrec
          dsimp only at hrec
          have hreq := h.request_eq hcc hc htr hact hread
          cases hauth : authz.authorize r req with
          | error e =>
              rw [hauth] at hrec
              cases hrec
              obtain rfl := Authz.authorize_error hauth
              refine .refused (by simp) (hquiet ?_)
              intro op hask
              obtain ⟨-, -, -, hctl⟩ := hask.here h.run htr hact
              rw [Authz.authorize_of_control req hctl] at hauth
              cases hauth
          | ok u =>
              rw [hauth] at hrec
              obtain ⟨hro, hseen⟩ := Request.seen (hreq ▸ h.oneShot k cc hcc) hrec
              rw [hreq] at hro hseen
              exact .seen hro htr hact hseen
  | @returned r os e resp hact hpre he hresp =>
      obtain ⟨t, os', task, next, heq, ht, hmem, hm⟩ := manager_moves hv he
      rw [hact] at heq
      cases heq
      have hdoes : task.call.Does (taker (l₁ ++ tr :: l₂) · = some c) (RanAs (l₁ ++ tr :: l₂)) e :=
        hm.does (fun id spec ho => taker_mono ((sourced_run h₀ hr₁).owners c task id spec ht ho) _)
          ((aims_run h₀.idle.1 hr₁ c task ht).mono fun _ _ h => h.mono) e hmem
      rcases stemming_run h₀.idle.1 hr₁ c task ht with
        ⟨tr', htr', r', stream, usage, req, rest, hact', hread, hop, -⟩ | ⟨hkill, -⟩
      · have hreq := h.request_eq hcc hc (List.mem_append_left _ htr') hact' hread
        exact .done (hreq ▸ hop) htr hact he hdoes hresp
      · rw [hkill] at hdoes
        rw [Call.killAll_silent hdoes] at hresp
        cases hresp

theorem Wired.answered (h : Wired cfg authz w₀ ls n) (hcc : n.calls k = some cc) {resp : Response}
    (hend : cc.stage = .ended (.ok resp)) :
    ∃ c, cc.conn = some c ∧ ∃ tr ∈ ls, Answers authz tr c resp := by
  have hplaced := h.placed k cc hcc
  simp only [ClientCall.Placed, hend] at hplaced
  obtain ⟨c, r, frame, hc, hw, hmem⟩ := hplaced
  obtain ⟨resp', hw', tr, htr, -, hans⟩ := sent_run h.run hmem
  have hsame : resp' = resp := by
    have hread := readMsg_writeMsg hw []
    rw [readMsg_writeMsg hw' []] at hread
    cases hread
    rfl
  subst hsame
  exact ⟨c, hc, tr, htr, hans⟩

/-- **A response tells the truth.**  When a call ends with a response, this is the outcome of the
call's own operation, or what a `List` or `Query` saw at one moment, or a refusal; and after a
refusal the supervisor has done nothing for the call, nor will it. -/
theorem response_truthful (h₀ : Initial w₀)
    (hr : Lts.Run (Net.step attempts cfg authz) (Net.start w₀) l n) (hcc : n.calls k = some cc)
    {resp : Response} (hend : cc.stage = .ended (.ok resp)) :
    ∃ c, cc.conn = some c ∧ Truthful (serviced l) c cc.req resp := by
  have h := wired_run hr
  obtain ⟨c, hc, tr, htr, hans⟩ := h.answered hcc hend
  exact ⟨c, hc, h.truthful h₀ hcc hc htr hans⟩

theorem child_stays {s s' : Supervisor EndpointId F} (hr : Lts.Run (serve cfg authz) s ls s')
    {i : LaunchId} {ch : Child} (hch : s.procs.mgr.children[i]? = some ch) :
    ∃ ch', s'.procs.mgr.children[i]? = some ch' ∧ ch'.handle = ch.handle ∧ ch'.spec = ch.spec ∧
      ch'.pid = ch.pid := by
  refine (world_invariant hr (I := fun w => ∃ ch', w.mgr.children[i]? = some ch' ∧
    ch'.handle = ch.handle ∧ ch'.spec = ch.spec ∧ ch'.pid = ch.pid) ⟨ch, hch, rfl, rfl, rfl⟩ ?_).1
  rintro w w' b es hstep ⟨ch', hch', hh, hs, hp⟩
  obtain ⟨ch'', hch'', hh', hs', hp', -⟩ := step_child hstep hch'
  exact ⟨ch'', hch'', hh'.trans hh, hs'.trans hs, hp'.trans hp⟩

/-- A `spawn` that returns in slot `c` took its handle there, and its child is there to stay. -/
theorem spawned_taken (h₀ : Initial w₀) {s : Supervisor EndpointId F}
    (hr : Lts.Run (serve cfg authz) (Supervisor.new w₀) ls s) {tr : ServiceTr EndpointId F} {os : Os}
    {id : Handle} {pid : Pid} (htr : tr ∈ ls) (hact : tr.act = .sched c os)
    (he : .manager (.spawned id pid) ∈ tr.evs) :
    taker ls id = some c ∧ ∃ ch ∈ s.procs.mgr.children, ch.handle = id ∧ ch.pid = pid := by
  obtain ⟨l₁, l₂, rfl, hr₁, hv, hr₂⟩ := hr.mem_split htr
  have hinv : Inv tr.pre.procs :=
    (world_invariant hr₁ (I := Inv) (inv_initial h₀) (fun hs hI => inv_step hs hI)).1
  obtain ⟨t, os', task, next, heq, ht, hmem, hm⟩ := manager_moves hv he
  rw [hact] at heq
  cases heq
  obtain ⟨spec, ld, rfl, rfl⟩ := hm.spawned_mem hmem
  have htake := (sourced_run h₀ hr₁).owners c _ id spec ht rfl
  obtain ⟨ch, hch, rfl, -, hpid, -⟩ := hinv.tracks c _ ld.child id spec ht rfl rfl
  obtain ⟨ch', hch', hh, -, hp⟩ := child_stays (hr₂.cons hv) hch
  exact ⟨taker_mono htake _, ch', List.mem_of_getElem? hch', hh, hp.trans (hpid ld rfl)⟩

omit [Codec Request] [DecidableEq EndpointId] [Tokens F] in
theorem Truthful.spawned {req : Request} {id : Handle} {pid : Pid}
    (h : Truthful ls c req (.spawned id pid)) :
    ∃ tr ∈ ls, ∃ os, tr.act = .sched c os ∧ .manager (.spawned id pid) ∈ tr.evs := by
  cases h with
  | @done op tr os e _ hop htr hact he hemit hresp =>
      have heq : e = .spawned id pid := by
        cases e with
        | spawned id' pid' =>
            cases hresp
            rfl
        | spawnFailed id' => cases hresp
        | stopped id' res | signalled id' sig res | forgotten id' res =>
            cases res <;> cases hresp
        | _ => cases hresp
      exact ⟨tr, htr, os, hact, heq ▸ he⟩
  | @seen tr r stream usage _ hro htr hact hh =>
      cases req with
      | list => cases hh
      | query i =>
          cases hq : tr.pre.procs.mgr.query usage i <;> simp only [handle, dispatch, hq] at hh <;>
            cases hh
      | subscribe i =>
          cases hs : tr.pre.procs.mgr.subscribe i <;> simp only [handle, hs] at hh <;> cases hh
      | _ => cases hro

omit [Codec Request] [Codec Record] in
theorem Inv.alive_inj {w : World} (hI : Inv w) {i i' : LaunchId} {ch ch' : Child}
    (hch : w.mgr.children[i]? = some ch) (hch' : w.mgr.children[i']? = some ch')
    (hh : ch.handle = ch'.handle) (ha : ch.alive = true) (ha' : ch'.alive = true) : i = i' := by
  obtain ⟨t, task, ht, ho, hholds⟩ := hI.held i ch hch ha
  obtain ⟨t', task', ht', ho', hholds'⟩ := hI.held i' ch' hch' ha'
  rw [← hh] at ho'
  obtain rfl := hI.unique t t' task task' _ _ _ ht ht' ho ho'
  obtain rfl := Option.some.inj (ht.symm.trans ht')
  exact Option.some.inj (hholds.symm.trans hholds')

/-- What is known of the calls and the children of a network after the transitions `ls` of its
supervisor. -/
structure SpawnsOnce (authz : Authz EndpointId) (ls : List (ServiceTr EndpointId F))
    (n : Net EndpointId F ε) : Prop where
  /-- A child runs the spec of the one `Spawn` that was read where its handle was taken. -/
  requested : ∀ ch ∈ n.sup.procs.mgr.children, ∃ c tr r stream usage rest,
    taker ls ch.handle = some c ∧ requestsOn c ls = [tr] ∧ tr.act = .request c r stream usage ∧
    readMsg stream = .ok (Request.spawn ch.spec, rest) ∧ (authz.openAll = true ∨ r ∈ authz.control)
  /-- One connection takes one handle. -/
  inj : ∀ id id' c, taker ls id = some c → taker ls id' = some c → id = id'
  /-- Of the children of a handle at most one is alive. -/
  alive : ∀ (i i' : LaunchId) ch ch', n.sup.procs.mgr.children[i]? = some ch →
    n.sup.procs.mgr.children[i']? = some ch' → ch.handle = ch'.handle → ch.alive = true →
    ch'.alive = true → i = i'
  /-- The call on that connection has asked for the child. -/
  spec : ∀ k cc c, n.calls k = some cc → cc.conn = some c → ∀ ch ∈ n.sup.procs.mgr.children,
    taker ls ch.handle = some c → cc.req = .spawn ch.spec
  /-- A call is answered with its own handle. -/
  answered : ∀ k cc id pid, n.calls k = some cc → cc.stage = .ended (.ok (.spawned id pid)) →
    ∃ c, cc.conn = some c ∧ taker ls id = some c ∧
      ∃ ch ∈ n.sup.procs.mgr.children, ch.handle = id ∧ ch.pid = pid
  /-- No two calls are answered with one handle. -/
  distinct : ∀ k k' cc cc' id pid pid', n.calls k = some cc → n.calls k' = some cc' →
    cc.stage = .ended (.ok (.spawned id pid)) → cc'.stage = .ended (.ok (.spawned id pid')) → k = k'

/-- **One spawn for one call.**  However the clients and the supervisor take turns, each child is
the work of one `Spawn` and each answer `Spawned` that of the call's own. -/
theorem spawn_exactly_once (h₀ : Initial w₀)
    (hr : Lts.Run (Net.step attempts cfg authz) (Net.start w₀) l n) :
    SpawnsOnce authz (serviced l) n := by
  have h := wired_run hr
  have hsrc := sourced_run h₀ h.run
  have hinv : Inv n.sup.procs :=
    (world_invariant h.run (I := Inv) (inv_initial h₀) fun hs hI => inv_step hs hI).1
  have hspawned : ∀ {k cc id pid}, n.calls k = some cc →
      cc.stage = .ended (.ok (.spawned id pid)) →
      ∃ c, cc.conn = some c ∧ taker (serviced l) id = some c ∧
        ∃ ch ∈ n.sup.procs.mgr.children, ch.handle = id ∧ ch.pid = pid := by
    intro k cc id pid hcc hend
    obtain ⟨c, hc, tr, htr, hans⟩ := h.answered hcc hend
    obtain ⟨tr', htr', os, hact, he⟩ := (h.truthful h₀ hcc hc htr hans).spawned
    exact ⟨c, hc, spawned_taken h₀ h.run htr' hact he⟩
  refine ⟨?_, hsrc.inj, fun _ _ _ _ => hinv.alive_inj, ?_, fun _ _ _ _ => hspawned, ?_⟩
  · intro ch hch
    obtain ⟨c, hc, tr, htr, r, stream, usage, req, rest, hact, hread, hop, hctl⟩ :=
      hsrc.children ch hch
    refine ⟨c, tr, r, stream, usage, rest, hc, ?_, hact, ?_, hctl⟩
    · have hmem : tr ∈ requestsOn c (serviced l) :=
        List.mem_filter.mpr ⟨htr, by rw [hact]; simp [ServiceAction.reads]⟩
      obtain ⟨tr', htr'⟩ := List.length_eq_one_iff.mp
        (Nat.le_antisymm (reads_run h.run c).2 (List.length_pos_of_mem hmem))
      rw [htr', List.mem_singleton] at hmem
      rw [htr', hmem]
    · cases req <;> cases hop
      exact hread
  · intro k cc c hcc hconn ch hch hc
    obtain ⟨t, ht, tr, htr, r, stream, usage, req, rest, hact, hread, hop, -⟩ := hsrc.children ch hch
    rw [hc] at ht
    obtain rfl := Option.some.inj ht
    rw [← h.request_eq hcc hconn htr hact hread]
    cases req <;> cases hop
    rfl
  · intro k k' cc cc' id pid pid' hcc hcc' hend hend'
    obtain ⟨c, hc, htake, -⟩ := hspawned hcc hend
    obtain ⟨c', hc', htake', -⟩ := hspawned hcc' hend'
    rw [htake] at htake'
    obtain rfl := Option.some.inj htake'
    obtain ⟨st, hst, ho⟩ := h.conn k cc _ hcc hc
    obtain ⟨st', hst', ho'⟩ := h.conn k' cc' _ hcc' hc'
    rw [hst] at hst'
    obtain rfl := Option.some.inj hst'
    rw [ho] at ho'
    exact Option.some.inj ho'

end Results

theorem response_truthful_spawn : ∃ l n c,
    Lts.Run (@Net.step _ ℚ String _ recordCodec requestCodec _ (ClientConfig.fromCli (F := ℚ) {}).attempts
      threeBuckets twoPeers) (Net.start (World.start .new)) l n ∧
    @Truthful _ ℚ recordCodec (serviced l) c (.spawn { cmd := "a" })
      (.spawned 2 100) := by
  obtain ⟨l, n, cc, hr, hcc, hreq, hend⟩ := spawnCall_run
  obtain ⟨c, -, htruth⟩ := @response_truthful _ _ _ requestCodec _ recordCodec _ _ threeBuckets twoPeers
    _ _ _ _ _ (.inl rfl) hr hcc _ hend
  exact ⟨l, n, c, hr, hreq ▸ htruth⟩

theorem spawn_exactly_once_spawn : ∃ l n,
    Lts.Run (@Net.step _ ℚ String _ recordCodec requestCodec _ (ClientConfig.fromCli (F := ℚ) {}).attempts
      threeBuckets twoPeers) (Net.start (World.start .new)) l n ∧
    (∃ cc, n.calls 0 = some cc ∧ cc.stage = .ended (.ok (.spawned 2 100))) ∧
    @SpawnsOnce _ ℚ _ requestCodec twoPeers (serviced l) n := by
  obtain ⟨l, n, cc, hr, hcc, -, hend⟩ := spawnCall_run
  exact ⟨l, n, hr, ⟨cc, hcc, hend⟩, @spawn_exactly_once _ _ _ requestCodec _ recordCodec _ _
    threeBuckets twoPeers _ _ _ (.inl rfl) hr⟩

end MeshSupervisor
