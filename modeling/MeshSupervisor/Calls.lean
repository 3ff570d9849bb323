import MeshSupervisor.Mesh

/-! # A call, step by step and at once

`Client.request` computes at once what a call comes to, given all that the network will do to it;
in `Mesh.lean` a call takes its steps between those of the others.  `ended_is_request`: the two
agree, so that what is known of `request` (how many attempts it makes, that it writes its request
once) holds for every call in every run. -/

namespace MeshSupervisor

open Wire (Bytes Codec)

/-! ### `request` after some failed attempts -/

section Calls

attribute [local instance] responseCodec

variable {EndpointId F ε : Type}

def attemptErrors (k : ℕ) (l : List (NetTr EndpointId F ε)) : List ε :=
  l.filterMap fun tr =>
    match tr.act with
    | .attemptFails k' e => if k' = k then some e else none
    | _ => none

/-- Attempts that fail with these errors, and then succeed. -/
def dialed (es : List ε) (i : ℕ) : Client.Attempt ε :=
  match es[i - 1]? with
  | some e => .connectFails e
  | none => .opens

theorem dialed_of_le {es : List ε} {i : ℕ} (hi : 1 ≤ i) (hle : i ≤ es.length) :
    ∃ e, es[i - 1]? = some e ∧ dialed es i = .connectFails e := by
  have hlt : i - 1 < es.length := by omega
  refine ⟨es[i - 1], List.getElem?_eq_getElem hlt, ?_⟩
  unfold dialed
  rw [List.getElem?_eq_getElem hlt]

theorem dialed_of_lt {es : List ε} {i : ℕ} (hlt : es.length < i) : dialed es i = .opens := by
  unfold dialed
  rw [List.getElem?_eq_none (by omega)]

section Dial

open Client

variable {F : Type} {args : ArgMatches F} {t : Transport ε} {es : List ε}

theorem connectBi_dialed (ht : t.attempts = dialed es)
    (hlt : es.length < (ClientConfig.fromCli args).attempts) :
    ∃ acts, connectBi (ClientConfig.fromCli args) t = (acts, .returned (.ok (es.length + 1))) ∧
      streams acts = [es.length + 1] ∧ ∀ conn, bytesOn conn acts = [] := by
  have hopens : t.attempts (es.length + 1) = .opens := by
    rw [ht]
    exact dialed_of_lt (by omega)
  rcases connectBi_spec args t with
    ⟨s, acts, hpos, -, hs, hbefore, hstreams, hbytes, heq⟩ | ⟨e, acts, hall, -⟩
  · have hsame : s = es.length + 1 := by
      rcases Nat.lt_trichotomy s (es.length + 1) with hless | heq | hmore
      · obtain ⟨e, -, hd⟩ := dialed_of_le hpos (Nat.le_of_lt_succ hless)
        rw [ht, hd] at hs
        cases hs
      · exact heq
      · exact absurd hopens (hbefore _ (by omega) hmore)
    subst hsame
    exact ⟨acts, heq, hstreams, hbytes⟩
  · exact absurd hopens (hall _ (by omega) (by omega))

theorem connectBi_failed (ht : t.attempts = dialed es)
    (hlen : es.length = (ClientConfig.fromCli args).attempts) {e : ε} (he : es.getLast? = some e) :
    ∃ acts, connectBi (ClientConfig.fromCli args) t = (acts, .returned (.error (.transport e))) ∧
      streams acts = [] ∧ ∀ conn, bytesOn conn acts = [] := by
  have hfails : ∀ i, 1 ≤ i → i ≤ es.length → t.attempts i ≠ .opens := by
    intro i hi hle hopens
    obtain ⟨e, -, hd⟩ := dialed_of_le hi hle
    rw [ht, hd] at hopens
    cases hopens
  have houtcome : (connectBi (ClientConfig.fromCli args) t).2 = .returned (.error (.transport e)) := by
    obtain ⟨c, hc, hends⟩ := withRetry_spec args fun i => (t.attempts i).outcome i
    have hpos := hends.pos
    have hlast := hends.last
    have hout := hends.outcome
    rw [Nat.add_sub_cancel_left] at hlast hout
    have hle : c ≤ es.length := by omega
    obtain ⟨e', he', hd⟩ := dialed_of_le hpos hle
    have hc' : c = es.length := by
      rcases hlast with ⟨v, hv⟩ | hlast
      · rw [ht, hd] at hv
        cases hv
      · omega
    rw [List.getLast?_eq_getElem?, ← hc', he'] at he
    obtain rfl := Option.some.inj he
    unfold connectBi
    dsimp only
    rw [hout, ht, hd]
    rfl
  rcases connectBi_spec args t with ⟨s, acts, hpos, hle, hs, -⟩ | ⟨e', acts, -, hstreams, hbytes, heq⟩
  · exact absurd hs (hfails s hpos (by omega))
  · rw [heq] at houtcome
    cases houtcome
    exact ⟨acts, heq, hstreams, hbytes⟩

variable [Codec Request]

theorem request_dialed (ht : t.attempts = dialed es)
    (hlt : es.length < (ClientConfig.fromCli args).attempts) (req : Request) :
    streams (request (ClientConfig.fromCli args) t req).1 = [es.length + 1] ∧
      bytesOn (es.length + 1) (request (ClientConfig.fromCli args) t req).1 =
        bytesOn (es.length + 1) (writeRequest t (es.length + 1) req).1 ∧
      (request (ClientConfig.fromCli args) t req).2 = .returned
        (match (writeRequest t (es.length + 1) req).2 with
        | .error e => .error e
        | .ok () => (awaitResponse t (es.length + 1)).2) := by
  obtain ⟨acts, hdial, hstreams, hbytes⟩ := connectBi_dialed ht hlt
  have hwait := awaitResponse_writes t (es.length + 1)
  have hsilent : bytesOn (es.length + 1) (awaitResponse t (es.length + 1)).1 = [] :=
    List.prefix_nil.mp hwait.bytes
  have hwrite : streams (writeRequest t (es.length + 1) req).1 = [] := by
    unfold writeRequest
    split
    · rfl
    · split <;> rfl
  unfold request exchange
  rw [hdial]
  dsimp only
  generalize writeRequest t (es.length + 1) req = w at hwrite ⊢
  obtain ⟨wrote, e | ⟨⟩⟩ := w
  · refine ⟨?_, ?_, rfl⟩
    · rw [streams_append, hstreams, hwrite]
      rfl
    · rw [bytesOn_append, hbytes, List.nil_append]
  · refine ⟨?_, ?_, rfl⟩
    · rw [streams_append, streams_append, hstreams, hwrite, hwait.streams]
      rfl
    · rw [bytesOn_append, bytesOn_append, hbytes, hsilent, List.append_nil, List.nil_append]

theorem request_failed (ht : t.attempts = dialed es)
    (hlen : es.length = (ClientConfig.fromCli args).attempts) {e : ε} (he : es.getLast? = some e)
    (req : Request) :
    streams (request (ClientConfig.fromCli args) t req).1 = [] ∧
      (∀ conn, bytesOn conn (request (ClientConfig.fromCli args) t req).1 = []) ∧
      (request (ClientConfig.fromCli args) t req).2 = .returned (.error (.transport e)) := by
  obtain ⟨acts, hdial, hstreams, hbytes⟩ := connectBi_failed ht hlen he
  unfold request exchange
  rw [hdial]
  exact ⟨hstreams, hbytes, rfl⟩

end Dial

/-! ### A call of the network is a call of `request` -/

section Follow

variable {F : Type} [Codec Request]

/-- What was written on the stream of a call. -/
def Net.sentBy (n : Net EndpointId F ε) (cc : ClientCall EndpointId ε) : Bytes :=
  ((cc.conn.bind n.streams).map (·.up)).getD []

/-- The call is one of `request`, against the transport `t`. -/
structure ClientCall.IsRequest (args : ArgMatches F) (cc : ClientCall EndpointId ε) (es : List ε)
    (up : Bytes) (result : Except (Client.Error ε) Response) (t : Client.Transport ε) : Prop where
  attempts : t.attempts = dialed es
  outcome : (Client.request (ClientConfig.fromCli args) t cc.req).2 = .returned result
  streams : Client.streams (Client.request (ClientConfig.fromCli args) t cc.req).1 =
    if cc.conn.isSome then [es.length + 1] else []
  bytes : Client.bytesOn (es.length + 1) (Client.request (ClientConfig.fromCli args) t cc.req).1 = up

/-- How far a call has come, after attempts that failed with `es`. -/
def ClientCall.Follows (args : ArgMatches F) (cc : ClientCall EndpointId ε) (es : List ε)
    (up : Bytes) : Prop :=
  match cc.stage with
  | .dialing i => i = es.length + 1 ∧ i ≤ (ClientConfig.fromCli args).attempts
  | .opened => es.length < (ClientConfig.fromCli args).attempts ∧ up = []
  | .awaiting => es.length < (ClientConfig.fromCli args).attempts ∧ writeMsg cc.req = .ok up
  | .ended result => es.length ≤ (ClientConfig.fromCli args).attempts ∧
      ∃ t, cc.IsRequest args es up result t

/-- The transport of a call that got its stream. -/
def Client.Transport.after (es : List ε) (writeFails : Option (ℕ × ε)) (reply : Client.Reply ε) :
    Client.Transport ε where
  attempts := dialed es
  writeFails := writeFails
  copyFails := none
  flushFails := none
  finishFails := none
  reply := reply

theorem ClientCall.IsRequest.awaited {args : ArgMatches F} (cc : ClientCall EndpointId ε)
    {es : List ε} {up : Bytes} (hlt : es.length < (ClientConfig.fromCli args).attempts)
    (hw : writeMsg cc.req = .ok up) (hc : cc.conn.isSome = true) (reply : Client.Reply ε) :
    cc.IsRequest args es up (Client.awaitResponse (.after es none reply) (es.length + 1)).2
      (.after es none reply) := by
  obtain ⟨hs, hb, ho⟩ := request_dialed (t := .after es none reply) rfl hlt cc.req
  have hwrote : Client.writeRequest (.after es none reply) (es.length + 1) cc.req =
      ([.write (es.length + 1) up], .ok ()) := by
    unfold Client.writeRequest
    rw [hw]
    rfl
  rw [hwrote] at hb ho
  constructor
  · rfl
  · exact ho
  · rw [hs, if_pos hc]
  · rw [hb]
    simp [Client.bytesOn]

theorem ClientCall.IsRequest.failed {args : ArgMatches F} {cc : ClientCall EndpointId ε}
    {es : List ε} {e : ε} (hlen : es.length = (ClientConfig.fromCli args).attempts)
    (he : es.getLast? = some e) (hc : cc.conn = none) :
    cc.IsRequest args es [] (.error (.transport e)) (.after es none .timedOut) := by
  obtain ⟨hstreams, hbytes, hout⟩ := request_failed
    (t := .after es none .timedOut) rfl hlen he cc.req
  refine ⟨rfl, hout, ?_, hbytes _⟩
  rw [hstreams, hc]
  rfl

theorem ClientCall.IsRequest.unframed {args : ArgMatches F} {cc : ClientCall EndpointId ε}
    {es : List ε} {msg : String} (hlt : es.length < (ClientConfig.fromCli args).attempts)
    (hw : writeMsg cc.req = .error msg) (hc : cc.conn.isSome = true) :
    cc.IsRequest args es [] (.error (.frame msg)) (.after es none .timedOut) := by
  obtain ⟨hs, hb, ho⟩ := request_dialed (t := .after es none .timedOut) rfl hlt cc.req
  have hwrote : Client.writeRequest (.after es none .timedOut) (es.length + 1) cc.req =
      ([], .error (.frame msg)) := by
    unfold Client.writeRequest
    rw [hw]
  rw [hwrote] at hb ho
  refine ⟨rfl, ho, ?_, hb⟩
  rw [hs, if_pos hc]

theorem ClientCall.IsRequest.cut {args : ArgMatches F} {cc : ClientCall EndpointId ε}
    {es : List ε} {frame : Bytes} (hlt : es.length < (ClientConfig.fromCli args).attempts)
    (hw : writeMsg cc.req = .ok frame) (hc : cc.conn.isSome = true) (i : ℕ) (e : ε) :
    cc.IsRequest args es (frame.take i) (.error (.transport e))
      (.after es (some (i, e)) .timedOut) := by
  obtain ⟨hs, hb, ho⟩ := request_dialed (t := .after es (some (i, e)) .timedOut) rfl hlt cc.req
  have hwrote : Client.writeRequest (.after es (some (i, e)) .timedOut) (es.length + 1) cc.req =
      ([.write (es.length + 1) (frame.take i)], .error (.transport e)) := by
    unfold Client.writeRequest
    rw [hw]
    rfl
  rw [hwrote] at hb ho
  constructor
  · rfl
  · exact ho
  · rw [hs, if_pos hc]
  · rw [hb]
    simp [Client.bytesOn]

def NetAction.caller : NetAction EndpointId ε → Option ℕ
  | .call k _ _ | .attemptFails k _ | .opens k _ | .writes k | .writeFails k _ _ | .receives k
  | .waitFails k _ => some k
  | .foreign _ _ _ | .serve _ => none

variable [DecidableEq EndpointId] [Codec Record] [Tokens F] {cfg : RateLimiterConfig F}
  {authz : Authz EndpointId} {w₀ : World} {ls : List (ServiceTr EndpointId F)}
  {l : List (NetTr EndpointId F ε)} {n n' : Net EndpointId F ε} {k : ℕ}
  {cc : ClientCall EndpointId ε}

theorem Wired.sentBy_other (h : Wired cfg authz w₀ ls n) (hcc : n.calls k = some cc) {c : ℕ}
    {m : Net EndpointId F ε} (hother : ∀ c', c' ≠ c → m.streams c' = n.streams c')
    (howner : ∀ st, n.streams c = some st → st.owner ≠ some k) : m.sentBy cc = n.sentBy cc := by
  unfold Net.sentBy
  cases hc : cc.conn with
  | none => rfl
  | some c' =>
      obtain ⟨st, hst, ho⟩ := h.conn k cc c' hcc hc
      have hne : c' ≠ c := by
        rintro rfl
        exact howner st hst ho
      rw [Option.bind_some, Option.bind_some, hother c' hne]

theorem Wired.sentBy_push_other (h : Wired cfg authz w₀ ls n) (hcc : n.calls k = some cc)
    {k' c : ℕ} {cc' cc₁ : ClientCall EndpointId ε} (hne : k' ≠ k) (hcc' : n.calls k' = some cc')
    (hc' : cc'.conn = some c) (bytes : Bytes) :
    ((n.setCall k' cc₁).push c bytes).sentBy cc = n.sentBy cc := by
  apply h.sentBy_other hcc (c := c)
  · intro c' hne'
    rw [Net.streams_push, if_neg hne']
    rfl
  · intro st hst ho
    obtain ⟨st', hst', ho'⟩ := h.conn k' cc' c hcc' hc'
    rw [hst] at hst'
    obtain rfl := Option.some.inj hst'
    rw [ho] at ho'
    exact hne (Option.some.inj ho').symm

theorem Wired.others (h : Wired cfg authz w₀ ls n) {attempts : ℕ} {act : NetAction EndpointId ε}
    {evs : List (ServiceEvent EndpointId)} (hm : Net.Moves attempts cfg authz n act n' evs)
    (hk : act.caller ≠ some k) :
    n'.calls k = n.calls k ∧ attemptErrors k [⟨n, act, evs, n'⟩] = [] ∧
      ∀ cc, n.calls k = some cc → n'.sentBy cc = n.sentBy cc := by
  have hne : ∀ {k' : ℕ}, act.caller = some k' → k' ≠ k := by
    rintro k' hcaller rfl
    exact hk hcaller
  have hset : ∀ {k' : ℕ} {cc' : ClientCall EndpointId ε}, k' ≠ k →
      (n.setCall k' cc').calls k = n.calls k := by
    intro k' cc' hne'
    rw [Net.calls_setCall, if_neg (Ne.symm hne')]
  cases hm with
  | call => exact ⟨hset (hne rfl), rfl, fun _ _ => rfl⟩
  | attemptFails =>
      refine ⟨hset (hne rfl), ?_, fun _ _ => rfl⟩
      simp [attemptErrors, hne rfl]
  | @opens k' c peer req conn i hcc' hfree =>
      refine ⟨hset (hne rfl), rfl, fun cc hcc => h.sentBy_other hcc (c := c) ?_ ?_⟩
      · intro c' hne'
        rw [Net.streams_setStream, if_neg hne']
        rfl
      · intro st hst
        rw [hst] at hfree
        cases hfree
  | unframed => exact ⟨hset (hne rfl), rfl, fun _ _ => rfl⟩
  | writes hcc' =>
      exact ⟨hset (hne rfl), rfl, fun cc hcc => h.sentBy_push_other hcc (hne rfl) hcc' rfl _⟩
  | writeFails hcc' =>
      exact ⟨hset (hne rfl), rfl, fun cc hcc => h.sentBy_push_other hcc (hne rfl) hcc' rfl _⟩
  | receives => exact ⟨hset (hne rfl), rfl, fun _ _ => rfl⟩
  | waitFails => exact ⟨hset (hne rfl), rfl, fun _ _ => rfl⟩
  | @foreignOpens c peer bytes hfree =>
      refine ⟨rfl, rfl, fun cc hcc => h.sentBy_other hcc (c := c) ?_ ?_⟩
      · intro c' hne'
        rw [Net.streams_setStream, if_neg hne']
      · intro st hst
        rw [hst] at hfree
        cases hfree
  | @foreignWrites c peer bytes st hst hforeign =>
      refine ⟨rfl, rfl, fun cc hcc => h.sentBy_other hcc (c := c) ?_ ?_⟩
      · intro c' hne'
        rw [Net.streams_push, if_neg hne']
      · intro st' hst' ho
        rw [hst] at hst'
        obtain rfl := Option.some.inj hst'
        rw [ho] at hforeign
        cases hforeign
  | serve =>
      refine ⟨rfl, rfl, ?_⟩
      intro cc _
      unfold Net.sentBy
      cases cc.conn with
      | none => rfl
      | some c =>
          show (((n.streams c).map _).map _).getD [] = _
          rw [Option.map_map]
          rfl

/-- Call `k` has come as far as `request` would have. -/
def Net.Tracks (args : ArgMatches F) (k : ℕ) (l : List (NetTr EndpointId F ε))
    (n : Net EndpointId F ε) : Prop :=
  match n.calls k with
  | none => attemptErrors k l = []
  | some cc => cc.Follows args (attemptErrors k l) (n.sentBy cc)

omit [Codec Request] [DecidableEq EndpointId] [Codec Record] [Tokens F] in
theorem attemptErrors_append (k : ℕ) (l l' : List (NetTr EndpointId F ε)) :
    attemptErrors k (l ++ l') = attemptErrors k l ++ attemptErrors k l' := List.filterMap_append

omit [DecidableEq EndpointId] [Codec Record] [Tokens F] in
theorem Net.Tracks.some {args : ArgMatches F} (h : n.Tracks args k l) (hcc : n.calls k = some cc) :
    cc.Follows args (attemptErrors k l) (n.sentBy cc) := by
  unfold Net.Tracks at h
  rw [hcc] at h
  exact h

omit [DecidableEq EndpointId] [Codec Record] [Tokens F] in
theorem Net.Tracks.of_some {args : ArgMatches F} (hcc : n.calls k = Option.some cc)
    (h : cc.Follows args (attemptErrors k l) (n.sentBy cc)) : n.Tracks args k l := by
  unfold Net.Tracks
  rw [hcc]
  exact h

theorem Wired.sentBy_push (h : Wired cfg authz w₀ ls n) (hcc : n.calls k = some cc) {c : ℕ}
    (hc : cc.conn = some c) (stage : CallStage ε) (bytes : Bytes) :
    ((n.setCall k ⟨cc.peer, cc.req, some c, stage⟩).push c bytes).sentBy
      ⟨cc.peer, cc.req, some c, stage⟩ = n.sentBy cc ++ bytes := by
  obtain ⟨st, hst, -⟩ := h.conn k cc c hcc hc
  have hold : n.sentBy cc = st.up := by
    unfold Net.sentBy
    rw [hc, Option.bind_some, hst]
    rfl
  rw [hold]
  unfold Net.sentBy
  rw [Option.bind_some, Net.streams_push, if_pos rfl]
  show (((n.streams c).map _).map _).getD [] = _
  rw [hst]
  rfl

theorem Wired.follows {args : ArgMatches F} (h : Wired cfg authz w₀ ls n) (htr : n.Tracks args k l)
    {act : NetAction EndpointId ε} {evs : List (ServiceEvent EndpointId)}
    (hm : Net.Moves (ClientConfig.fromCli args).attempts cfg authz n act n' evs)
    (hk : act.caller = some k) : n'.Tracks args k (l ++ [⟨n, act, evs, n'⟩]) := by
  have hself : ∀ (cc : ClientCall EndpointId ε), (n.setCall k cc).calls k = some cc := by
    intro cc
    rw [Net.calls_setCall, if_pos rfl]
  have hsame : (∀ e, act ≠ .attemptFails k e) →
      attemptErrors k (l ++ [⟨n, act, evs, n'⟩]) = attemptErrors k l := by
    intro hne
    rw [attemptErrors_append]
    cases act with
    | attemptFails k' e =>
        obtain rfl : k' = k := Option.some.inj hk
        exact absurd rfl (hne e)
    | _ => exact List.append_nil _
  cases hm with
  | call hnone =>
      obtain rfl := Option.some.inj hk
      refine .of_some (hself _) ?_
      rw [hsame (by simp)]
      unfold Net.Tracks at htr
      rw [hnone] at htr
      have hpos : 1 ≤ (ClientConfig.fromCli args).attempts := Nat.le_max_right _ _
      refine ⟨?_, hpos⟩
      rw [htr]
      rfl
  | @attemptFails k' e peer req conn i hcc =>
      obtain rfl := Option.some.inj hk
      obtain ⟨hi, hle⟩ := htr.some hcc
      have herr : ∀ m : Net EndpointId F ε,
          attemptErrors k' (l ++ [⟨n, .attemptFails k' e, [], m⟩]) = attemptErrors k' l ++ [e] := by
        intro m
        simp [attemptErrors]
      have hlen : (attemptErrors k' l ++ [e]).length = i := by
        rw [hi, List.length_append]
        rfl
      have hconn : conn = none := h.placed k' _ hcc
      subst hconn
      refine .of_some (hself _) ?_
      rw [herr]
      unfold ClientCall.Follows
      split_ifs with hlast
      · exact ⟨by omega, _, .failed (hlen.trans hlast) (List.getLast?_concat ..) rfl⟩
      · simp only
        omega
  | opens hcc =>
      obtain rfl := Option.some.inj hk
      obtain ⟨hi, hle⟩ := htr.some hcc
      refine .of_some (hself _) ?_
      rw [hsame (by simp)]
      refine ⟨by omega, ?_⟩
      unfold Net.sentBy
      rw [Option.bind_some, Net.streams_setStream, if_pos rfl]
      rfl
  | @unframed k' c peer req msg hcc hw =>
      obtain rfl := Option.some.inj hk
      obtain ⟨hlt, hnil⟩ := htr.some hcc
      refine .of_some (hself _) ?_
      let cc' : ClientCall EndpointId ε := ⟨peer, req, some c, .ended (.error (.frame msg))⟩
      have hend : cc'.IsRequest args _ [] _ _ := .unframed hlt hw rfl
      rw [← hnil] at hend
      rw [hsame (by simp)]
      exact ⟨hlt.le, _, hend⟩
  | writes hcc hw =>
      obtain rfl := Option.some.inj hk
      obtain ⟨hlt, hnil⟩ := htr.some hcc
      refine .of_some (hself _) ?_
      rw [hsame (by simp), h.sentBy_push hcc rfl, hnil]
      exact ⟨hlt, hw⟩
  | writeFails hcc hw =>
      obtain rfl := Option.some.inj hk
      obtain ⟨hlt, hnil⟩ := htr.some hcc
      refine .of_some (hself _) ?_
      rw [hsame (by simp), h.sentBy_push hcc rfl, hnil]
      exact ⟨hlt.le, _, .cut hlt hw rfl _ _⟩
  | @receives k' c peer req st resp rest hcc =>
      obtain rfl := Option.some.inj hk
      obtain ⟨hlt, hw⟩ := htr.some hcc
      refine .of_some (hself _) ?_
      rw [hsame (by simp)]
      exact ⟨hlt.le, _, ClientCall.IsRequest.awaited ⟨peer, req, some c, .ended (.ok resp)⟩ hlt hw
        rfl (.arrives resp)⟩
  | @waitFails k' c e peer req hcc =>
      obtain rfl := Option.some.inj hk
      obtain ⟨hlt, hw⟩ := htr.some hcc
      refine .of_some (hself _) ?_
      rw [hsame (by simp)]
      cases e with
      | none =>
          exact ⟨hlt.le, _, ClientCall.IsRequest.awaited
            ⟨peer, req, some c, .ended (.error (.timedOut "response"))⟩ hlt hw rfl .timedOut⟩
      | some e =>
          exact ⟨hlt.le, _, ClientCall.IsRequest.awaited
            ⟨peer, req, some c, .ended (.error (.transport e))⟩ hlt hw rfl (.fails e)⟩
  | foreignOpens => cases hk
  | foreignWrites => cases hk
  | serve => cases hk

/-- One step of the network, for the call that takes it and for the others. -/
theorem Wired.tracks {args : ArgMatches F} (h : Wired cfg authz w₀ ls n) (htr : n.Tracks args k l)
    {act : NetAction EndpointId ε} {evs : List (ServiceEvent EndpointId)}
    (hs : n.step (ClientConfig.fromCli args).attempts cfg authz act = some (n', evs)) :
    n'.Tracks args k (l ++ [⟨n, act, evs, n'⟩]) := by
  have hm := Net.step_moves hs
  by_cases hk : act.caller = some k
  · exact h.follows htr hm hk
  · obtain ⟨hcalls, herr, hsent⟩ := h.others hm hk
    unfold Net.Tracks at htr ⊢
    rw [hcalls, attemptErrors_append, herr, List.append_nil]
    cases hcc : n.calls k with
    | none =>
        rw [hcc] at htr
        exact htr
    | some cc =>
        rw [hcc] at htr
        dsimp only
        rw [hsent cc hcc]
        exact htr

/-- **A call is a call of `request`.**  However the clients and the supervisor take turns, a call
that has ended has ended as `request` does against some transport: one whose first attempts fail as
those of the call did, no more of them than the configuration allows.  It has a stream exactly when
`request` opens one, and this carries what `request` writes. -/
theorem ended_is_request {args : ArgMatches F}
    (hr : Lts.Run (Net.step (ClientConfig.fromCli args).attempts cfg authz) (Net.start w₀) l n)
    (hcc : n.calls k = some cc) {result : Except (Client.Error ε) Response}
    (hend : cc.stage = .ended result) :
    (attemptErrors k l).length ≤ (ClientConfig.fromCli args).attempts ∧
      ∃ t, cc.IsRequest args (attemptErrors k l) (n.sentBy cc) result t := by
  have hall : n.Tracks args k l := by
    clear hcc
    induction hr with
    | nil => rfl
    | snoc hr hs ih => exact (wired_run hr).tracks ih hs
  have hfollows := hall.some hcc
  unfold ClientCall.Follows at hfollows
  rw [hend] at hfollows
  exact hfollows

end Follow

end Calls

theorem ended_is_request_spawn : ∃ l n cc t,
    Lts.Run (@Net.step _ ℚ String _ recordCodec requestCodec _ (ClientConfig.fromCli (F := ℚ) {}).attempts
      threeBuckets twoPeers) (Net.start (World.start .new)) l n ∧ n.calls 0 = some cc ∧
    (attemptErrors 0 l).length ≤ (ClientConfig.fromCli (F := ℚ) {}).attempts ∧
    @ClientCall.IsRequest ℕ String ℚ requestCodec {} cc (attemptErrors 0 l) (n.sentBy cc)
      (.ok (.spawned 2 100)) t := by
  obtain ⟨l, n, cc, hr, hcc, -, hend⟩ := spawnCall_run
  obtain ⟨hle, t, hreq⟩ := @ended_is_request _ _ _ requestCodec _ recordCodec _ threeBuckets twoPeers _ _ _
    _ _ {} hr hcc _ hend
  exact ⟨l, n, cc, t, hr, hcc, hle, hreq⟩

end MeshSupervisor
