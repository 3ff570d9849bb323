import MeshSupervisor.Isolation
import MeshSupervisor.Limiter

/-! # How many responses a request gets

A one-shot request is answered by one frame, written when the operation it calls returns.
`Fits` says which numbers the source's types can hold; the model's own are unbounded.  With
it every response but `List` takes a few hundred bytes at most (`Response.Small`), so that
its frame is written; `listSize` is what `List` takes, and it grows with the process table.

`one_reply_iff`: an admitted, well-formed and authorized one-shot request gets exactly one
frame, which the client reads as a response, if and only if it is not `List` or the table
fits into a frame.  `list_unanswered` is a run with a table that does not. -/

namespace MeshSupervisor

open Wire (Bytes Codec Format)
open Wire.Format (natSize natSize_le natSize_pos)

/-! ### Numbers of the source's types -/

def IsU32 (n : ℕ) : Prop := n < 2 ^ 32
def IsU64 (n : ℕ) : Prop := n < 2 ^ 64
def IsI32 (z : ℤ) : Prop := -2 ^ 31 ≤ z ∧ z < 2 ^ 31

instance (n : ℕ) : Decidable (IsU32 n) := inferInstanceAs (Decidable (n < 2 ^ 32))

def ProcState.Fits : ProcState → Prop
  | .exited (some code) => IsI32 code
  | _ => True

def Usage.Fits (u : Usage) : Prop := IsU64 u.memBytes ∧ IsU64 u.cpuUsec

structure ProcEntry.Fits (e : ProcEntry) : Prop where
  pid : IsU32 e.pid
  status : e.status.Fits
  restarts : IsU32 e.restarts

structure ProcInfo.Fits (i : ProcInfo) : Prop where
  handle : IsU64 i.handle
  pid : IsU32 i.pid
  state : i.state.Fits
  usage : ∀ u, i.usage = some u → u.Fits
  restarts : IsU32 i.restarts

def Request.Fits : Request → Prop
  | .signal id sig => IsU64 id ∧ IsI32 sig
  | .stop id | .stdinStream id | .query id | .subscribe id | .forget id => IsU64 id
  | .spawn _ | .list => True

/-- The numbers that an operation answers with. -/
def Task.Fits : Task → Prop
  | .spawnReturn id _ l => IsU64 id ∧ IsU32 l.pid
  | .signal id sig | .signalSend id _ sig => IsU64 id ∧ IsI32 sig
  | .stop id | .stopReturn id _ | .forget id | .forgetStore id => IsU64 id
  | _ => True

/-- The process table and the operations under way hold numbers of the source's types. -/
structure World.Fits (w : World) : Prop where
  entries : ∀ x ∈ w.mgr.procs.entries, IsU64 x.1 ∧ ProcEntry.Fits x.2
  tasks : ∀ t task, w.tasks t = some task → task.Fits

/-! ### The size of a response -/

def ProcState.size : ProcState → ℕ
  | .exited (some code) => 2 + natSize (if 0 ≤ code then 2 * code.toNat else 2 * (-code).toNat - 1)
  | .exited none => 2
  | .running | .stale => 1

def Usage.size (u : Usage) : ℕ := natSize u.memBytes + natSize u.cpuUsec

def ProcInfo.size (i : ProcInfo) : ℕ :=
  natSize i.handle + natSize i.pid + i.state.size + (1 + i.usage.elim 0 Usage.size) +
    natSize i.restarts

theorem length_procState (s : ProcState) : (procStateFormat.write s).length = s.size := by
  cases s with
  | running => rfl
  | stale => rfl
  | exited code =>
      have hw : procStateFormat.write (.exited code) = 1 :: Format.int.option.write code := rfl
      rw [hw, List.length_cons, Format.length_option]
      cases code with
      | none => rfl
      | some z =>
          simp only [Option.elim_some, Format.length_int, ProcState.size]
          omega

theorem length_procInfo (i : ProcInfo) : (procInfoFormat.write i).length = i.size := by
  have hw : procInfoFormat.write i = (Format.nat.pair (Format.nat.pair (procStateFormat.pair
      (usageFormat.option.pair Format.nat)))).write
        (i.handle, i.pid, i.state, i.usage, i.restarts) := rfl
  have husage : (fun u => (usageFormat.write u).length) = Usage.size := by
    funext u
    have hw : usageFormat.write u = (Format.nat.pair Format.nat).write (u.memBytes, u.cpuUsec) := rfl
    rw [hw, Format.length_pair, Format.length_nat, Format.length_nat]
    rfl
  simp only [hw, Format.length_pair, Format.length_nat, Format.length_option, length_procState,
    husage, ProcInfo.size]
  omega

/-- The bytes that the process table takes in a `List` response. -/
def listSize (m : Manager) (usage : Handle → Option Usage) : ℕ :=
  1 + natSize m.procs.entries.length +
    (m.procs.entries.map (fun x => (m.fillUsage usage (x.2.info x.1)).size)).sum

theorem length_list (m : Manager) (usage : Handle → Option Usage) :
    (responseFormat.write (.list (m.snapshot usage))).length = listSize m usage := by
  have hw : responseFormat.write (.list (m.snapshot usage)) =
    3 :: procInfoFormat.list.write (m.snapshot usage) := rfl
  have hperm := Table.sortKeys_perm (· ≤ ·) m.procs.entries
  have hlen : (m.snapshot usage).length = m.procs.entries.length := by
    rw [Manager.snapshot, List.length_map, hperm.length_eq]
  have hsum : ((m.snapshot usage).map (fun i => (procInfoFormat.write i).length)).sum =
      (m.procs.entries.map (fun x => (m.fillUsage usage (x.2.info x.1)).size)).sum := by
    simp only [length_procInfo, Manager.snapshot, List.map_map]
    exact (hperm.map _).sum_nat
  rw [hw, List.length_cons, Format.length_list, hlen, hsum, listSize]
  omega

/-! ### Bounds -/

theorem IsU32.natSize_le {n : ℕ} (h : IsU32 n) : natSize n ≤ 5 := by
  apply Format.natSize_le
  unfold IsU32 at h
  omega

theorem IsU64.natSize_le {n : ℕ} (h : IsU64 n) : natSize n ≤ 10 := by
  apply Format.natSize_le
  unfold IsU64 at h
  omega

theorem ProcState.Fits.size_le {s : ProcState} (h : s.Fits) : s.size ≤ 7 := by
  match s, h with
  | .running, _ => decide
  | .stale, _ => decide
  | .exited none, _ => decide
  | .exited (some code), h =>
      obtain ⟨hlow, hhigh⟩ : IsI32 code := h
      have hzigzag : IsU32 (if 0 ≤ code then 2 * code.toNat else 2 * (-code).toNat - 1) := by
        unfold IsU32
        split_ifs <;> omega
      have := hzigzag.natSize_le
      simp only [ProcState.size]
      omega

theorem ProcInfo.Fits.size_le {i : ProcInfo} (h : i.Fits) : i.size ≤ 48 := by
  have hhandle := h.handle.natSize_le
  have hpid := h.pid.natSize_le
  have hstate := h.state.size_le
  have hrestarts := h.restarts.natSize_le
  have husage : i.usage.elim 0 Usage.size ≤ 20 := by
    cases hu : i.usage with
    | none => exact Nat.zero_le _
    | some u =>
        obtain ⟨hmem, hcpu⟩ := h.usage u hu
        have hmem := hmem.natSize_le
        have hcpu := hcpu.natSize_le
        simp only [Option.elim_some, Usage.size]
        omega
  simp only [ProcInfo.size]
  omega

theorem ProcInfo.le_size (i : ProcInfo) : 5 ≤ i.size := by
  have hhandle := natSize_pos i.handle
  have hpid := natSize_pos i.pid
  have hrestarts := natSize_pos i.restarts
  have hstate : 1 ≤ i.state.size := by
    match i.state with
    | .running => decide
    | .stale => decide
    | .exited none => decide
    | .exited (some code) => exact Nat.le_add_right_of_le (by omega)
  simp only [ProcInfo.size]
  omega

/-- What the table says of a process are numbers of the source's types. -/
theorem ProcEntry.Fits.info {e : ProcEntry} (h : e.Fits) {m : Manager} {id : Handle}
    {usage : Handle → Option Usage} (hid : IsU64 id)
    (hu : ∀ id u, usage id = some u → u.Fits) : (m.fillUsage usage (e.info id)).Fits := by
  unfold Manager.fillUsage
  split_ifs
  · exact ⟨hid, h.pid, h.status, hu id, h.restarts⟩
  · exact ⟨hid, h.pid, h.status, fun u hn => absurd hn (by simp [ProcEntry.info]), h.restarts⟩

/-- A table of at most 1365 processes fits into a frame. -/
theorem listSize_le {w : World} {usage : Handle → Option Usage} (h : w.Fits)
    (hu : ∀ id u, usage id = some u → u.Fits) (hn : w.mgr.procs.entries.length ≤ 1365) :
    listSize w.mgr usage ≤ maxFrame := by
  have hsize : ∀ x ∈ w.mgr.procs.entries, (w.mgr.fillUsage usage (x.2.info x.1)).size ≤ 48 := by
    intro x hx
    obtain ⟨hid, he⟩ := h.entries x hx
    exact (he.info hid hu).size_le
  have hsum : (w.mgr.procs.entries.map (fun x => (w.mgr.fillUsage usage (x.2.info x.1)).size)).sum ≤
      48 * w.mgr.procs.entries.length := by
    clear hn
    generalize w.mgr.procs.entries = entries at hsize ⊢
    induction entries with
    | nil => exact Nat.zero_le _
    | cons x l ih =>
        have hhead := hsize x (List.mem_cons_self ..)
        have htail := ih (fun y hy => hsize y (List.mem_cons_of_mem _ hy))
        rw [List.map_cons, List.sum_cons, List.length_cons]
        omega
  have hlen : natSize w.mgr.procs.entries.length ≤ 2 := Format.natSize_le (by omega)
  unfold listSize maxFrame
  omega

/-- A table of more than 13106 processes does not. -/
theorem le_listSize (m : Manager) (usage : Handle → Option Usage) :
    5 * m.procs.entries.length + 2 ≤ listSize m usage := by
  have hsum : 5 * m.procs.entries.length ≤
      (m.procs.entries.map (fun x => (m.fillUsage usage (x.2.info x.1)).size)).sum := by
    induction m.procs.entries with
    | nil => exact Nat.zero_le _
    | cons x l ih =>
        have := (m.fillUsage usage (x.2.info x.1)).le_size
        rw [List.map_cons, List.sum_cons, List.length_cons]
        omega
  have := natSize_pos m.procs.entries.length
  unfold listSize
  omega

/-! ### Responses that always fit -/

/-- A response other than `List`, of numbers of the source's types and a short text. -/
def Response.Small : Response → Prop
  | .spawned id pid => IsU64 id ∧ IsU32 pid
  | .ack => True
  | .status info => info.Fits
  | .list _ => False
  | .error (.notFound id) => IsU64 id
  | .error (.spawnFailed msg) | .error (.badRequest msg) => msg.utf8ByteSize ≤ 100
  | .error .denied | .error .rateLimited | .error .timeout => True

theorem Response.Small.length_le {r : Response} (h : r.Small) :
    (responseFormat.write r).length ≤ maxFrame := by
  have htext : ∀ msg : String, msg.utf8ByteSize ≤ 100 → (Format.string.write msg).length ≤ 101 := by
    intro msg hmsg
    have : natSize msg.utf8ByteSize ≤ 1 := natSize_le (by omega)
    rw [Format.length_string]
    omega
  match r, h with
  | .spawned id pid, ⟨hid, hpid⟩ =>
      have hw : responseFormat.write (.spawned id pid) = 0 :: (Format.nat.pair Format.nat).write (id, pid) := rfl
      have hid := hid.natSize_le
      have hpid := hpid.natSize_le
      simp only [hw, List.length_cons, Format.length_pair, Format.length_nat]
      unfold maxFrame
      omega
  | .ack, _ => decide
  | .status info, h =>
      have hw : responseFormat.write (.status info) = 2 :: procInfoFormat.write info := rfl
      have := ProcInfo.Fits.size_le h
      rw [hw, List.length_cons, length_procInfo]
      unfold maxFrame
      omega
  | .error (.notFound id), h =>
      have hw : responseFormat.write (.error (.notFound id)) = 4 :: 0 :: Format.nat.write id := rfl
      have := IsU64.natSize_le h
      rw [hw, List.length_cons, List.length_cons, Format.length_nat]
      unfold maxFrame
      omega
  | .error (.spawnFailed msg), h =>
      have hw : responseFormat.write (.error (.spawnFailed msg)) = 4 :: 3 :: Format.string.write msg := rfl
      have := htext msg h
      rw [hw, List.length_cons, List.length_cons]
      unfold maxFrame
      omega
  | .error (.badRequest msg), h =>
      have hw : responseFormat.write (.error (.badRequest msg)) = 4 :: 4 :: Format.string.write msg := rfl
      have := htext msg h
      rw [hw, List.length_cons, List.length_cons]
      unfold maxFrame
      omega
  | .error .denied, _ => decide
  | .error .rateLimited, _ => decide
  | .error .timeout, _ => decide

/-! ### Operations that answer -/

/-- How many steps an operation takes at most until its caller can answer. -/
def Task.replySteps : Task → ℕ
  | .spawn _ => 5
  | .spawnLaunch _ _ => 4
  | .spawnInsert _ _ _ => 3
  | .spawnSave _ _ _ => 2
  | .spawnReturn _ _ _ => 1
  | .stop _ | .signal _ _ | .forget _ => 2
  | .stopReturn _ _ | .signalSend _ _ _ | .forgetStore _ => 1
  | _ => 0

theorem Manager.disarm_small {m : Manager} {id : Handle} {e : ControlError} (hid : IsU64 id)
    (h : m.disarm id = .error e) : (Response.error e).Small := by
  unfold Manager.disarm at h
  cases hl : m.procs.lookup id with
  | none =>
      rw [hl] at h
      obtain rfl := Except.error.inj h
      exact hid
  | some entry =>
      rw [hl] at h
      cases h

theorem Manager.signalPid_small {m : Manager} {id : Handle} {e : ControlError} (hid : IsU64 id)
    (h : m.signalPid id = .error e) : (Response.error e).Small := by
  unfold Manager.signalPid at h
  cases hl : m.procs.lookup id with
  | none =>
      rw [hl] at h
      obtain rfl := Except.error.inj h
      exact hid
  | some entry =>
      rw [hl] at h
      dsimp only at h
      split_ifs at h
      obtain rfl := Except.error.inj h
      show String.utf8ByteSize _ ≤ 100
      decide

theorem Manager.removeEntry_small {m : Manager} {id : Handle} {e : ControlError} (hid : IsU64 id)
    (h : m.removeEntry id = .error e) : (Response.error e).Small := by
  unfold Manager.removeEntry at h
  cases hl : m.procs.lookup id with
  | none =>
      rw [hl] at h
      obtain rfl := Except.error.inj h
      exact hid
  | some entry =>
      rw [hl] at h
      dsimp only at h
      split_ifs at h
      obtain rfl := Except.error.inj h
      show String.utf8ByteSize _ ≤ 100
      decide

theorem invalidSignal_small {sig : ℤ} (h : IsI32 sig) :
    (Response.error (.badRequest s!"invalid signal {sig}")).Small := by
  have htext : s!"invalid signal {sig}" = "invalid signal " ++ toString sig := rfl
  have hhead : "invalid signal ".utf8ByteSize = 15 := by decide
  have hsig : (toString sig).utf8ByteSize ≤ 4 * 10 + 1 := by
    apply Format.utf8ByteSize_toString_le (by omega)
    obtain ⟨hlow, hhigh⟩ := h
    omega
  show String.utf8ByteSize _ ≤ 100
  rw [htext, String.utf8ByteSize_append]
  omega

section

variable [Codec Record]

theorem Moves.awaited {m m' : Manager} {os : Os} {task : Task} {next : Option Task}
    {evs : List Event} (h : Moves m os task m' next evs) (hw : 0 < task.replySteps) :
    (evs.findSome? Event.response = none ∧ ∃ task', next = some task' ∧ 0 < task'.replySteps ∧
      task.replySteps = task'.replySteps + 1) ∨ ∃ resp, evs.findSome? Event.response = some resp := by
  cases h with
  | spawn | spawnLaunches | spawnInsert | spawnSave | stop | signal | forget =>
      exact .inl ⟨rfl, _, rfl, Nat.succ_pos _, rfl⟩
  | signalSend id pid sig sig' _ =>
      right
      cases os.killed with
      | true => exact ⟨_, rfl⟩
      | false => exact ⟨_, rfl⟩
  | spawnFails | spawnReturn | stopFails | stopIdle | stopRunning | signalFails | signalInvalid |
      forgetFails | forgetStore => exact .inr ⟨_, rfl⟩
  | _ => exact absurd hw (Nat.lt_irrefl 0)

theorem Moves.small {m m' : Manager} {os : Os} {task : Task} {next : Option Task}
    {evs : List Event} (h : Moves m os task m' next evs) (hw : 0 < task.replySteps)
    (hfit : task.Fits) {resp : Response} (hr : evs.findSome? Event.response = some resp) :
    resp.Small := by
  cases h with
  | spawnFails =>
      obtain rfl := Option.some.inj hr
      show String.utf8ByteSize _ ≤ 100
      decide
  | spawnReturn =>
      obtain rfl := Option.some.inj hr
      exact hfit
  | stopIdle | stopRunning | forgetStore =>
      obtain rfl := Option.some.inj hr
      trivial
  | stopFails _ _ he =>
      obtain rfl := Option.some.inj hr
      exact Manager.disarm_small hfit he
  | signalFails _ _ _ he =>
      obtain rfl := Option.some.inj hr
      exact Manager.signalPid_small hfit.1 he
  | forgetFails _ _ he =>
      obtain rfl := Option.some.inj hr
      exact Manager.removeEntry_small hfit he
  | signalInvalid =>
      obtain rfl := Option.some.inj hr
      exact invalidSignal_small hfit.2
  | signalSend =>
      cases hk : os.killed with
      | true =>
          rw [hk] at hr
          obtain rfl := Option.some.inj hr
          trivial
      | false =>
          rw [hk] at hr
          obtain rfl := Option.some.inj hr
          show String.utf8ByteSize _ ≤ 100
          decide
  | spawn | spawnLaunches | spawnInsert | spawnSave | stop | signal | forget => cases hr
  | _ => exact absurd hw (Nat.lt_irrefl 0)

/-- An operation that has not returned is never blocked. -/
theorem advance_awaited (m : Manager) (os : Os) {task : Task}
    (hw : 0 < task.replySteps) : ∃ r, advance m os task = some r := by
  cases task with
  | spawn | spawnInsert | spawnSave | spawnReturn | stopReturn | forgetStore => exact ⟨_, rfl⟩
  | spawnLaunch id spec =>
      cases hl : m.launchChild id spec os with
      | mk m' l =>
          simp only [advance, hl]
          cases l with
          | none => exact ⟨_, rfl⟩
          | some l => exact ⟨_, rfl⟩
  | stop id =>
      simp only [advance]
      cases m.disarm id with
      | error e => exact ⟨_, rfl⟩
      | ok p => exact ⟨_, rfl⟩
  | signal id sig =>
      simp only [advance]
      cases m.signalPid id with
      | error e => exact ⟨_, rfl⟩
      | ok p => exact ⟨_, rfl⟩
  | signalSend id pid sig =>
      simp only [advance]
      cases Signal.tryFrom sig with
      | none => exact ⟨_, rfl⟩
      | some sig' => exact ⟨_, rfl⟩
  | forget id =>
      simp only [advance]
      cases m.removeEntry id with
      | error e => exact ⟨_, rfl⟩
      | ok p => exact ⟨_, rfl⟩
  | _ => exact absurd hw (Nat.lt_irrefl 0)

end

/-! ### What is written to a connection -/

/-- A request that is answered by one response. -/
def Request.isOneShot : Request → Bool
  | .subscribe _ | .stdinStream _ => false
  | _ => true

section Connections

variable {EndpointId F : Type}

/-- The frame that an event writes to the stream of connection `c`. -/
def ServiceEvent.frameTo (c : ℕ) : ServiceEvent EndpointId → Option Bytes
  | .sent c' _ frame => if c' = c then some frame else none
  | .manager _ => none

def writtenTo (c : ℕ) (evs : List (ServiceEvent EndpointId)) : List Bytes :=
  evs.filterMap (·.frameTo c)

@[simp] theorem writtenTo_nil (c : ℕ) : writtenTo c ([] : List (ServiceEvent EndpointId)) = [] := rfl

@[simp] theorem writtenTo_append (c : ℕ) (evs evs' : List (ServiceEvent EndpointId)) :
    writtenTo c (evs ++ evs') = writtenTo c evs ++ writtenTo c evs' := List.filterMap_append

@[simp] theorem writtenTo_manager (c : ℕ) (evs : List Event) :
    writtenTo c (evs.map ServiceEvent.manager : List (ServiceEvent EndpointId)) = [] := by
  rw [writtenTo, List.filterMap_map, List.filterMap_eq_nil_iff]
  intro e _
  rfl

def ServiceAction.slot : ServiceAction EndpointId → Option ℕ
  | .accept c _ _ | .request c _ _ _ | .timeout c _ | .piped c _ _ => some c
  | .sched t _ | .shutdown t => some t
  | .exit _ _ => none

/-- The operation that connection `c` waits for has not returned. -/
def Awaiting (s : Supervisor EndpointId F) (c : ℕ) (remote : EndpointId) (steps : ℕ) : Prop :=
  s.conns c = some (remote, .dispatched) ∧
    ∃ task, s.procs.tasks c = some task ∧ task.replySteps = steps + 1

attribute [local instance] responseCodec

/-- Connection `c` is done, and one frame was written to it, which is read as a response. -/
def Answered (s : Supervisor EndpointId F) (c : ℕ) (remote : EndpointId)
    (evs : List (ServiceEvent EndpointId)) : Prop :=
  s.conns c = some (remote, .closed) ∧ ∃ frame, writtenTo c evs = [frame] ∧
    ∃ resp : Response, recvMsg frame = (.ok resp, [])

theorem writtenTo_reply_ne {c c' : ℕ} (hne : c' ≠ c) (remote : EndpointId) (resp : Response) :
    writtenTo c (reply c' remote resp) = [] := by
  unfold reply
  cases writeMsg resp with
  | error e => rfl
  | ok frame =>
      have hnone : (ServiceEvent.sent c' remote frame).frameTo c = none := if_neg hne
      simp only [writtenTo, List.filterMap_cons, hnone, List.filterMap_nil]

/-- A response is written as a frame if and only if it fits into one. -/
theorem writtenTo_reply (c : ℕ) (remote : EndpointId) (resp : Response) :
    ((responseFormat.write resp).length ≤ maxFrame ∧ ∃ frame,
        writtenTo c (reply c remote resp) = [frame] ∧ recvMsg frame = (.ok resp, [])) ∨
      (maxFrame < (responseFormat.write resp).length ∧ writtenTo c (reply c remote resp) = []) := by
  unfold reply
  by_cases hbig : maxFrame < (responseFormat.write resp).length
  · have hw : writeMsg resp = .error s!"frame too large: {(responseFormat.write resp).length}" :=
      if_pos hbig
    rw [hw]
    exact .inr ⟨hbig, rfl⟩
  · have hw : writeMsg resp = .ok _ := writeMsg_eq_ok.mpr ⟨Nat.not_lt.mp hbig, rfl⟩
    have hread := recvMsg_writeMsg hw []
    rw [List.append_nil] at hread
    rw [hw]
    refine .inl ⟨by omega, _, ?_, hread⟩
    have hsome : ∀ frame, (ServiceEvent.sent c remote frame).frameTo c = some frame :=
      fun frame => if_pos rfl
    simp only [writtenTo, List.filterMap_cons, hsome, List.filterMap_nil]

theorem answered_small {s : Supervisor EndpointId F} {c : ℕ} {remote : EndpointId}
    {resp : Response} (hs : resp.Small) (hc : s.conns c = some (remote, .closed)) :
    Answered s c remote (reply c remote resp) := by
  rcases writtenTo_reply c remote resp with ⟨-, frame, hw, hread⟩ | ⟨hbig, -⟩
  · exact ⟨hc, frame, hw, resp, hread⟩
  · exact absurd hs.length_le (by omega)

/-! ### The steps of a connection -/

variable {cfg : RateLimiterConfig F} {authz : Authz EndpointId} {s s' : Supervisor EndpointId F}
  {a : ServiceAction EndpointId} {evs past : List (ServiceEvent EndpointId)} {c : ℕ}
  {remote : EndpointId}

theorem conns_setConn_ne {c' : ℕ} (hne : c ≠ c') (r : EndpointId) (phase : Phase) :
    (s.setConn c' r phase).conns c = s.conns c := Function.update_of_ne hne _ _

theorem conns_setConn (r : EndpointId) (phase : Phase) :
    (s.setConn c r phase).conns c = some (r, phase) := Function.update_self ..

/-- Until its request is read, a connection has no operation and nothing is written to it. -/
def Unread (s : Supervisor EndpointId F) (c : ℕ) (past : List (ServiceEvent EndpointId)) : Prop :=
  (s.conns c = none → writtenTo c past = []) ∧
    ∀ remote, s.conns c = some (remote, .reading) → s.procs.tasks c = none ∧ writtenTo c past = []

theorem Unread.of_phase {phase : Phase} (hc : s.conns c = some (remote, phase))
    (hne : phase ≠ .reading) : Unread s c past := by
  refine ⟨fun hn => ?_, fun r hr => ?_⟩
  · rw [hc] at hn
    cases hn
  · rw [hc] at hr
    exact absurd (Prod.mk.inj (Option.some.inj hr)).2 hne

variable [Codec Record]

theorem background_other {b : Action} (h : s.background b = some (s', evs))
    (hb : ∀ op, b ≠ .call c op) (hb' : ∀ os, b ≠ .sched c os) :
    s'.conns c = s.conns c ∧ s'.procs.tasks c = s.procs.tasks c ∧ writtenTo c evs = [] := by
  obtain ⟨⟨w, es⟩, hs, he⟩ := Option.map_eq_some_iff.mp h
  obtain ⟨rfl, rfl⟩ := Prod.mk.inj he
  refine ⟨rfl, ?_, writtenTo_manager c es⟩
  rcases step_cases hs with ⟨t, op, rfl, -, -, rfl⟩ | ⟨t, os, task, m', next, rfl, -, -, rfl⟩ |
    ⟨n, code, ch, rfl, -, -, -, rfl⟩
  · have hne : c ≠ t := by
      rintro rfl
      exact hb op rfl
    exact Function.update_of_ne hne _ _
  · have hne : c ≠ t := by
      rintro rfl
      exact hb' os rfl
    exact Function.update_of_ne hne _ _
  · rfl

theorem sched_cases {t : ℕ} {os : Os} (h : s.sched t os = some (s', evs)) :
    ∃ w es, step s.procs (.sched t os) = some (w, es) ∧
      ((∃ r resp, s.answer t es = some (r, resp) ∧
          s' = { s with procs := w }.setConn t r .closed ∧ evs = es.map .manager ++ reply t r resp) ∨
        (s.answer t es = none ∧ s' = { s with procs := w } ∧ evs = es.map .manager)) := by
  unfold Supervisor.sched at h
  cases hs : step s.procs (.sched t os) with
  | none =>
      rw [hs] at h
      cases h
  | some p =>
      obtain ⟨w, es⟩ := p
      rw [hs] at h
      dsimp only at h
      refine ⟨w, es, rfl, ?_⟩
      cases ha : s.answer t es with
      | none =>
          rw [ha] at h
          obtain ⟨rfl, rfl⟩ := Prod.mk.inj (Option.some.inj h)
          exact .inr ⟨rfl, rfl, rfl⟩
      | some q =>
          obtain ⟨r, resp⟩ := q
          rw [ha] at h
          obtain ⟨rfl, rfl⟩ := Prod.mk.inj (Option.some.inj h)
          exact .inl ⟨r, resp, rfl, rfl, rfl⟩

theorem handle_cases {w w' : World} {usage : Handle → Option Usage} {req : Request}
    {phase : Phase} {resp : Option Response} (h : handle w c usage req = some (w', phase, resp)) :
    (∃ op, w' = ⟨w.mgr, Function.update w.tasks c (some (Call.task op))⟩ ∧ phase = .dispatched) ∨
      (w' = w ∧ phase ≠ .reading) := by
  have hcall : ∀ {op}, callFor w c op = some (w', phase, resp) →
      w' = ⟨w.mgr, Function.update w.tasks c (some op.task)⟩ ∧ phase = .dispatched := by
    intro op hop
    obtain ⟨⟨w₁, es⟩, hs, he⟩ := Option.map_eq_some_iff.mp hop
    obtain ⟨rfl, hrest⟩ := Prod.mk.inj he
    obtain ⟨rfl, -⟩ := Prod.mk.inj hrest
    rcases step_cases hs with ⟨t, op', hx, -, -, rfl⟩ | ⟨_, _, _, _, _, hx, -⟩ | ⟨_, _, _, hx, -⟩
    · cases hx
      exact ⟨rfl, rfl⟩
    · cases hx
    · cases hx
  have hkeep : ∀ {phase' : Phase} {resp' : Option Response}, phase' ≠ .reading →
      some (w, phase', resp') = some (w', phase, resp) → w' = w ∧ phase ≠ .reading := by
    intro phase' resp' hne he
    obtain ⟨rfl, hrest⟩ := Prod.mk.inj (Option.some.inj he)
    obtain ⟨rfl, -⟩ := Prod.mk.inj hrest
    exact ⟨rfl, hne⟩
  cases req with
  | spawn spec => exact .inl ⟨_, hcall h⟩
  | signal id sig => exact .inl ⟨_, hcall h⟩
  | stop id => exact .inl ⟨_, hcall h⟩
  | forget id => exact .inl ⟨_, hcall h⟩
  | list => exact .inr (hkeep (by decide) h)
  | query id =>
      cases hq : w.mgr.query usage id with
      | ok info =>
          simp only [handle, dispatch, hq] at h
          exact .inr (hkeep (by decide) h)
      | error e =>
          simp only [handle, dispatch, hq] at h
          exact .inr (hkeep (by decide) h)
  | subscribe id =>
      cases hs : w.mgr.subscribe id with
      | ok l =>
          simp only [handle, hs] at h
          exact .inr (hkeep (by decide) h)
      | error e =>
          simp only [handle, hs] at h
          exact .inr (hkeep (by decide) h)
  | stdinStream id =>
      cases hs : w.mgr.stdinSlot id with
      | ok l =>
          simp only [handle, hs] at h
          exact .inr (hkeep (by decide) h)
      | error e =>
          simp only [handle, hs] at h
          exact .inr (hkeep (by decide) h)

variable [Codec Request] [DecidableEq EndpointId]

theorem receive_cases {w w' : World} {stream : Bytes} {usage : Handle → Option Usage}
    {phase : Phase} {resp : Option Response}
    (h : receive authz w c remote stream usage = some (w', phase, resp)) :
    (∃ op, w' = ⟨w.mgr, Function.update w.tasks c (some (Call.task op))⟩ ∧ phase = .dispatched) ∨
      (w' = w ∧ phase ≠ .reading) := by
  have hclosed : ∀ {resp' : Option Response},
      some (w, Phase.closed, resp') = some (w', phase, resp) → w' = w ∧ phase ≠ .reading := by
    intro resp' he
    obtain ⟨rfl, hrest⟩ := Prod.mk.inj (Option.some.inj he)
    obtain ⟨rfl, -⟩ := Prod.mk.inj hrest
    exact ⟨rfl, by decide⟩
  unfold receive at h
  cases hread : readMsg (α := Request) stream with
  | error e =>
      rw [hread] at h
      exact .inr (hclosed h)
  | ok p =>
      obtain ⟨req, rest⟩ := p
      rw [hread] at h
      dsimp only at h
      cases hauth : authz.authorize remote req with
      | error e =>
          rw [hauth] at h
          exact .inr (hclosed h)
      | ok u =>
          rw [hauth] at h
          exact handle_cases h

variable [Tokens F]

theorem serve_other (h : serve cfg authz s a = some (s', evs)) (hne : a.slot ≠ some c) :
    s'.conns c = s.conns c ∧ s'.procs.tasks c = s.procs.tasks c ∧ writtenTo c evs = [] := by
  have hslot : ∀ {c'}, a.slot = some c' → c ≠ c' := by
    rintro c' ha rfl
    exact hne ha
  cases a with
  | accept c' r now =>
      have hc : c ≠ c' := hslot rfl
      obtain ⟨-, -, limiter, ⟨rfl, rfl⟩ | ⟨rfl, rfl⟩⟩ := Supervisor.accept_ok h
      · exact ⟨conns_setConn_ne hc _ _, rfl, rfl⟩
      · exact ⟨conns_setConn_ne hc _ _, rfl, writtenTo_reply_ne hc.symm _ _⟩
  | request c' r stream usage =>
      have hc : c ≠ c' := hslot rfl
      obtain ⟨-, w, phase, resp, hrec, rfl, rfl⟩ := Supervisor.request_ok h
      refine ⟨conns_setConn_ne hc _ _, ?_, ?_⟩
      · rcases receive_cases hrec with ⟨op, rfl, -⟩ | ⟨rfl, -⟩
        · exact Function.update_of_ne hc _ _
        · rfl
      · cases resp with
        | none => rfl
        | some resp => exact writtenTo_reply_ne hc.symm _ _
  | timeout c' r | piped c' r result =>
      have hc : c ≠ c' := hslot rfl
      obtain ⟨-, rfl, rfl⟩ := Supervisor.finish_ok h
      exact ⟨conns_setConn_ne hc _ _, rfl, writtenTo_reply_ne hc.symm _ _⟩
  | sched t os =>
      have hc : c ≠ t := hslot rfl
      obtain ⟨w, es, hs, hrest⟩ := sched_cases h
      have hother := (background_other (s := s) (c := c) (b := .sched t os)
        (Option.map_eq_some_iff.mpr ⟨_, hs, rfl⟩) (by simp) (fun os' he => hc (by cases he; rfl))).2.1
      rcases hrest with ⟨r, resp, -, rfl, rfl⟩ | ⟨-, rfl, rfl⟩
      · refine ⟨conns_setConn_ne hc _ _, hother, ?_⟩
        rw [writtenTo_append, writtenTo_manager, writtenTo_reply_ne hc.symm]
        rfl
      · exact ⟨rfl, hother, writtenTo_manager c es⟩
  | exit n code => exact background_other h (by simp) (by simp)
  | shutdown t =>
      have hc : c ≠ t := hslot rfl
      simp only [serve] at h
      split_ifs at h
      exact background_other h (fun op he => hc (by cases he; rfl)) (by simp)

theorem sched_awaiting {k : ℕ} {os : Os} (h : Awaiting s c remote k)
    (hs : serve cfg authz s (.sched c os) = some (s', evs)) :
    (∃ k', k = k' + 1 ∧ Awaiting s' c remote k' ∧ writtenTo c evs = []) ∨
      (s'.conns c = some (remote, .closed) ∧
        (s.procs.Fits → ∃ resp : Response, resp.Small ∧
          writtenTo c evs = writtenTo c (reply c remote resp))) := by
  obtain ⟨hc, task, ht, hk⟩ := h
  obtain ⟨w, es, hstep, hrest⟩ := sched_cases hs
  obtain ⟨m', next, hm, rfl⟩ := step_of_task hstep ht
  have hpos : 0 < task.replySteps := by omega
  have hanswer : s.answer c es = (es.findSome? Event.response).map (remote, ·) := by
    simp only [Supervisor.answer, hc]
  rcases hm.awaited hpos with ⟨hnone, task₁, rfl, hpos₁, hk₁⟩ | ⟨resp, hresp⟩
  · rcases hrest with ⟨r, resp, hans, -, -⟩ | ⟨-, rfl, rfl⟩
    · rw [hanswer, hnone] at hans
      cases hans
    · refine .inl ⟨k - 1, by omega, ⟨hc, task₁, Function.update_self .., by omega⟩, ?_⟩
      exact writtenTo_manager c es
  · rcases hrest with ⟨r, resp', hans, rfl, rfl⟩ | ⟨hans, -, -⟩
    · rw [hanswer, hresp] at hans
      obtain ⟨rfl, rfl⟩ := Prod.mk.inj (Option.some.inj hans)
      refine .inr ⟨conns_setConn _ _, fun hfit => ⟨resp, hm.small hpos (hfit.tasks c task ht) hresp, ?_⟩⟩
      rw [writtenTo_append, writtenTo_manager, List.nil_append]
    · rw [hanswer, hresp] at hans
      cases hans

/-- All that can happen to a connection that is neither read nor piped is a step of its task. -/
theorem serve_slot {phase : Phase} (hc : s.conns c = some (remote, phase))
    (hread : phase ≠ .reading) (hpipe : phase ≠ .piping) (ha : a.slot = some c)
    (hs : serve cfg authz s a = some (s', evs)) : ∃ os, a = .sched c os := by
  have hphase : ∀ {r : EndpointId} {phase' : Phase}, phase ≠ phase' →
      s.conns c ≠ some (r, phase') := by
    intro r phase' hne he
    rw [hc] at he
    exact hne (Prod.mk.inj (Option.some.inj he)).2
  cases a with
  | accept c' r now =>
      cases ha
      rw [(Supervisor.accept_ok hs).1] at hc
      cases hc
  | request c' r stream usage =>
      cases ha
      exact absurd (Supervisor.request_ok hs).1 (hphase hread)
  | timeout c' r =>
      cases ha
      exact absurd (Supervisor.finish_ok hs).1 (hphase hread)
  | piped c' r result =>
      cases ha
      exact absurd (Supervisor.finish_ok hs).1 (hphase hpipe)
  | sched t os =>
      cases ha
      exact ⟨os, rfl⟩
  | exit n code => cases ha
  | shutdown t =>
      cases ha
      simp only [serve, hc, Option.isNone_some, Bool.false_eq_true, if_false] at hs
      cases hs

theorem serve_closed (hc : s.conns c = some (remote, .closed))
    (hs : serve cfg authz s a = some (s', evs)) :
    s'.conns c = some (remote, .closed) ∧ writtenTo c evs = [] := by
  by_cases hne : a.slot = some c
  · obtain ⟨os, rfl⟩ := serve_slot hc (by decide) (by decide) hne hs
    obtain ⟨w, es, hstep, hrest⟩ := sched_cases hs
    have hans : s.answer c es = none := by simp only [Supervisor.answer, hc]
    rcases hrest with ⟨r, resp, hsome, -, -⟩ | ⟨-, rfl, rfl⟩
    · rw [hans] at hsome
      cases hsome
    · exact ⟨hc, writtenTo_manager c es⟩
  · obtain ⟨hconn, -, hw⟩ := serve_other hs hne
    exact ⟨hconn.trans hc, hw⟩

theorem serve_awaiting {k : ℕ} (h : Awaiting s c remote k)
    (hs : serve cfg authz s a = some (s', evs)) :
    (∃ k', Awaiting s' c remote k' ∧ writtenTo c evs = []) ∨
      (s'.conns c = some (remote, .closed) ∧
        (s.procs.Fits → ∃ resp : Response, resp.Small ∧
          writtenTo c evs = writtenTo c (reply c remote resp))) := by
  by_cases hne : a.slot = some c
  · obtain ⟨os, rfl⟩ := serve_slot h.1 (by decide) (by decide) hne hs
    rcases sched_awaiting h hs with ⟨k', -, h', hw⟩ | hdone
    · exact .inl ⟨k', h', hw⟩
    · exact .inr hdone
  · obtain ⟨hconn, htask, hw⟩ := serve_other hs hne
    obtain ⟨hc, task, ht, hk⟩ := h
    exact .inl ⟨k, ⟨hconn.trans hc, task, htask.trans ht, hk⟩, hw⟩

theorem sched_enabled {k : ℕ} (h : Awaiting s c remote k) :
    ∃ s' evs, serve cfg authz s (.sched c {}) = some (s', evs) := by
  obtain ⟨-, task, ht, hk⟩ := h
  have hpos : 0 < task.replySteps := by omega
  obtain ⟨r, hr⟩ := advance_awaited s.procs.mgr {} hpos
  simp only [serve, Supervisor.sched, step_sched {} r ht hr]
  cases s.answer c (s.procs.commit c r).2 with
  | none => exact ⟨_, _, rfl⟩
  | some p => exact ⟨_, _, rfl⟩

/-! ### Whole runs -/

/-- A connection that waits is answered once its operation returns. -/
theorem awaiting_run {l : List (Lts.Tr (Supervisor EndpointId F) (ServiceAction EndpointId)
      (ServiceEvent EndpointId))}
    (hr : Lts.Run (serve cfg authz) s l s') (hfit : ∀ tr ∈ l, tr.pre.procs.Fits)
    (h : ((∃ k, Awaiting s c remote k) ∧ writtenTo c past = []) ∨ Answered s c remote past) :
    ((∃ k, Awaiting s' c remote k) ∧ writtenTo c (past ++ Lts.events l) = []) ∨
      Answered s' c remote (past ++ Lts.events l) := by
  induction hr with
  | nil =>
      rw [Lts.events_nil, List.append_nil]
      exact h
  | @snoc l s₁ s₂ a evs hr hs ih =>
      have hevs : past ++ Lts.events (l ++ [⟨s₁, a, evs, s₂⟩]) = (past ++ Lts.events l) ++ evs := by
        simp [List.append_assoc]
      rw [hevs]
      rcases ih (fun tr htr => hfit tr (List.mem_append_left _ htr)) with ⟨⟨k, hk⟩, hw⟩ |
        ⟨hc, frame, hw, hread⟩
      · rcases serve_awaiting hk hs with ⟨k', hk', hw'⟩ | ⟨hc, hsmall⟩
        · refine .inl ⟨⟨k', hk'⟩, ?_⟩
          rw [writtenTo_append, hw, hw']
          rfl
        · obtain ⟨resp, hresp, hw'⟩ := hsmall (hfit _ (List.mem_append_right _ (List.mem_singleton.mpr rfl)))
          obtain ⟨-, frame, hframe, hread⟩ := answered_small hresp hc
          refine .inr ⟨hc, frame, ?_, hread⟩
          rw [writtenTo_append, hw, hw', hframe]
          rfl
      · obtain ⟨hc', hw'⟩ := serve_closed hc hs
        refine .inr ⟨hc', frame, ?_, hread⟩
        rw [writtenTo_append, hw, hw']
        rfl

theorem awaiting_ends {k : ℕ} : ∀ {s : Supervisor EndpointId F}, Awaiting s c remote k →
    ∃ l s', Lts.Run (serve cfg authz) s l s' ∧ s'.conns c = some (remote, .closed) := by
  induction k with
  | zero =>
      intro s h
      obtain ⟨s', evs, hs⟩ := sched_enabled h
      rcases sched_awaiting h hs with ⟨k', hk, -⟩ | ⟨hc, -⟩
      · omega
      · exact ⟨_, s', Lts.Run.single hs, hc⟩
  | succ k ih =>
      intro s h
      obtain ⟨s₁, evs, hs⟩ := sched_enabled h
      rcases sched_awaiting h hs with ⟨k', hk, h', -⟩ | ⟨hc, -⟩
      · obtain rfl : k' = k := by omega
        obtain ⟨l, s', hr, hc⟩ := ih h'
        exact ⟨_, s', Lts.Run.cons hs hr, hc⟩
      · exact ⟨_, s₁, Lts.Run.single hs, hc⟩

theorem Unread.step (h : Unread s c past) (hs : serve cfg authz s a = some (s', evs)) :
    Unread s' c (past ++ evs) := by
  by_cases hslot : a.slot = some c
  · cases a with
    | accept c' r now =>
        cases hslot
        obtain ⟨hc, ht, limiter, ⟨rfl, rfl⟩ | ⟨rfl, rfl⟩⟩ := Supervisor.accept_ok hs
        · refine ⟨fun hn => ?_, fun r' _ => ⟨ht, ?_⟩⟩
          · rw [conns_setConn] at hn
            cases hn
          · rw [List.append_nil]
            exact h.1 hc
        · exact .of_phase (conns_setConn _ _) (by decide)
    | request c' r stream usage =>
        cases hslot
        obtain ⟨-, w, phase, resp, hrec, rfl, rfl⟩ := Supervisor.request_ok hs
        rcases receive_cases hrec with ⟨op, -, rfl⟩ | ⟨-, hne⟩
        · exact .of_phase (conns_setConn _ _) (by decide)
        · exact .of_phase (conns_setConn _ _) hne
    | timeout c' r | piped c' r result =>
        cases hslot
        obtain ⟨-, rfl, rfl⟩ := Supervisor.finish_ok hs
        exact .of_phase (conns_setConn _ _) (by decide)
    | sched t os =>
        cases hslot
        obtain ⟨w, es, hstep, hrest⟩ := sched_cases hs
        rcases hrest with ⟨r, resp, -, rfl, rfl⟩ | ⟨-, rfl, rfl⟩
        · exact .of_phase (conns_setConn _ _) (by decide)
        · refine ⟨fun hn => ?_, fun r hr => ?_⟩
          · rw [writtenTo_append, writtenTo_manager, h.1 hn]
            rfl
          · -- a connection that is read has no task
            have hnone := (h.2 r hr).1
            simp only [step, hnone] at hstep
            cases hstep
    | exit n code => cases hslot
    | shutdown t =>
        cases hslot
        simp only [serve] at hs
        split_ifs at hs with hfree
        have hc := Option.isNone_iff_eq_none.mp hfree
        obtain ⟨⟨w, es⟩, -, he⟩ := Option.map_eq_some_iff.mp hs
        obtain ⟨rfl, rfl⟩ := Prod.mk.inj he
        refine ⟨fun _ => ?_, fun r hr => ?_⟩
        · rw [writtenTo_append, writtenTo_manager, h.1 hc]
          rfl
        · rw [show s.conns c = some (r, .reading) from hr] at hc
          cases hc
  · obtain ⟨hconn, htask, hw⟩ := serve_other hs hslot
    refine ⟨fun hn => ?_, fun r hr => ?_⟩
    · rw [writtenTo_append, hw, h.1 (hconn ▸ hn)]
      rfl
    · obtain ⟨ht, hw'⟩ := h.2 r (hconn ▸ hr)
      refine ⟨htask.trans ht, ?_⟩
      rw [writtenTo_append, hw, hw']
      rfl

theorem unread_run {w : World} {l : List (Lts.Tr (Supervisor EndpointId F)
      (ServiceAction EndpointId) (ServiceEvent EndpointId))}
    (hr : Lts.Run (serve cfg authz) (Supervisor.new w) l s) : Unread s c (Lts.events l) := by
  induction hr with
  | nil => exact ⟨fun _ => rfl, fun r hr => absurd hr (by simp [Supervisor.new])⟩
  | snoc _ hs ih =>
      rw [Lts.events_append, Lts.events_cons, Lts.events_nil, List.append_nil]
      exact ih.step hs

/-! ### One request, one response -/

/-- What a one-shot request leads to at once: an operation that answers, or an answer. -/
theorem request_oneShot (usage : Handle → Option Usage) {stream rest : Bytes} {req : Request}
    (hc : s.conns c = some (remote, .reading)) (ht : s.procs.tasks c = none)
    (hread : readMsg stream = .ok (req, rest)) (hauth : authz.authorize remote req = .ok ())
    (hone : req.isOneShot = true) : ∃ s₁ evs,
      serve cfg authz s (.request c remote stream usage) = some (s₁, evs) ∧
      (((∃ k, Awaiting s₁ c remote k) ∧ evs = [] ∧ req ≠ .list) ∨
        ∃ resp, s₁.conns c = some (remote, .closed) ∧ evs = reply c remote resp ∧
          ((req = .list ∧ resp = .list (s.procs.mgr.snapshot usage)) ∨
            ∃ id, req = .query id ∧ ((∃ e, s.procs.mgr.procs.lookup id = some e ∧
              resp = .status (s.procs.mgr.fillUsage usage (e.info id))) ∨
              resp = .error (.notFound id)))) := by
  have hrec : receive authz s.procs c remote stream usage = handle s.procs c usage req := by
    simp only [receive, hread, hauth]
  have hcall : ∀ op, handle s.procs c usage req = callFor s.procs c op → req ≠ .list →
      (∃ k, (Call.task op).replySteps = k + 1) → ∃ s₁ evs,
        serve cfg authz s (.request c remote stream usage) = some (s₁, evs) ∧
          (∃ k, Awaiting s₁ c remote k) ∧ evs = [] ∧ req ≠ .list := by
    intro op hop hne ⟨k, hk⟩
    have hstep : step s.procs (.call c op) =
        some (⟨s.procs.mgr, Function.update s.procs.tasks c (some op.task)⟩, []) := by
      simp only [step, ht, Option.isNone_none, if_true]
    have hserve : serve cfg authz s (.request c remote stream usage) =
        some (Supervisor.setConn { s with procs := ⟨s.procs.mgr,
          Function.update s.procs.tasks c (some op.task)⟩ } c remote .dispatched, []) := by
      simp only [serve, Supervisor.request, hc, if_true, hrec, hop, callFor, hstep, Option.map_some]
      rfl
    exact ⟨_, _, hserve, ⟨k, conns_setConn _ _, op.task, Function.update_self .., hk⟩, rfl, hne⟩
  have hanswer : ∀ resp, handle s.procs c usage req = some (s.procs, .closed, some resp) →
      ∃ s₁ evs, serve cfg authz s (.request c remote stream usage) = some (s₁, evs) ∧
        s₁.conns c = some (remote, .closed) ∧ evs = reply c remote resp := by
    intro resp hh
    have hserve : serve cfg authz s (.request c remote stream usage) =
        some (Supervisor.setConn s c remote .closed, reply c remote resp) := by
      simp only [serve, Supervisor.request, hc, if_true, hrec, hh]
      rfl
    exact ⟨_, _, hserve, conns_setConn _ _, rfl⟩
  cases req with
  | spawn spec =>
      obtain ⟨s₁, evs, hs, hw⟩ := hcall (.spawn spec) rfl (by simp) ⟨4, rfl⟩
      exact ⟨s₁, evs, hs, .inl hw⟩
  | signal id sig =>
      obtain ⟨s₁, evs, hs, hw⟩ := hcall (.signal id sig) rfl (by simp) ⟨1, rfl⟩
      exact ⟨s₁, evs, hs, .inl hw⟩
  | stop id =>
      obtain ⟨s₁, evs, hs, hw⟩ := hcall (.stop id) rfl (by simp) ⟨1, rfl⟩
      exact ⟨s₁, evs, hs, .inl hw⟩
  | forget id =>
      obtain ⟨s₁, evs, hs, hw⟩ := hcall (.forget id) rfl (by simp) ⟨1, rfl⟩
      exact ⟨s₁, evs, hs, .inl hw⟩
  | list =>
      obtain ⟨s₁, evs, hs, hclosed, hevs⟩ := hanswer (.list (s.procs.mgr.snapshot usage)) rfl
      exact ⟨s₁, evs, hs, .inr ⟨_, hclosed, hevs, .inl ⟨rfl, rfl⟩⟩⟩
  | query id =>
      cases hl : s.procs.mgr.procs.lookup id with
      | none =>
          obtain ⟨s₁, evs, hs, hclosed, hevs⟩ := hanswer (.error (.notFound id))
            (by simp only [handle, dispatch, Manager.query, hl])
          exact ⟨s₁, evs, hs, .inr ⟨_, hclosed, hevs, .inr ⟨id, rfl, .inr rfl⟩⟩⟩
      | some e =>
          obtain ⟨s₁, evs, hs, hclosed, hevs⟩ :=
            hanswer (.status (s.procs.mgr.fillUsage usage (e.info id)))
              (by simp only [handle, dispatch, Manager.query, hl])
          exact ⟨s₁, evs, hs, .inr ⟨_, hclosed, hevs, .inr ⟨id, rfl, .inl ⟨e, hl, rfl⟩⟩⟩⟩
  | subscribe id => cases hone
  | stdinStream id => cases hone

/-- The connection waits for an operation that can return, with nothing written to it so far;
or it is done, and one frame was written to it, which is read as a response. -/
def OneResponse (cfg : RateLimiterConfig F) (authz : Authz EndpointId) (s : Supervisor EndpointId F)
    (c : ℕ) (remote : EndpointId) (evs : List (ServiceEvent EndpointId)) : Prop :=
  (s.conns c = some (remote, .dispatched) ∧ writtenTo c evs = [] ∧
    ∃ l s', Lts.Run (serve cfg authz) s l s' ∧ s'.conns c = some (remote, .closed)) ∨
  Answered s c remote evs

/-- The request of connection `c` is served, and in every run from there it has one response;
`past` is what was seen before it. -/
def OneReply (cfg : RateLimiterConfig F) (authz : Authz EndpointId) (s : Supervisor EndpointId F)
    (c : ℕ) (remote : EndpointId) (stream : Bytes) (usage : Handle → Option Usage)
    (past : List (ServiceEvent EndpointId)) : Prop :=
  ∃ s₁ evs, serve cfg authz s (.request c remote stream usage) = some (s₁, evs) ∧
    ∀ l s', Lts.Run (serve cfg authz) s₁ l s' → (∀ tr ∈ l, tr.pre.procs.Fits) →
      OneResponse cfg authz s' c remote (past ++ evs ++ Lts.events l)

/-- A `List` request gets no response at all when the table does not fit into a frame. -/
theorem list_not_answered {w : World} {l : List (Lts.Tr (Supervisor EndpointId F)
      (ServiceAction EndpointId) (ServiceEvent EndpointId))}
    (hr : Lts.Run (serve cfg authz) (Supervisor.new w) l s)
    (hc : s.conns c = some (remote, .reading)) {stream rest : Bytes}
    (hread : readMsg stream = .ok (Request.list, rest)) (hauth : authz.authorize remote .list = .ok ())
    {usage : Handle → Option Usage} (hbig : maxFrame < listSize s.procs.mgr usage) :
    ¬ OneReply cfg authz s c remote stream usage (Lts.events l) := by
  rintro ⟨s₁, evs, hs, hall⟩
  obtain ⟨ht, hpast⟩ := (unread_run (c := c) hr).2 remote hc
  obtain ⟨s₁', evs', hs', hcases⟩ := request_oneShot usage hc ht hread hauth rfl
  obtain ⟨rfl, rfl⟩ := Prod.mk.inj (Option.some.inj (hs.symm.trans hs'))
  rcases hcases with ⟨-, -, hne⟩ | ⟨resp, hclosed, rfl, hresp⟩
  · exact hne rfl
  · obtain rfl : resp = .list (s.procs.mgr.snapshot usage) := by
      rcases hresp with ⟨-, he⟩ | ⟨id, he, -⟩
      · exact he
      · cases he
    have hnone : writtenTo c (reply c remote (.list (s.procs.mgr.snapshot usage))) = [] := by
      rcases writtenTo_reply c remote (.list (s.procs.mgr.snapshot usage)) with ⟨hsmall, -⟩ | ⟨-, hw⟩
      · rw [length_list] at hsmall
        omega
      · exact hw
    rcases hall [] s₁ Lts.Run.nil (by simp) with ⟨hd, -⟩ | ⟨-, frame, hw, -⟩
    · rw [hclosed] at hd
      cases hd
    · rw [writtenTo_append, writtenTo_append, hpast, hnone] at hw
      cases hw

/-- **One request, one response.**  A connection that was admitted, with a well-formed and
authorized one-shot request, gets exactly one frame in every run, and the client reads it as a
response, if and only if the request is not `List` or the process table fits into a frame. -/
theorem one_reply_iff {w : World} {l : List (Lts.Tr (Supervisor EndpointId F)
      (ServiceAction EndpointId) (ServiceEvent EndpointId))}
    (hr : Lts.Run (serve cfg authz) (Supervisor.new w) l s)
    (hc : s.conns c = some (remote, .reading)) {stream rest : Bytes} {req : Request}
    (hread : readMsg stream = .ok (req, rest)) (hauth : authz.authorize remote req = .ok ())
    (hone : req.isOneShot = true) {usage : Handle → Option Usage} (hfit : s.procs.Fits)
    (hreq : req.Fits) (husage : ∀ id u, usage id = some u → u.Fits) :
    OneReply cfg authz s c remote stream usage (Lts.events l) ↔
      (req = .list → listSize s.procs.mgr usage ≤ maxFrame) := by
  obtain ⟨ht, hpast⟩ := (unread_run (c := c) hr).2 remote hc
  constructor
  · rintro hreply rfl
    by_contra hbig
    exact list_not_answered hr hc hread hauth (Nat.not_le.mp hbig) hreply
  · intro hlist
    obtain ⟨s₁, evs, hs, hcases⟩ := request_oneShot usage hc ht hread hauth hone
    refine ⟨s₁, evs, hs, ?_⟩
    intro l' s' hr' hfits
    have hstart : ((∃ k, Awaiting s₁ c remote k) ∧ writtenTo c (Lts.events l ++ evs) = []) ∨
        Answered s₁ c remote (Lts.events l ++ evs) := by
      rcases hcases with ⟨hawait, rfl, -⟩ | ⟨resp, hclosed, rfl, hresp⟩
      · refine .inl ⟨hawait, ?_⟩
        rw [List.append_nil]
        exact hpast
      · have hlen : (responseFormat.write resp).length ≤ maxFrame := by
          rcases hresp with ⟨rfl, rfl⟩ | ⟨id, rfl, ⟨e, he, rfl⟩ | rfl⟩
          · rw [length_list]
            exact hlist rfl
          · have hmem : (⟨id, e⟩ : Σ _ : Handle, ProcEntry) ∈ s.procs.mgr.procs.entries :=
              AList.mem_lookup_iff.mp he
            obtain ⟨hid, hentry⟩ := hfit.entries _ hmem
            exact Response.Small.length_le (r := .status _) (hentry.info hid husage)
          · exact Response.Small.length_le (r := .error (.notFound id)) hreq
        rcases writtenTo_reply c remote resp with ⟨-, frame, hw, hframe⟩ | ⟨hbig, -⟩
        · refine .inr ⟨hclosed, frame, ?_, resp, hframe⟩
          rw [writtenTo_append, hpast, hw]
          rfl
        · omega
    rcases awaiting_run hr' hfits hstart with ⟨⟨k, hk⟩, hw⟩ | hdone
    · exact .inl ⟨hk.1, hw, awaiting_ends hk⟩
    · exact .inr hdone

theorem serve_sched {mgr m' : Manager} {tasks : ℕ → Option Task} {limiter : Buckets EndpointId F}
    {conns : ℕ → Option (EndpointId × Phase)} {t : ℕ} {task : Task} {next : Option Task}
    {es : List Event} (os : Os) (ha : advance mgr os task = some (m', next, es))
    (hnone : es.findSome? Event.response = none) :
    serve cfg authz ⟨⟨mgr, Function.update tasks t (some task)⟩, limiter, conns⟩ (.sched t os) =
      some (⟨⟨m', Function.update tasks t next⟩, limiter, conns⟩, es.map .manager) := by
  have hstep := step_sched (w := ⟨mgr, Function.update tasks t (some task)⟩) os (m', next, es)
    (Function.update_self ..) ha
  have hans : Supervisor.answer ⟨⟨mgr, Function.update tasks t (some task)⟩, limiter, conns⟩ t es =
      none := by
    unfold Supervisor.answer
    split
    · rw [hnone]
      rfl
    · rfl
  simp only [serve, Supervisor.sched, hstep, World.commit, Function.update_idem, hans]

theorem serve_sched_answered {mgr m' : Manager} {tasks : ℕ → Option Task}
    {limiter : Buckets EndpointId F} {conns : ℕ → Option (EndpointId × Phase)} {t : ℕ}
    {task : Task} {next : Option Task} {es : List Event} {resp : Response} (os : Os)
    (ha : advance mgr os task = some (m', next, es))
    (hresp : es.findSome? Event.response = some resp) :
    serve cfg authz ⟨⟨mgr, Function.update tasks t (some task)⟩, limiter,
        Function.update conns t (some (remote, .dispatched))⟩ (.sched t os) =
      some (⟨⟨m', Function.update tasks t next⟩, limiter,
        Function.update conns t (some (remote, .closed))⟩, es.map .manager ++ reply t remote resp) := by
  have hstep := step_sched (w := ⟨mgr, Function.update tasks t (some task)⟩) os (m', next, es)
    (Function.update_self ..) ha
  simp only [serve, Supervisor.sched, hstep, World.commit, Function.update_idem, Supervisor.answer,
    Function.update_self, hresp, Option.map_some, Supervisor.setConn]

end Connections

/-! ### A table that does not fit -/

section Spawned

attribute [local instance] responseCodec requestCodec recordCodec

def defaultLimiter : RateLimiterConfig ℚ := ⟨20, 10, 2048, .fromSecs 90⟩

def spawnSpec : Spec := { cmd := "true" }

/-- Peer `1` has spawned `n` processes, one a second, and none of them is forgotten. -/
structure Spawned (n : ℕ) (s : Supervisor ℕ ℚ) : Prop where
  free : ∀ c, n ≤ c → s.conns c = none ∧ s.procs.tasks c = none
  next : s.procs.mgr.next = n + 1
  cgroups : s.procs.mgr.cgroups = none
  length : s.procs.mgr.procs.entries.length = n
  entries : ∀ x ∈ s.procs.mgr.procs.entries, x.1 ≤ n + 1 ∧ ProcEntry.Fits x.2
  tasks : ∀ t task, s.procs.tasks t = some task → task.Fits
  known : ∀ p, (s.limiter.lookup p).isSome = true → p = 1
  bucket : ∀ b, s.limiter.lookup 1 = some b → 0 ≤ b.tokens ∧ b.lastUsed + 1000000000 ≤ n * 1000000000

theorem Spawned.new : Spawned 0 (Supervisor.new (World.start .new)) where
  free _ _ := ⟨rfl, rfl⟩
  next := rfl
  cgroups := rfl
  length := rfl
  entries x hx := absurd hx (List.not_mem_nil)
  tasks t task h := by cases h
  known p h := by
    rw [Supervisor.new, AList.lookup_empty] at h
    cases h
  bucket b h := by
    rw [Supervisor.new, AList.lookup_empty] at h
    cases h

/-- A peer without a bucket, or a second after its last request, is allowed. -/
theorem consume_ready {now : Instant} {bucket : Option (Bucket ℚ)}
    (h : ∀ b, bucket = some b → 0 ≤ b.tokens ∧ b.lastUsed + 1000000000 ≤ now) :
    ∃ b, defaultLimiter.consume now bucket = (b, true) ∧ 0 ≤ b.tokens ∧ b.lastUsed = now := by
  have hfull : 1 ≤ min ((bucket.getD ⟨20, now⟩).tokens +
      Tokens.asSecs (now.durationSince (bucket.getD ⟨20, now⟩).lastUsed) * 10) (20 : ℚ) := by
    cases bucket with
    | none =>
        have hsecs : Tokens.asSecs (F := ℚ) (now.durationSince now) = 0 := by
          rw [asSecs_durationSince le_rfl, sub_self]
        rw [Option.getD_none, hsecs]
        norm_num
    | some b =>
        obtain ⟨hb0, hlast⟩ := h b rfl
        have hsecs : 1 ≤ Tokens.asSecs (F := ℚ) (now.durationSince b.lastUsed) := by
          have hcast : (b.lastUsed : ℚ) + 1000000000 ≤ now := by exact_mod_cast hlast
          rw [asSecs_durationSince (by linarith), seconds, seconds]
          linarith
        rw [Option.getD_some]
        apply le_min
        · linarith
        · norm_num
  have hconsume : defaultLimiter.consume now bucket = (⟨_, now⟩, true) := if_pos hfull
  exact ⟨_, hconsume, sub_nonneg.mpr hfull, rfl⟩

theorem allow_ready {buckets : Buckets ℕ ℚ} {peer : ℕ} {now : Instant} (hpeer : peer ∈ [1, 2])
    (hknown : ∀ p, (buckets.lookup p).isSome = true → p = 1)
    (h : ∀ b, buckets.lookup peer = some b → 0 ≤ b.tokens ∧ b.lastUsed + 1000000000 ≤ now) :
    ∃ b, defaultLimiter.allow buckets peer now = (AList.insert peer b buckets, true) ∧
      0 ≤ b.tokens ∧ b.lastUsed = now := by
  obtain ⟨b, hconsume, hb⟩ := consume_ready h
  have hfew : [1, 2].dedup.length ≤ defaultLimiter.maxBuckets := by decide
  have hallow := RateLimiterConfig.allow_of_few hfew
    (fun p hp => List.mem_cons.mpr (.inl (hknown p hp))) hpeer now
  rw [hconsume] at hallow
  exact ⟨b, hallow, hb⟩

/-- The transitions with which connection `n` spawns a process. -/
theorem spawn_run (mgr : Manager) {tasks : ℕ → Option Task} {limiter : Buckets ℕ ℚ}
    {conns : ℕ → Option (ℕ × Phase)} {n : ℕ} {b : Bucket ℚ} (hconn : conns n = none)
    (htask : tasks n = none)
    (hallow : defaultLimiter.allow limiter 1 (n * 1000000000) = (AList.insert 1 b limiter, true)) :
    ∃ m', m' = (({ mgr with next := mgr.next + 1 } : Manager).launchChild (mgr.next + 1) spawnSpec
        { spawn := some 100 }).1 ∧ ∃ l,
      Lts.Run (serve defaultLimiter twoPeers) ⟨⟨mgr, tasks⟩, limiter, conns⟩ l
        ⟨⟨(m'.insertEntry (mgr.next + 1)
            ⟨mgr.children.length, 100, mgr.children.length, mgr.children.length⟩).persist
              (mgr.next + 1) spawnSpec 100 .running,
          Function.update tasks n (some (.supervise ⟨mgr.next + 1, spawnSpec, mgr.children.length, 0, .wait⟩))⟩,
          AList.insert 1 b limiter, Function.update conns n (some (1, .closed))⟩ := by
  have haccept : serve defaultLimiter twoPeers ⟨⟨mgr, tasks⟩, limiter, conns⟩
      (.accept n 1 (n * 1000000000)) = some (⟨⟨mgr, tasks⟩, AList.insert 1 b limiter,
        Function.update conns n (some (1, .reading))⟩, []) := by
    simp only [serve, Supervisor.accept, hconn, htask, Option.isNone_none, Bool.and_self, if_true,
      hallow, Supervisor.setConn]
  have hread : readMsg (frameOf (.spawn spawnSpec)) = .ok (Request.spawn spawnSpec, []) := by
    decide
  have hrequest : serve defaultLimiter twoPeers ⟨⟨mgr, tasks⟩, AList.insert 1 b limiter,
      Function.update conns n (some (1, .reading))⟩
      (.request n 1 (frameOf (.spawn spawnSpec)) (fun _ => none)) =
      some (⟨⟨mgr, Function.update tasks n (some (.spawn spawnSpec))⟩, AList.insert 1 b limiter,
        Function.update conns n (some (1, .dispatched))⟩, []) := by
    simp [serve, Supervisor.request, receive, hread, handle, dispatch, callFor, step, htask,
      Supervisor.setConn, Authz.authorize, twoPeers, Call.task]
  exact ⟨_, rfl, _, Lts.Run.cons haccept (Lts.Run.cons hrequest
    (Lts.Run.cons (serve_sched {} rfl rfl)
    (Lts.Run.cons (serve_sched { spawn := some 100 } rfl rfl)
    (Lts.Run.cons (serve_sched {} rfl rfl)
    (Lts.Run.cons (serve_sched {} rfl rfl)
    (Lts.Run.single (serve_sched_answered {} rfl rfl)))))))⟩

theorem Spawned.round {n : ℕ} {s : Supervisor ℕ ℚ} (h : Spawned n s) :
    ∃ l s', Lts.Run (serve defaultLimiter twoPeers) s l s' ∧ Spawned (n + 1) s' := by
  obtain ⟨b, hallow, hb0, hlast⟩ := allow_ready (by decide) h.known h.bucket
  obtain ⟨hconn, htask⟩ := h.free n le_rfl
  obtain ⟨⟨mgr, tasks⟩, limiter, conns⟩ := s
  obtain ⟨m', hm', l, hr⟩ := spawn_run mgr hconn htask hallow
  obtain ⟨hprocs, hnext, -, -⟩ := Manager.launchChild_frame (Prod.ext hm'.symm rfl)
  have hcg := Manager.launchChild_cgroups (Prod.ext hm'.symm rfl)
  have hn : mgr.next = n + 1 := h.next
  have hnew : mgr.next + 1 ∉ m'.procs := by
    rw [hprocs]
    intro hmem
    obtain ⟨e, he⟩ := AList.lookup_isSome.mpr hmem |> Option.isSome_iff_exists.mp
    have := (h.entries ⟨_, e⟩ (AList.mem_lookup_iff.mp he)).1
    dsimp only at this
    lia
  have hentries := AList.entries_insert_of_notMem (b :=
    (⟨100, .running, some mgr.children.length, some mgr.children.length, 0, true⟩ : ProcEntry)) hnew
  refine ⟨l, _, hr, ?_, ?_, ?_, ?_, ?_, ?_, ?_, ?_⟩
  · intro c hc
    obtain ⟨hconn', htask'⟩ := h.free c (by omega)
    have hne : c ≠ n := by omega
    exact ⟨(Function.update_of_ne hne _ _).trans hconn', (Function.update_of_ne hne _ _).trans htask'⟩
  · show m'.next = n + 1 + 1
    rw [hnext]
    lia
  · show m'.cgroups = none
    rw [← Option.isNone_iff_eq_none, ← Option.not_isSome, hcg]
    simp [show mgr.cgroups = none from h.cgroups]
  · show (AList.insert _ _ m'.procs).entries.length = n + 1
    rw [hentries, List.length_cons, hprocs]
    exact congrArg (· + 1) h.length
  · intro x hx
    have hx' : x ∈ (AList.insert (mgr.next + 1) (⟨100, .running, some mgr.children.length,
      some mgr.children.length, 0, true⟩ : ProcEntry) m'.procs).entries := hx
    rw [hentries, hprocs] at hx'
    rcases List.mem_cons.mp hx' with rfl | hx'
    · have h100 : IsU32 100 := by decide
      have h0 : IsU32 0 := by decide
      exact ⟨by dsimp only; lia, h100, trivial, h0⟩
    · obtain ⟨hle, hfit⟩ := h.entries x hx'
      exact ⟨Nat.le_succ_of_le hle, hfit⟩
  · intro t task ht
    rcases tasks_update (w := ⟨mgr, tasks⟩) ht with ⟨-, hsome⟩ | ⟨-, ht'⟩
    · obtain rfl := Option.some.inj hsome
      trivial
    · exact h.tasks t task ht'
  · intro p hp
    rw [Table.lookup_insert_if] at hp
    by_cases hp1 : p = 1
    · exact hp1
    · rw [if_neg hp1] at hp
      exact h.known p hp
  · intro b' hb'
    rw [Table.lookup_insert_if, if_pos rfl] at hb'
    obtain rfl := Option.some.inj hb'
    refine ⟨hb0, ?_⟩
    rw [hlast]
    push_cast
    lia

theorem spawned_run (n : ℕ) : ∃ l s,
    Lts.Run (serve defaultLimiter twoPeers) (Supervisor.new (World.start .new)) l s ∧ Spawned n s := by
  induction n with
  | zero => exact ⟨[], _, Lts.Run.nil, Spawned.new⟩
  | succ n ih =>
      obtain ⟨l, s, hr, hs⟩ := ih
      obtain ⟨l', s', hr', hs'⟩ := hs.round
      exact ⟨l ++ l', s', hr.append hr', hs'⟩

theorem Spawned.ask {n : ℕ} (hn : n + 1 < 2 ^ 64) {s : Supervisor ℕ ℚ} (h : Spawned n s) : ∃ l s',
    Lts.Run (serve defaultLimiter twoPeers) s l s' ∧ s'.procs = s.procs ∧ s'.procs.Fits ∧
      s'.conns n = some (2, .reading) := by
  obtain ⟨hconn, htask⟩ := h.free n le_rfl
  have hfit : s.procs.Fits := by
    refine ⟨fun x hx => ?_, h.tasks⟩
    obtain ⟨hle, hentry⟩ := h.entries x hx
    exact ⟨Nat.lt_of_le_of_lt hle hn, hentry⟩
  have hnone : s.limiter.lookup 2 = none := by
    by_contra hsome
    exact absurd (h.known 2 (Option.isSome_iff_ne_none.mpr hsome)) (by decide)
  have hready : ∀ b, s.limiter.lookup 2 = some b →
      0 ≤ b.tokens ∧ b.lastUsed + 1000000000 ≤ (n * 1000000000 : Instant) := by
    intro b hb
    rw [hnone] at hb
    cases hb
  obtain ⟨b, hallow, -, -⟩ := allow_ready (by decide) h.known hready
  have haccept : serve defaultLimiter twoPeers s (.accept n 2 (n * 1000000000)) =
      some (Supervisor.setConn { s with limiter := AList.insert 2 b s.limiter } n 2 .reading, []) := by
    simp only [serve, Supervisor.accept, hconn, htask, Option.isNone_none, Bool.and_self, if_true,
      hallow]
  exact ⟨_, _, Lts.Run.single haccept, rfl, hfit, conns_setConn _ _⟩

/-- After two spawns, the reader gets one answer to `List`. -/
theorem one_reply_two : ∃ l s, Lts.Run (serve defaultLimiter twoPeers) (Supervisor.new (World.start .new)) l s ∧
    s.procs.mgr.procs.entries.length = 2 ∧
    OneReply defaultLimiter twoPeers s 2 2 (frameOf .list) (fun _ => none) (Lts.events l) := by
  obtain ⟨l, s, hr, hs⟩ := spawned_run 2
  obtain ⟨l', s', hr', hprocs, hfit, hconn⟩ := hs.ask (by decide)
  have husage : ∀ (id : Handle) (u : Usage), (fun _ : Handle => (none : Option Usage)) id = some u → u.Fits := by
    intro id u h
    cases h
  have hlen : s'.procs.mgr.procs.entries.length = 2 := by
    rw [hprocs]
    exact hs.length
  refine ⟨l ++ l', s', hr.append hr', hlen, ?_⟩
  have hread : readMsg (frameOf .list) = .ok (Request.list, []) := by decide
  exact (one_reply_iff (hr.append hr') hconn hread (by decide) rfl hfit trivial husage).mpr (fun _ => listSize_le hfit husage (by omega))

/-- After 13107 spawns, the reader gets none. -/
theorem list_unanswered : ∃ l s, Lts.Run (serve defaultLimiter twoPeers) (Supervisor.new (World.start .new)) l s ∧
    s.procs.Fits ∧ s.conns 13107 = some (2, .reading) ∧
    readMsg (frameOf .list) = .ok (Request.list, []) ∧ twoPeers.authorize 2 .list = .ok () ∧
    ¬ OneReply defaultLimiter twoPeers s 13107 2 (frameOf .list) (fun _ => none) (Lts.events l) := by
  obtain ⟨l, s, hr, hs⟩ := spawned_run 13107
  obtain ⟨l', s', hr', hprocs, hfit, hconn⟩ := hs.ask (by decide)
  have hread : readMsg (frameOf .list) = .ok (Request.list, []) := by decide
  have hauth : twoPeers.authorize 2 .list = .ok () := by decide
  have hbig : maxFrame < listSize s'.procs.mgr (fun _ => none) := by
    have hle := le_listSize s'.procs.mgr (fun _ => none)
    have hlen : s'.procs.mgr.procs.entries.length = 13107 := by
      rw [hprocs]
      exact hs.length
    unfold maxFrame
    omega
  exact ⟨l ++ l', s', hr.append hr', hfit, hconn, hread, hauth,
    list_not_answered (hr.append hr') hconn hread hauth hbig⟩

end Spawned

end MeshSupervisor
