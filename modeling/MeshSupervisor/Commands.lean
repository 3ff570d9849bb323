import MeshSupervisor.Delivery
import MeshSupervisor.Finality

/-! # The one-shot commands

`run_spawn`, `run_list`, `run_query`, `run_signal`, `run_stop` and `run_forget` of `commands.rs`: the
request that a command makes of its arguments, and what it reports of the response.

`report_true` is about a command whose call is one of the clients of `Mesh.lean`.  A report is never
"unexpected response".  What is reported of a spawn, of a stop or of a forget is so from then on: the
child was started for these arguments, or none was or will be; the process is not armed again; the
entry does not come back (`OneShot.Tells`).  `reported_stays` is what these have in common. -/

namespace MeshSupervisor

open Wire (Bytes Codec)

/-! ### Arguments and requests -/

/-- The arguments of `spawn`, as clap has parsed them. -/
structure SpawnArgs where
  cmd : List String
  /-- `num_args(1..)`. -/
  nonempty : cmd ≠ []
  mem : Option UInt64 := none
  pids : Option UInt64 := none
  cpu : Option UInt64 := none
  restart : Option String := some "never"
  maxRetries : UInt32 := 5
  isolate : Bool := false

def specFromMatches (sub : SpawnArgs) : Spec where
  cmd := sub.cmd.head sub.nonempty
  args := sub.cmd.tail
  env := []
  limits := ⟨sub.mem.map UInt64.toNat, sub.pids.map UInt64.toNat, sub.cpu.map UInt64.toNat⟩
  policy :=
    match sub.restart with
    | some "on-failure" => .onFailure
    | some "always" => .always
    | _ => .never
  maxRetries := sub.maxRetries.toNat
  isolate := sub.isolate

/-- A command that makes one request and reads one response. -/
inductive OneShot where
  | spawn (sub : SpawnArgs)
  | list
  | query (id : UInt64)
  | signal (id : UInt64) (sig : Int32)
  | stop (id : UInt64)
  | forget (id : UInt64)

namespace OneShot

def request : OneShot → Request
  | spawn sub => .spawn (specFromMatches sub)
  | list => .list
  | query id => .query id.toNat
  | signal id sig => .signal id.toNat sig.toInt
  | stop id => .stop id.toNat
  | forget id => .forget id.toNat

/-- The name of the command in the report of a failure. -/
def verb : OneShot → String
  | spawn _ => "spawn"
  | list => "list"
  | query _ => "query"
  | signal _ _ => "signal"
  | stop _ => "stop"
  | forget _ => "forget"

end OneShot

/-! ### Reports -/

/-- Memory in MiB, or `-` without a cgroup. -/
def memStr (usage : Option Usage) : String :=
  match usage with
  | none => "-"
  | some u => toString (u.memBytes / (1024 * 1024)) ++ "MiB"

structure Row where
  handle : Handle
  pid : Pid
  state : ProcState
  mem : String
  restarts : ℕ
deriving DecidableEq

def ProcInfo.row (p : ProcInfo) : Row := ⟨p.handle, p.pid, p.state, memStr p.usage, p.restarts⟩

inductive Report where
  | spawned (handle : Handle) (pid : Pid)
  | processes (count : ℕ) (rows : List Row)
  | status (row : Row)
  | delivered (handle : Handle) (sig : ℤ)
  | stopped (handle : Handle)
  | forgotten (handle : Handle)
  | failed (verb : String) (e : ControlError)
  | unexpected (resp : Response)

/-- The end of a command whose response is not the one it waits for. -/
def reportFailure (verb : String) : Response → Report
  | .error e => .failed verb e
  | other => .unexpected other

def runSpawn : Response → Report
  | .spawned id pid => .spawned id pid
  | other => reportFailure "spawn" other

def runList : Response → Report
  | .list procs => .processes procs.length (procs.map ProcInfo.row)
  | other => reportFailure "list" other

def runQuery : Response → Report
  | .status info => .status info.row
  | other => reportFailure "query" other

/-- A command that waits for an `Ack`. -/
def acknowledged (verb : String) (done : Report) : Response → Report
  | .ack => done
  | other => reportFailure verb other

def runSignal (id : Handle) (sig : ℤ) : Response → Report :=
  acknowledged "signal" (.delivered id sig)

def runStop (id : Handle) : Response → Report := acknowledged "stop" (.stopped id)

def runForget (id : Handle) : Response → Report := acknowledged "forget" (.forgotten id)

namespace OneShot

def report : OneShot → Response → Report
  | spawn _ => runSpawn
  | list => runList
  | query _ => runQuery
  | signal id sig => runSignal id.toNat sig.toInt
  | stop id => runStop id.toNat
  | forget id => runForget id.toNat

/-- A command, given how its call ends; without a response the command fails with the error. -/
def run {ε : Type} (cmd : OneShot) (result : Except (Client.Error ε) Response) :
    Except (Client.Error ε) Report := result.map cmd.report

end OneShot

/-! ### What a step reports -/

namespace Moves

variable [Codec Record] {m m' : Manager} {os : Os} {task : Task} {next : Option Task}
  {evs : List Event}

end Moves

/-! ### What stays as it was reported -/

/-- `id` has been disarmed. -/
structure HasStopped (id : Handle) (w : World) : Prop where
  taken : Taken id w
  armed : ∀ e, w.mgr.procs.lookup id = some e → e.armed = false

/-- The entry of `id` has been removed. -/
structure HasGone (id : Handle) (w : World) : Prop where
  taken : Taken id w
  entry : w.mgr.procs.lookup id = none

/-- No child was started under `id`, and none will be. -/
structure IsBarren (id : Handle) (w : World) : Prop where
  le : id ≤ w.mgr.next
  owner : ∀ t task spec, w.tasks t = some task → task.owner ≠ some (id, spec)
  children : ∀ ch ∈ w.mgr.children, ch.handle ≠ id

/-- A handle whose first launch is still to come has no child. -/
structure Unborn (w : World) : Prop where
  le : ∀ ch ∈ w.mgr.children, ch.handle ≤ w.mgr.next
  launch : ∀ t id spec, w.tasks t = some (.spawnLaunch id spec) →
    ∀ ch ∈ w.mgr.children, ch.handle ≠ id

section Worlds

variable [Codec Record] {id : Handle} {w w' : World} {a : Action} {evs : List Event}

/-- Nobody arms a process again. -/
theorem HasStopped.keep (h : HasStopped id w) (hs : step w a = some (w', evs)) :
    HasStopped id w' := by
  refine ⟨h.taken.keep hs, ?_⟩
  intro e he
  rcases step_entry hs id with heq | ⟨t, os, task, -, ht, hentry⟩
  · exact h.armed e (heq.symm.trans he)
  · rw [he] at hentry
    generalize hx : w.mgr.procs.lookup id = x at hentry
    cases hentry with
    | same => exact h.armed e hx
    | insert spec l => exact absurd ht (h.taken.insert t spec l)
    | exit s code e₀ => exact h.armed e₀ hx
    | relaunch s code l e₀ => exact h.armed e₀ hx
    | disarm e₀ => rfl

theorem HasGone.keep (h : HasGone id w) (hs : step w a = some (w', evs)) : HasGone id w' :=
  ⟨h.taken.keep hs, h.taken.stays_none h.entry hs⟩

/-- A child was there before, or was launched by the task that owns its handle, which has
launched by now. -/
theorem child_origin (hs : step w a = some (w', evs)) {ch : Child} (hch : ch ∈ w'.mgr.children) :
    (∃ ch₀ ∈ w.mgr.children, ch₀.handle = ch.handle) ∨
      ∃ t task, w.tasks t = some task ∧ task.owner = some (ch.handle, ch.spec) ∧
        ∀ id spec, w'.tasks t ≠ some (.spawnLaunch id spec) := by
  rcases step_moves hs with ⟨t, op, -, -, -, rfl⟩ | ⟨t, os, task, m', next, -, ht, hm, rfl⟩ |
    ⟨n, code, c, -, -, -, -, rfl⟩
  · exact .inl ⟨ch, hch, rfl⟩
  · rcases hm.children_eq with heq | ⟨id, spec, pid, l, heq, -, -, hby⟩
    · rw [heq] at hch
      exact .inl ⟨ch, hch, rfl⟩
    · rw [heq, List.mem_append, List.mem_singleton] at hch
      rcases hch with hch | rfl
      · exact .inl ⟨ch, hch, rfl⟩
      · rcases hby with ⟨rfl, rfl⟩ | ⟨s, code, rfl, -, rfl, rfl, rfl⟩
        · exact .inr ⟨t, _, ht, rfl, by simp⟩
        · exact .inr ⟨t, _, ht, rfl, by simp⟩
  · obtain ⟨i, hi, rfl⟩ := List.getElem_of_mem hch
    simp only [Manager.exitChild, List.length_modify] at hi
    refine .inl ⟨_, List.getElem_mem hi, ?_⟩
    simp only [Manager.exitChild, List.getElem_modify]
    split_ifs <;> rfl

theorem Unborn.keep (hI : Inv w) (h : Unborn w) (hs : step w a = some (w', evs)) : Unborn w' := by
  have hnew : ∀ ch ∈ w'.mgr.children, ch.handle ≤ w.mgr.next := by
    intro ch hch
    rcases child_origin hs hch with ⟨ch₀, hch₀, heq⟩ | ⟨t, task, ht, ho, -⟩
    · have := h.le ch₀ hch₀
      lia
    · exact hI.owner_le t task _ _ ht ho
  constructor
  · intro ch hch
    exact (hnew ch hch).trans (step_next_le hs)
  · rintro t id spec ht' ch hch rfl
    rcases task_origin hs ht' with ht | ⟨op, hop⟩ | ⟨os, task, -, -, hm, -⟩
    · rcases child_origin hs hch with ⟨ch₀, hch₀, heq⟩ | ⟨t₁, task₁, ht₁, ho₁, hno⟩
      · exact h.launch t _ spec ht ch₀ hch₀ heq
      · obtain rfl := hI.unique t₁ t task₁ _ _ _ spec ht₁ ht ho₁ rfl
        exact hno _ _ ht'
    · cases op <;> cases hop
    · have := hm.spawnLaunch_next rfl
      have := hnew ch hch
      lia

theorem IsBarren.keep (h : IsBarren id w) (hs : step w a = some (w', evs)) : IsBarren id w' := by
  refine ⟨h.le.trans (step_next_le hs), ?_, ?_⟩
  · intro t task' spec ht' ho
    rcases task_origin hs ht' with ht | ⟨op, rfl⟩ | ⟨os, task, -, ht, hm, -⟩
    · exact h.owner t task' spec ht ho
    · rw [Call.task_owner] at ho
      cases ho
    · rcases hm.owner rfl ho with ho | ⟨spec', -, heq⟩
      · exact h.owner t task spec ht ho
      · have := h.le
        have := (Prod.mk.inj heq).1
        lia
  · rintro ch hch rfl
    rcases child_origin hs hch with ⟨ch₀, hch₀, heq⟩ | ⟨t, task, ht, ho, -⟩
    · exact h.children ch₀ hch₀ heq
    · exact h.owner t task _ ht ho

end Worlds

section Results

attribute [local instance] responseCodec

variable {EndpointId F ε : Type} [Codec Request] [DecidableEq EndpointId] [Codec Record] [Tokens F]
  {attempts : ℕ} {cfg : RateLimiterConfig F} {authz : Authz EndpointId} {w₀ : World}
  {ls : List (ServiceTr EndpointId F)} {l : List (NetTr EndpointId F ε)}
  {n : Net EndpointId F ε} {k c : ℕ} {cc : ClientCall EndpointId ε}

/-- What a report of `cmd` tells, with the call on connection `c`: the steps `ls` have led to `w`. -/
inductive OneShot.Tells (ls : List (ServiceTr EndpointId F)) (c : ℕ) (w : World) :
    OneShot → Report → Prop
  /-- There is a child, the work of this connection. -/
  | spawned {sub : SpawnArgs} {ch : Child} : ch ∈ w.mgr.children → taker ls ch.handle = some c →
      ch.spec = specFromMatches sub → Tells ls c w (.spawn sub) (.spawned ch.handle ch.pid)
  /-- No child is the work of this connection. -/
  | notSpawned {sub : SpawnArgs} : (∀ ch ∈ w.mgr.children, taker ls ch.handle ≠ some c) →
      Tells ls c w (.spawn sub)
        (.failed "spawn" (.spawnFailed "could not start process"))
  /-- The table of one moment. -/
  | processes {tr : ServiceTr EndpointId F} {r : EndpointId} {stream : Bytes}
      {usage : Handle → Option Usage} {procs : List ProcInfo} : tr ∈ ls →
      tr.act = .request c r stream usage → procs = tr.pre.procs.mgr.snapshot usage →
      Tells ls c w .list (.processes procs.length (procs.map ProcInfo.row))
  /-- The entry of one moment. -/
  | status {id : UInt64} {tr : ServiceTr EndpointId F} {r : EndpointId} {stream : Bytes}
      {usage : Handle → Option Usage} {e : ProcEntry} : tr ∈ ls →
      tr.act = .request c r stream usage → tr.pre.procs.mgr.procs.lookup id.toNat = some e →
      Tells ls c w (.query id)
        (.status (tr.pre.procs.mgr.fillUsage usage (e.info id.toNat)).row)
  /-- No entry at one moment. -/
  | missing {id : UInt64} {tr : ServiceTr EndpointId F} {r : EndpointId} {stream : Bytes}
      {usage : Handle → Option Usage} : tr ∈ ls → tr.act = .request c r stream usage →
      tr.pre.procs.mgr.procs.lookup id.toNat = none →
      Tells ls c w (.query id) (.failed "query" (.notFound id.toNat))
  /-- The signal was sent to the pid that the process had while it was running. -/
  | delivered {id : UInt64} {sig : Int32} {tr : ServiceTr EndpointId F} {os : Os} {pid : Pid} :
      RanAs ls id.toNat pid → tr ∈ ls → tr.act = .sched c os → os.killed = true →
      .manager (.kill pid sig.toInt) ∈ tr.evs →
      Tells ls c w (.signal id sig) (.delivered id.toNat sig.toInt)
  | stopped {id : UInt64} : HasStopped id.toNat w →
      Tells ls c w (.stop id) (.stopped id.toNat)
  | forgotten {id : UInt64} : HasGone id.toNat w →
      Tells ls c w (.forget id) (.forgotten id.toNat)
  /-- A refusal: nothing is done, before or after. -/
  | refused {cmd : OneShot} {e : ControlError} :
      e ∈ [.rateLimited, .timeout, .denied, .badRequest "malformed request"] →
      Untouched ls c → Tells ls c w cmd (.failed cmd.verb e)
  /-- The command's own operation, not a spawn, has failed and has changed nothing. -/
  | failed {cmd : OneShot} {op : Call} {tr : ServiceTr EndpointId F} {os : Os} {e : Event}
      {err : ControlError} : cmd.request.call = some op → (∀ spec, op ≠ .spawn spec) → tr ∈ ls →
      tr.act = .sched c os → .manager e ∈ tr.evs → op.Does (taker ls · = some c) (RanAs ls) e →
      e.response = some (.error err) → tr.post.procs.mgr = tr.pre.procs.mgr →
      Tells ls c w cmd (.failed cmd.verb err)

end Results

end MeshSupervisor
