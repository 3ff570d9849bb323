import MeshSupervisor.Tasks

/-! # One writer for each stdin

Any number of `pipe_stdin` calls run next to the tasks of the process manager.  A call resolves
the stdin slot of the launch that the table has at that moment, waits for the lock of the slot,
and copies its stream into the pipe while it holds the lock; when it is done, or fails, it empties
the slot before it releases the lock.  The slot of a launch stays what it is when the handle is
relaunched: the new launch comes with a slot of its own.

`one_writer`: what is written to the stdin of a launch is a prefix of the stream of the first call
that took its lock; every other call that resolved to the launch writes nothing and returns an
error; no call writes to two launches; and a call that returns `Ok` has written its whole stream,
and closed the pipe after that. -/

namespace MeshSupervisor

open Wire (Bytes Codec)

/-! ### Calls and slots -/

/-- `Arc<AsyncMutex<Option<ChildStdin>>>` of a launch. -/
structure StdinSlot where
  /-- The pipe is still there. -/
  isOpen : Bool
  /-- The call that holds the lock. -/
  holder : Option ℕ
deriving DecidableEq

/-- Where a call of `pipe_stdin` stands. -/
inductive PipePhase where
  /-- `stdin.lock()`. -/
  | locking
  /-- `copy`: what it has read and not written, and what is still to come on the stream. -/
  | copying (buf rest : Bytes)
  | returned (result : Except ControlError Unit)

/-- A call of `pipe_stdin`: the slot it has resolved (`none`: one that never had a pipe, or no
slot at all), and the stream it is to copy. -/
structure PipeCall where
  slot : Option LaunchId
  stream : Bytes
  phase : PipePhase

/-- The manager and its tasks, the stdin slots of the launches, and the calls by number. -/
structure Pipes where
  world : World
  slots : LaunchId → StdinSlot
  calls : ℕ → Option PipeCall

/-- A choice of a caller, of the scheduler or of the environment. -/
inductive PipeAction where
  | world (a : Action)
  /-- Call `c` is made for `id`, with this stream. -/
  | call (c : ℕ) (id : Handle) (stream : Bytes)
  | lock (c : ℕ)
  /-- The next `n` bytes of the stream come in. -/
  | read (c n : ℕ)
  /-- The pipe takes `n` bytes. -/
  | write (c n : ℕ)
  /-- Reading or writing fails. -/
  | fail (c : ℕ)
  /-- The end of the stream. -/
  | eof (c : ℕ)

inductive PipeEvent where
  | manager (e : Event)
  /-- Call `c` has taken the lock of launch `n`. -/
  | locked (c : ℕ) (n : LaunchId)
  | wrote (c : ℕ) (n : LaunchId) (bytes : Bytes)
  /-- The stdin of launch `n` is closed. -/
  | closed (n : LaunchId)
  | returned (c : ℕ) (result : Except ControlError Unit)

namespace Pipes

/-- No call has been made, and every launch comes with an open slot. -/
def start (world : World) : Pipes := ⟨world, fun _ => ⟨true, none⟩, fun _ => none⟩

def setCall (w : Pipes) (c : ℕ) (call : PipeCall) : Pipes :=
  { w with calls := Function.update w.calls c (some call) }

def setSlot (w : Pipes) (n : LaunchId) (slot : StdinSlot) : Pipes :=
  { w with slots := Function.update w.slots n slot }

def stdinUnavailable : Except ControlError Unit := .error (.badRequest "stdin unavailable")

def stdinClosed : Except ControlError Unit := .error (.badRequest "stdin pipe closed")

/-- `*guard = None`, and the guard is dropped. -/
def finish (w : Pipes) (c : ℕ) (n : LaunchId) (call : PipeCall) (result : Except ControlError Unit) :
    Pipes × List PipeEvent :=
  ((w.setSlot n ⟨false, none⟩).setCall c { call with phase := .returned result },
    [.closed n, .returned c result])

variable [Codec Record]

def step (w : Pipes) : PipeAction → Option (Pipes × List PipeEvent)
  | .world a => (MeshSupervisor.step w.world a).map
      (fun p => ({ w with world := p.1 }, p.2.map .manager))
  | .call c id stream =>
      if (w.calls c).isNone then
        match w.world.mgr.stdinSlot id with
        | .error e => some (w.setCall c ⟨none, stream, .returned (.error e)⟩, [.returned c (.error e)])
        | .ok slot => some (w.setCall c ⟨slot, stream, .locking⟩, [])
      else none
  | .lock c =>
      match w.calls c with
      | some ⟨none, stream, .locking⟩ =>
          some (w.setCall c ⟨none, stream, .returned stdinUnavailable⟩, [.returned c stdinUnavailable])
      | some ⟨some n, stream, .locking⟩ =>
          match w.slots n with
          | ⟨_, some _⟩ => none
          | ⟨true, none⟩ => some ((w.setSlot n ⟨true, some c⟩).setCall c
              ⟨some n, stream, .copying [] stream⟩, [.locked c n])
          | ⟨false, none⟩ => some (w.setCall c ⟨some n, stream, .returned stdinUnavailable⟩,
              [.locked c n, .returned c stdinUnavailable])
      | _ => none
  | .read c k =>
      match w.calls c with
      | some ⟨some n, stream, .copying buf rest⟩ =>
          if k ≤ rest.length then
            some (w.setCall c ⟨some n, stream, .copying (buf ++ rest.take k) (rest.drop k)⟩, [])
          else none
      | _ => none
  | .write c k =>
      match w.calls c with
      | some ⟨some n, stream, .copying buf rest⟩ =>
          if k ≤ buf.length then
            some (w.setCall c ⟨some n, stream, .copying (buf.drop k) rest⟩, [.wrote c n (buf.take k)])
          else none
      | _ => none
  | .fail c =>
      match w.calls c with
      | some ⟨some n, stream, .copying buf rest⟩ =>
          some (w.finish c n ⟨some n, stream, .copying buf rest⟩ stdinClosed)
      | _ => none
  | .eof c =>
      match w.calls c with
      | some ⟨some n, stream, .copying [] []⟩ =>
          some (w.finish c n ⟨some n, stream, .copying [] []⟩ (.ok ()))
      | _ => none

/-! ### What a step can do -/

inductive Step (w : Pipes) (a : PipeAction) : Pipes → List PipeEvent → Prop
  | world (world : World) (evs : List Event) : Step w a { w with world := world } (evs.map .manager)
  /-- The call has no launch to write to. -/
  | refused (c : ℕ) (stream : Bytes) (e : ControlError) : (∀ call, w.calls c = some call →
      call.slot = none ∧ call.phase = .locking ∧ call.stream = stream) →
      Step w a (w.setCall c ⟨none, stream, .returned (.error e)⟩) [.returned c (.error e)]
  | call (c : ℕ) (id : Handle) (slot : Option LaunchId) (stream : Bytes) : w.calls c = none →
      a = .call c id stream → w.world.mgr.stdinSlot id = .ok slot →
      Step w a (w.setCall c ⟨slot, stream, .locking⟩) []
  | lock (c : ℕ) (n : LaunchId) (stream : Bytes) : w.calls c = some ⟨some n, stream, .locking⟩ →
      w.slots n = ⟨true, none⟩ → Step w a ((w.setSlot n ⟨true, some c⟩).setCall c
        ⟨some n, stream, .copying [] stream⟩) [.locked c n]
  /-- The slot is empty. -/
  | unavailable (c : ℕ) (n : LaunchId) (stream : Bytes) :
      w.calls c = some ⟨some n, stream, .locking⟩ → w.slots n = ⟨false, none⟩ →
      Step w a (w.setCall c ⟨some n, stream, .returned stdinUnavailable⟩)
        [.locked c n, .returned c stdinUnavailable]
  | read (c k : ℕ) (n : LaunchId) (stream buf rest : Bytes) :
      w.calls c = some ⟨some n, stream, .copying buf rest⟩ →
      Step w a (w.setCall c ⟨some n, stream, .copying (buf ++ rest.take k) (rest.drop k)⟩) []
  | write (c k : ℕ) (n : LaunchId) (stream buf rest : Bytes) :
      w.calls c = some ⟨some n, stream, .copying buf rest⟩ →
      Step w a (w.setCall c ⟨some n, stream, .copying (buf.drop k) rest⟩) [.wrote c n (buf.take k)]
  | finish (c : ℕ) (n : LaunchId) (stream buf rest : Bytes) (result : Except ControlError Unit) :
      w.calls c = some ⟨some n, stream, .copying buf rest⟩ →
      (result = stdinClosed ∨ (result = .ok () ∧ buf = [] ∧ rest = [])) →
      Step w a ((w.setSlot n ⟨false, none⟩).setCall c ⟨some n, stream, .returned result⟩)
        [.closed n, .returned c result]

variable {w w' : Pipes} {a : PipeAction} {evs : List PipeEvent}

theorem step_cases (h : w.step a = some (w', evs)) : Step w a w' evs := by
  cases a with
  | world a =>
    obtain ⟨p, -, he⟩ := Option.map_eq_some_iff.mp h
    cases he
    exact .world p.1 p.2
  | call c id stream =>
    simp only [step] at h
    split_ifs at h with hn
    have hnone := Option.isNone_iff_eq_none.mp hn
    cases hs : w.world.mgr.stdinSlot id with
    | error e =>
      rw [hs] at h
      cases h
      refine .refused c stream e ?_
      intro call hc
      rw [hnone] at hc
      cases hc
    | ok slot =>
      rw [hs] at h
      cases h
      exact .call c id slot stream hnone rfl hs
  | lock c =>
    simp only [step] at h
    split at h
    · next stream hc =>
      cases h
      refine .refused c stream _ ?_
      intro call hcall
      rw [hc] at hcall
      cases hcall
      exact ⟨rfl, rfl, rfl⟩
    · next n stream hc =>
      split at h
      · cases h
      · next hs =>
        cases h
        exact .lock c n stream hc hs
      · next hs =>
        cases h
        exact .unavailable c n stream hc hs
    · cases h
  | read c k =>
    simp only [step] at h
    split at h
    · next n stream buf rest hc =>
      split_ifs at h with hk
      cases h
      exact .read c k n stream buf rest hc
    · cases h
  | write c k =>
    simp only [step] at h
    split at h
    · next n stream buf rest hc =>
      split_ifs at h with hk
      cases h
      exact .write c k n stream buf rest hc
    · cases h
  | fail c =>
    simp only [step] at h
    split at h
    · next n stream buf rest hc =>
      cases h
      exact .finish c n stream buf rest _ hc (.inl rfl)
    · cases h
  | eof c =>
    simp only [step] at h
    split at h
    · next n stream hc =>
      cases h
      exact .finish c n stream [] [] _ hc (.inr ⟨rfl, rfl, rfl⟩)
    · cases h

/-! ### The history of a slot -/

/-- The calls that have taken the lock of launch `n`, in order. -/
def locks (n : LaunchId) (evs : List PipeEvent) : List ℕ :=
  evs.filterMap fun
    | .locked c m => if m = n then some c else none
    | _ => none

def written (n : LaunchId) (evs : List PipeEvent) : Bytes :=
  evs.flatMap fun
    | .wrote _ m bytes => if m = n then bytes else []
    | _ => []

/-- The slot of launch `n` after the events `evs`: untouched, in the hands of the call that first
took its lock, or emptied by that call. -/
inductive Stage (evs : List PipeEvent) (w : Pipes) (n : LaunchId) : Prop
  | fresh : locks n evs = [] → written n evs = [] → w.slots n = ⟨true, none⟩ → Stage evs w n
  | busy (c : ℕ) (stream buf rest : Bytes) : (locks n evs).head? = some c →
      w.calls c = some ⟨some n, stream, .copying buf rest⟩ → w.slots n = ⟨true, some c⟩ →
      written n evs ++ buf ++ rest = stream → Stage evs w n
  | done (c : ℕ) (stream : Bytes) (result : Except ControlError Unit) : (locks n evs).head? = some c →
      w.calls c = some ⟨some n, stream, .returned result⟩ → w.slots n = ⟨false, none⟩ →
      written n evs <+: stream → Stage evs w n

/-- Call `c` has returned `Ok`: its whole stream was written to the launch it resolved to, and the
pipe was closed after that. -/
def Delivered (evs : List PipeEvent) (w : Pipes) (c : ℕ) : Prop :=
  ∃ n stream before after, w.calls c = some ⟨some n, stream, .returned (.ok ())⟩ ∧
    (locks n evs).head? = some c ∧ evs = before ++ [.closed n, .returned c (.ok ())] ++ after ∧
    written n before = stream

structure Inv (evs : List PipeEvent) (w : Pipes) : Prop where
  stage : ∀ n, Stage evs w n
  /-- A call that copies holds the lock. -/
  holds : ∀ c n stream buf rest, w.calls c = some ⟨some n, stream, .copying buf rest⟩ →
    w.slots n = ⟨true, some c⟩
  wrote : ∀ c n bytes, .wrote c n bytes ∈ evs → (locks n evs).head? = some c ∧
    ∃ call, w.calls c = some call ∧ call.slot = some n
  returned : ∀ c slot stream result, w.calls c = some ⟨slot, stream, .returned result⟩ →
    .returned c result ∈ evs
  delivered : ∀ c, .returned c (.ok ()) ∈ evs → Delivered evs w c

section
omit [Codec Record]

variable {n : LaunchId} {c : ℕ} {more : List PipeEvent}

theorem locks_append (n : LaunchId) (evs more : List PipeEvent) :
    locks n (evs ++ more) = locks n evs ++ locks n more := List.filterMap_append

theorem written_append (n : LaunchId) (evs more : List PipeEvent) :
    written n (evs ++ more) = written n evs ++ written n more := List.flatMap_append

theorem head_append (h : (locks n evs).head? = some c) (more : List PipeEvent) :
    (locks n (evs ++ more)).head? = some c := by
  rw [locks_append, List.head?_append, h]
  rfl

theorem Stage.frame (hs : Stage evs w n) (hlocks : locks n more = []) (hwritten : written n more = [])
    (hslot : w'.slots n = w.slots n)
    (hcalls : ∀ c call, w.calls c = some call → call.slot = some n → call.phase ≠ .locking →
      w'.calls c = some call) : Stage (evs ++ more) w' n := by
  have hsame : written n (evs ++ more) = written n evs := by
    rw [written_append, hwritten, List.append_nil]
  cases hs with
  | fresh hl hw hopen =>
    apply Stage.fresh
    · rw [locks_append, hl, hlocks, List.append_nil]
    · exact hsame.trans hw
    · exact hslot.trans hopen
  | busy c stream buf rest hl hc hopen hw =>
    apply Stage.busy c stream buf rest
    · exact head_append hl more
    · exact hcalls c _ hc rfl (by simp)
    · exact hslot.trans hopen
    · rw [hsame]
      exact hw
  | done c stream result hl hc hopen hw =>
    apply Stage.done c stream result
    · exact head_append hl more
    · exact hcalls c _ hc rfl (by simp)
    · exact hslot.trans hopen
    · rw [hsame]
      exact hw

theorem Stage.of_holder (hs : Stage evs w n) (hslot : w.slots n = ⟨true, some c⟩) :
    (locks n evs).head? = some c ∧ ∃ stream buf rest,
      w.calls c = some ⟨some n, stream, .copying buf rest⟩ ∧ written n evs ++ buf ++ rest = stream := by
  cases hs with
  | fresh hl hw hopen =>
    rw [hslot] at hopen
    cases hopen
  | busy c' stream buf rest hl hc hopen hw =>
    rw [hslot] at hopen
    cases hopen
    exact ⟨hl, stream, buf, rest, hc, hw⟩
  | done c' stream result hl hc hopen hw =>
    rw [hslot] at hopen
    cases hopen

theorem calls_setCall (w : Pipes) (c c' : ℕ) (call : PipeCall) :
    (w.setCall c call).calls c' = if c' = c then some call else w.calls c' :=
  Function.update_apply ..

theorem slots_setSlot (w : Pipes) (n n' : LaunchId) (slot : StdinSlot) :
    (w.setSlot n slot).slots n' = if n' = n then slot else w.slots n' :=
  Function.update_apply ..

theorem locks_manager (n : LaunchId) (evs : List Event) : locks n (evs.map .manager) = [] := by
  unfold locks
  rw [List.filterMap_map]
  exact List.filterMap_eq_nil_iff.mpr (fun _ _ => rfl)

theorem written_manager (n : LaunchId) (evs : List Event) : written n (evs.map .manager) = [] := by
  unfold written
  rw [List.flatMap_map]
  exact List.flatMap_eq_nil_iff.mpr (fun _ _ => rfl)

theorem locks_locked (n m : LaunchId) (c : ℕ) (more : List PipeEvent) :
    locks n (.locked c m :: more) = (if m = n then [c] else []) ++ locks n more := by
  unfold locks
  split_ifs with hm
  · exact List.filterMap_cons_some (if_pos hm)
  · exact List.filterMap_cons_none (if_neg hm)

theorem written_wrote (n m : LaunchId) (c : ℕ) (bytes : Bytes) :
    written n [.wrote c m bytes] = if m = n then bytes else [] := List.append_nil _

theorem Stage.other {new : PipeCall} (hs : Stage evs w n)
    (hlocks : locks n more = []) (hwritten : written n more = []) (hslot : w'.slots n = w.slots n)
    (hcalls : w'.calls = Function.update w.calls c (some new))
    (hcall : ∀ call, w.calls c = some call → call.slot = some n → call.phase = .locking) :
    Stage (evs ++ more) w' n := by
  refine hs.frame hlocks hwritten hslot ?_
  intro c' call hc hresolved hphase
  have hne : c' ≠ c := by
    rintro rfl
    exact hphase (hcall call hc hresolved)
  rw [hcalls, Function.update_of_ne hne]
  exact hc

/-- A call that copies was the first to take the lock, and has written what it read so far but for
its buffer. -/
theorem Inv.of_copying (hI : Inv evs w) {stream buf rest : Bytes}
    (hc : w.calls c = some ⟨some n, stream, .copying buf rest⟩) : w.slots n = ⟨true, some c⟩ ∧
      (locks n evs).head? = some c ∧ written n evs ++ buf ++ rest = stream := by
  have hslot := hI.holds c n stream buf rest hc
  obtain ⟨hl, stream', buf', rest', hc', hw⟩ := (hI.stage n).of_holder hslot
  rw [hc] at hc'
  cases hc'
  exact ⟨hslot, hl, hw⟩

/-- A call that resolved to another launch, or is still waiting, is not writing to launch `n`. -/
theorem not_writing {m : LaunchId} {stream : Bytes} {phase : PipePhase}
    (hc : w.calls c = some ⟨some m, stream, phase⟩) (h : m ≠ n ∨ phase = .locking) :
    ∀ call, w.calls c = some call → call.slot = some n → call.phase = .locking := by
  intro call hcall hresolved
  obtain rfl := Option.some.inj (hc.symm.trans hcall)
  exact h.resolve_left (not_not_intro (Option.some.inj hresolved))

/-- What a step does to the slot of launch `n`. -/
theorem Stage.step (hI : Inv evs w) (hs : Step w a w' more) (n : LaunchId) : Stage (evs ++ more) w' n := by
  have hstage := hI.stage n
  cases hs with
  | world world evs' =>
    exact hstage.frame (locks_manager n evs') (written_manager n evs') rfl (fun _ _ hc _ _ => hc)
  | refused c stream e hcall =>
    exact hstage.other rfl rfl rfl rfl (fun call hc _ => (hcall call hc).2.1)
  | call c id slot stream hnone ha hres =>
    refine hstage.other rfl rfl rfl rfl ?_
    intro call hc
    rw [hnone] at hc
    cases hc
  | lock c m stream hcall hslot =>
    by_cases hm : m = n
    · subst hm
      cases hstage with
      | fresh hl hw hopen =>
        apply Stage.busy c stream [] stream
        · rw [locks_append, hl, locks_locked, if_pos rfl]
          rfl
        · rw [calls_setCall, if_pos rfl]
        · exact (slots_setSlot ..).trans (if_pos rfl)
        · rw [written_append, hw]
          rfl
      | busy c' stream' buf rest hl hc hopen hw =>
        rw [hslot] at hopen
        cases hopen
      | done c' stream' result hl hc hopen hw =>
        rw [hslot] at hopen
        cases hopen
    · refine hstage.other ?_ rfl ?_ rfl ?_
      · rw [locks_locked, if_neg hm]
        rfl
      · exact (slots_setSlot ..).trans (if_neg (Ne.symm hm))
      · exact not_writing hcall (.inr rfl)
  | unavailable c m stream hcall hslot =>
    by_cases hm : m = n
    · subst hm
      cases hstage with
      | fresh hl hw hopen =>
        rw [hslot] at hopen
        cases hopen
      | busy c' stream' buf rest hl hc hopen hw =>
        rw [hslot] at hopen
        cases hopen
      | done c' stream' result hl hc hopen hw =>
        have hne : c' ≠ c := by
          rintro rfl
          rw [hcall] at hc
          cases hc
        apply Stage.done c' stream' result (head_append hl _)
        · rw [calls_setCall, if_neg hne]
          exact hc
        · exact hopen
        · rw [written_append]
          exact (List.append_nil (written m evs)).symm ▸ hw
    · refine hstage.other ?_ rfl rfl rfl ?_
      · rw [locks_locked, if_neg hm]
        rfl
      · exact not_writing hcall (.inr rfl)
  | read c k m stream buf rest hcall =>
    by_cases hm : m = n
    · subst hm
      obtain ⟨hslot, hl, hw⟩ := hI.of_copying hcall
      apply Stage.busy c stream (buf ++ rest.take k) (rest.drop k)
      · exact head_append hl []
      · rw [calls_setCall, if_pos rfl]
      · exact hslot
      · rw [List.append_nil, ← List.append_assoc, List.append_assoc _ _ (rest.drop k),
          List.take_append_drop]
        exact hw
    · exact hstage.other rfl rfl rfl rfl (not_writing hcall (.inl hm))
  | write c k m stream buf rest hcall =>
    by_cases hm : m = n
    · subst hm
      obtain ⟨hslot, hl, hw⟩ := hI.of_copying hcall
      apply Stage.busy c stream (buf.drop k) rest
      · exact head_append hl _
      · rw [calls_setCall, if_pos rfl]
      · exact hslot
      · rw [written_append, written_wrote, if_pos rfl, List.append_assoc (written m evs),
          List.take_append_drop]
        exact hw
    · refine hstage.other rfl ?_ rfl rfl ?_
      · rw [written_wrote, if_neg hm]
      · exact not_writing hcall (.inl hm)
  | finish c m stream buf rest result hcall hres =>
    by_cases hm : m = n
    · subst hm
      obtain ⟨hslot, hl, hw⟩ := hI.of_copying hcall
      apply Stage.done c stream result
      · exact head_append hl _
      · rw [calls_setCall, if_pos rfl]
      · exact (slots_setSlot ..).trans (if_pos rfl)
      · rw [written_append]
        refine ⟨buf ++ rest, ?_⟩
        rw [← List.append_assoc]
        exact (List.append_nil (written m evs)).symm ▸ hw
    · refine hstage.other rfl rfl ?_ rfl ?_
      · exact (slots_setSlot ..).trans (if_neg (Ne.symm hm))
      · exact not_writing hcall (.inl hm)

theorem setCall_kept {v : Pipes} {call : PipeCall} {c' : ℕ} {slot : Option LaunchId} {stream : Bytes}
    {phase phase' : PipePhase} (hv : v.calls = w.calls) (hcall : w.calls c' = some ⟨slot, stream, phase⟩)
    (hphase : ∀ result, phase ≠ .returned result) (hc : w.calls c = some call) :
    ∃ phase'', (v.setCall c' ⟨slot, stream, phase'⟩).calls c = some { call with phase := phase'' } ∧
      ∀ result, call.phase = .returned result → phase'' = .returned result := by
  by_cases hcc : c = c'
  · subst hcc
    obtain rfl := Option.some.inj (hcall.symm.trans hc)
    refine ⟨phase', ?_, fun result h => absurd h (hphase result)⟩
    rw [calls_setCall, if_pos rfl]
  · refine ⟨call.phase, ?_, fun _ h => h⟩
    rw [calls_setCall, if_neg hcc, hv]
    exact hc

/-- What becomes of a call: its slot and its stream stay, and a result is final. -/
theorem Step.call_kept {call : PipeCall} (hs : Step w a w' more) (hc : w.calls c = some call) :
    ∃ phase, w'.calls c = some { call with phase := phase } ∧
      ∀ result, call.phase = .returned result → phase = .returned result := by
  have hnew : ∀ (c' : ℕ) (new : PipeCall), c ≠ c' →
      ∃ phase, (w.setCall c' new).calls c = some { call with phase := phase } ∧
        ∀ result, call.phase = .returned result → phase = .returned result := by
    intro c' new hne
    refine ⟨call.phase, ?_, fun _ h => h⟩
    rw [calls_setCall, if_neg hne]
    exact hc
  cases hs with
  | world world evs' => exact ⟨call.phase, hc, fun _ h => h⟩
  | refused c' stream e hcall =>
    by_cases hcc : c = c'
    · subst hcc
      obtain ⟨hslot, hphase, hstream⟩ := hcall call hc
      have hcall' : w.calls c = some ⟨none, stream, .locking⟩ := by
        rw [hc, ← hslot, ← hphase, ← hstream]
      exact setCall_kept rfl hcall' (fun _ h => nomatch h) hc
    · exact hnew c' _ hcc
  | call c' id slot stream hnone ha hres =>
    apply hnew c'
    rintro rfl
    rw [hnone] at hc
    cases hc
  | lock c' m stream hcall hslot => exact setCall_kept rfl hcall (fun _ h => nomatch h) hc
  | unavailable c' m stream hcall hslot => exact setCall_kept rfl hcall (fun _ h => nomatch h) hc
  | read c' k m stream buf rest hcall => exact setCall_kept rfl hcall (fun _ h => nomatch h) hc
  | write c' k m stream buf rest hcall => exact setCall_kept rfl hcall (fun _ h => nomatch h) hc
  | finish c' m stream buf rest result hcall hres => exact setCall_kept rfl hcall (fun _ h => nomatch h) hc

theorem Inv.holds_other (hI : Inv evs w) {v : Pipes} {c' : ℕ} {new : PipeCall} (hv : v.calls = w.calls)
    (hne : c ≠ c') {stream buf rest : Bytes}
    (hc : (v.setCall c' new).calls c = some ⟨some n, stream, .copying buf rest⟩) :
    w.slots n = ⟨true, some c⟩ := by
  rw [calls_setCall, if_neg hne, hv] at hc
  exact hI.holds c n stream buf rest hc

theorem Inv.step_holds (hI : Inv evs w) (hs : Step w a w' more) {stream buf rest : Bytes}
    (hc : w'.calls c = some ⟨some n, stream, .copying buf rest⟩) : w'.slots n = ⟨true, some c⟩ := by
  cases hs with
  | world world evs' => exact hI.holds c n stream buf rest hc
  | refused c' stream' e hcall =>
    by_cases hcc : c = c'
    · rw [calls_setCall, if_pos hcc] at hc
      cases hc
    · exact hI.holds_other rfl hcc hc
  | call c' id slot stream' hnone ha hres =>
    by_cases hcc : c = c'
    · rw [calls_setCall, if_pos hcc] at hc
      cases hc
    · exact hI.holds_other rfl hcc hc
  | lock c' m stream' hcall hslot =>
    by_cases hcc : c = c'
    · rw [calls_setCall, if_pos hcc] at hc
      cases hc
      rw [hcc]
      exact (slots_setSlot ..).trans (if_pos rfl)
    · have hheld := hI.holds_other rfl hcc hc
      have hne : n ≠ m := by
        rintro rfl
        rw [hslot] at hheld
        cases hheld
      exact ((slots_setSlot ..).trans (if_neg hne)).trans hheld
  | unavailable c' m stream' hcall hslot =>
    by_cases hcc : c = c'
    · rw [calls_setCall, if_pos hcc] at hc
      cases hc
    · exact hI.holds_other rfl hcc hc
  | read c' k m stream' buf' rest' hcall =>
    by_cases hcc : c = c'
    · rw [calls_setCall, if_pos hcc] at hc
      cases hc
      rw [hcc]
      exact hI.holds c' n stream buf' rest' hcall
    · exact hI.holds_other rfl hcc hc
  | write c' k m stream' buf' rest' hcall =>
    by_cases hcc : c = c'
    · rw [calls_setCall, if_pos hcc] at hc
      cases hc
      rw [hcc]
      exact hI.holds c' n stream buf' rest hcall
    · exact hI.holds_other rfl hcc hc
  | finish c' m stream' buf' rest' result hcall hres =>
    by_cases hcc : c = c'
    · rw [calls_setCall, if_pos hcc] at hc
      cases hc
    · have hheld := hI.holds_other rfl hcc hc
      have hne : n ≠ m := by
        rintro rfl
        rw [hI.holds c' n stream' buf' rest' hcall] at hheld
        cases hheld
        exact hcc rfl
      exact ((slots_setSlot ..).trans (if_neg hne)).trans hheld

/-- Who writes in a step is the first to have taken the lock. -/
theorem Inv.step_wrote (hI : Inv evs w) (hs : Step w a w' more) {bytes : Bytes}
    (he : .wrote c n bytes ∈ more) : (locks n evs).head? = some c ∧
      ∃ call, w.calls c = some call ∧ call.slot = some n := by
  cases hs with
  | write c' k m stream buf rest hcall =>
    cases List.mem_singleton.mp he
    exact ⟨(hI.of_copying hcall).2.1, _, hcall, rfl⟩
  | world world evs' =>
    obtain ⟨e, -, heq⟩ := List.mem_map.mp he
    cases heq
  | _ => simp at he

/-- A call returns `Ok` when its whole stream is written. -/
theorem Inv.step_delivered (hI : Inv evs w) (hs : Step w a w' more) (he : .returned c (.ok ()) ∈ more) :
    Delivered (evs ++ more) w' c := by
  cases hs with
  | finish c' m stream buf rest result hcall hres =>
    have hresult : .returned c (.ok ()) = PipeEvent.returned c' result := by simpa using he
    cases hresult
    obtain ⟨-, rfl, rfl⟩ := hres.resolve_left (fun h => nomatch h)
    obtain ⟨-, hl, hw⟩ := hI.of_copying hcall
    refine ⟨m, stream, evs, [], ?_, head_append hl _, (List.append_nil _).symm, ?_⟩
    · rw [calls_setCall, if_pos rfl]
    · rw [List.append_nil, List.append_nil] at hw
      exact hw
  | world world evs' =>
    obtain ⟨e, -, heq⟩ := List.mem_map.mp he
    cases heq
  | refused c' stream e hcall => cases List.mem_singleton.mp he
  | unavailable c' m stream hcall hslot => simp [stdinUnavailable] at he
  | _ => simp at he

theorem Inv.step_returned (hI : Inv evs w) (hs : Step w a w' more) {slot : Option LaunchId}
    {stream : Bytes} {result : Except ControlError Unit}
    (hc : w'.calls c = some ⟨slot, stream, .returned result⟩) : .returned c result ∈ evs ++ more := by
  have hother : ∀ (v : Pipes) (c' : ℕ) (new : PipeCall), v.calls = w.calls →
      (v.setCall c' new).calls c = some ⟨slot, stream, .returned result⟩ →
      .returned c result ∈ evs ∨ (c = c' ∧ new = ⟨slot, stream, .returned result⟩) := by
    intro v c' new hv hset
    rw [calls_setCall, hv] at hset
    split_ifs at hset with hcc
    · exact .inr ⟨hcc, Option.some.inj hset⟩
    · exact .inl (hI.returned c slot stream result hset)
  rw [List.mem_append]
  cases hs with
  | world world evs' => exact .inl (hI.returned c slot stream result hc)
  | refused c' stream' e hcall =>
    refine (hother w c' _ rfl hc).imp_right ?_
    rintro ⟨rfl, heq⟩
    cases heq
    exact List.mem_singleton.mpr rfl
  | unavailable c' m stream' hcall hslot =>
    refine (hother w c' _ rfl hc).imp_right ?_
    rintro ⟨rfl, heq⟩
    cases heq
    exact List.mem_cons_of_mem _ (List.mem_singleton.mpr rfl)
  | finish c' m stream' buf rest result' hcall hres =>
    refine (hother (w.setSlot m ⟨false, none⟩) c' _ rfl hc).imp_right ?_
    rintro ⟨rfl, heq⟩
    cases heq
    exact List.mem_cons_of_mem _ (List.mem_singleton.mpr rfl)
  | lock c' m stream' hcall hslot =>
    refine (hother (w.setSlot m ⟨true, some c'⟩) c' _ rfl hc).imp_right ?_
    rintro ⟨-, heq⟩
    cases heq
  | call c' id slot' stream' hnone ha hres | read c' k m stream' buf rest hcall
  | write c' k m stream' buf rest hcall =>
    refine (hother w c' _ rfl hc).imp_right ?_
    rintro ⟨-, heq⟩
    cases heq

theorem Delivered.step (hd : Delivered evs w c) (hs : Step w a w' more) :
    Delivered (evs ++ more) w' c := by
  obtain ⟨n, stream, before, after, hc, hl, hevs, hw⟩ := hd
  obtain ⟨phase, hc', hfinal⟩ := hs.call_kept hc
  obtain rfl := hfinal _ rfl
  refine ⟨n, stream, before, after ++ more, hc', head_append hl more, ?_, hw⟩
  rw [hevs, List.append_assoc]

theorem Inv.step (hI : Inv evs w) (hs : Step w a w' more) : Inv (evs ++ more) w' := by
  constructor
  · exact Stage.step hI hs
  · intro c n stream buf rest hc
    exact hI.step_holds hs hc
  · intro c n bytes he
    have hold : (locks n evs).head? = some c ∧ ∃ call, w.calls c = some call ∧ call.slot = some n := by
      rcases List.mem_append.mp he with he | he
      · exact hI.wrote c n bytes he
      · exact hI.step_wrote hs he
    obtain ⟨hl, call, hc, hslot⟩ := hold
    obtain ⟨phase, hc', -⟩ := hs.call_kept hc
    exact ⟨head_append hl more, _, hc', hslot⟩
  · intro c slot stream result hc
    exact hI.step_returned hs hc
  · intro c he
    rcases List.mem_append.mp he with he | he
    · exact (hI.delivered c he).step hs
    · exact hI.step_delivered hs he

theorem inv_start (world : World) : Inv [] (start world) := by
  constructor
  · intro n
    exact .fresh rfl rfl rfl
  · intro c n stream buf rest hc
    cases hc
  · intro c n bytes he
    cases he
  · intro c slot stream result hc
    cases hc
  · intro c he
    cases he

end

section
variable {world : World} {l : List (Lts.Tr Pipes PipeAction PipeEvent)} {n : LaunchId} {c : ℕ}
  {stream : Bytes}

theorem inv_run (hr : Lts.Run step (start world) l w) : Inv (Lts.events l) w := by
  induction hr with
  | nil => exact inv_start world
  | @snoc l w₁ w₂ a evs hr hs ih =>
    have hevs : Lts.events (l ++ [⟨w₁, a, evs, w₂⟩]) = Lts.events l ++ evs := by simp
    rw [hevs]
    exact ih.step (step_cases hs)

/-- Call `c` was made with this stream, and resolved to launch `n`. -/
def Resolves (l : List (Lts.Tr Pipes PipeAction PipeEvent)) (c : ℕ) (n : LaunchId) (stream : Bytes) :
    Prop :=
  ∃ tr ∈ l, ∃ id, tr.act = .call c id stream ∧ tr.pre.world.mgr.stdinSlot id = .ok (some n)

omit [Codec Record] in
theorem Step.call_origin {call : PipeCall} (hs : Step w a w' evs) (hc : w'.calls c = some call) :
    (∃ phase, w.calls c = some { call with phase := phase }) ∨ call.slot = none ∨
      ∃ id, a = .call c id call.stream ∧ w.world.mgr.stdinSlot id = .ok call.slot := by
  cases hw : w.calls c with
  | some call₀ =>
    obtain ⟨phase, hkept, -⟩ := hs.call_kept hw
    obtain rfl := Option.some.inj (hkept.symm.trans hc)
    exact .inl ⟨call₀.phase, rfl⟩
  | none =>
    right
    have hother : ∀ (v : Pipes) (c' : ℕ) (new : PipeCall), v.calls = w.calls →
        (v.setCall c' new).calls c = some call → c = c' ∧ new = call := by
      intro v c' new hv hset
      rw [calls_setCall, hv, hw] at hset
      split_ifs at hset with hcc
      exact ⟨hcc, Option.some.inj hset⟩
    cases hs with
    | world world evs' =>
      rw [show w.calls c = some call from hc] at hw
      cases hw
    | refused c' stream e hcall =>
      obtain ⟨-, rfl⟩ := hother w c' _ rfl hc
      exact .inl rfl
    | call c' id slot stream hnone ha hres =>
      obtain ⟨rfl, rfl⟩ := hother w c' _ rfl hc
      exact .inr ⟨id, ha, hres⟩
    | lock c' m stream hcall hslot =>
      obtain ⟨rfl, -⟩ := hother (w.setSlot m ⟨true, some c'⟩) c' _ rfl hc
      rw [hw] at hcall
      cases hcall
    | finish c' m stream buf rest result hcall hres =>
      obtain ⟨rfl, -⟩ := hother (w.setSlot m ⟨false, none⟩) c' _ rfl hc
      rw [hw] at hcall
      cases hcall
    | unavailable c' m stream hcall | read c' k m stream buf rest hcall
    | write c' k m stream buf rest hcall =>
      obtain ⟨rfl, -⟩ := hother w c' _ rfl hc
      rw [hw] at hcall
      cases hcall

theorem resolves_iff (hr : Lts.Run step (start world) l w) :
    Resolves l c n stream ↔ ∃ phase, w.calls c = some ⟨some n, stream, phase⟩ := by
  induction hr with
  | nil =>
    constructor
    · rintro ⟨tr, htr, -⟩
      cases htr
    · rintro ⟨phase, hc⟩
      cases hc
  | @snoc l w₁ w₂ a evs hr hs ih =>
    have hstep := step_cases hs
    constructor
    · rintro ⟨tr, htr, id, hact, hres⟩
      rcases List.mem_append.mp htr with htr | htr
      · obtain ⟨phase, hc⟩ := ih.mp ⟨tr, htr, id, hact, hres⟩
        obtain ⟨phase', hc', -⟩ := hstep.call_kept hc
        exact ⟨phase', hc'⟩
      · obtain rfl := List.mem_singleton.mp htr
        obtain rfl : a = .call c id stream := hact
        have hslot : w₁.world.mgr.stdinSlot id = .ok (some n) := hres
        simp only [step, hslot] at hs
        split_ifs at hs
        cases hs
        exact ⟨.locking, (calls_setCall ..).trans (if_pos rfl)⟩
    · rintro ⟨phase, hc⟩
      rcases hstep.call_origin hc with ⟨phase', hc'⟩ | hnone | ⟨id, ha, hres⟩
      · obtain ⟨tr, htr, hrest⟩ := ih.mpr ⟨phase', hc'⟩
        exact ⟨tr, List.mem_append_left _ htr, hrest⟩
      · cases hnone
      · exact ⟨_, List.mem_append_right _ (List.mem_singleton.mpr rfl), id, ha, hres⟩

end

end Pipes

open Pipes in
/-- **One writer.**  Only the first call to take the lock of a launch writes to its stdin, a prefix
of its stream; all of it, if it returns `Ok`, and the pipe is closed then.  Every other call that
resolved to the launch has returned an error, or returns one as soon as it gets the lock. -/
theorem one_writer [Codec Record] {world : World} {l : List (Lts.Tr Pipes PipeAction PipeEvent)}
    {w : Pipes} (hr : Lts.Run Pipes.step (.start world) l w) :
    (∀ n, (locks n (Lts.events l) = [] ∧ written n (Lts.events l) = []) ∨
      ∃ c stream, (locks n (Lts.events l)).head? = some c ∧ Resolves l c n stream ∧
        written n (Lts.events l) <+: stream) ∧
    (∀ n c stream, Resolves l c n stream → (locks n (Lts.events l)).head? ≠ some c →
      (∀ m bytes, .wrote c m bytes ∉ Lts.events l) ∧
      ((∃ e, w.calls c = some ⟨some n, stream, .returned (.error e)⟩) ∨
        w.calls c = some ⟨some n, stream, .locking⟩ ∧
          (locks n (Lts.events l) ≠ [] → (w.slots n).holder = none →
            ∃ w' e, w.step (.lock c) = some (w', [.locked c n, .returned c (.error e)])))) ∧
    (∀ c n n' bytes bytes', .wrote c n bytes ∈ Lts.events l → .wrote c n' bytes' ∈ Lts.events l →
      n = n') ∧
    (∀ c, .returned c (.ok ()) ∈ Lts.events l → ∃ n stream before after, Resolves l c n stream ∧
      (locks n (Lts.events l)).head? = some c ∧
      Lts.events l = before ++ [.closed n, .returned c (.ok ())] ++ after ∧
      written n before = stream) := by
  have hI := Pipes.inv_run hr
  refine ⟨?_, ?_, ?_, ?_⟩
  · intro n
    cases hI.stage n with
    | fresh hl hw hopen => exact .inl ⟨hl, hw⟩
    | busy c stream buf rest hl hc hopen hw =>
      have hpre : written n (Lts.events l) <+: stream := ⟨buf ++ rest, by rw [← List.append_assoc, hw]⟩
      exact .inr ⟨c, stream, hl, (resolves_iff hr).mpr ⟨_, hc⟩, hpre⟩
    | done c stream result hl hc hopen hw =>
      exact .inr ⟨c, stream, hl, (resolves_iff hr).mpr ⟨_, hc⟩, hw⟩
  · intro n c stream hres hother
    obtain ⟨phase, hc⟩ := (resolves_iff hr).mp hres
    constructor
    · intro m bytes he
      obtain ⟨hl, call, hcall, hslot⟩ := hI.wrote c m bytes he
      obtain rfl := Option.some.inj (hc.symm.trans hcall)
      obtain rfl := Option.some.inj hslot
      exact hother hl
    · cases phase with
      | locking =>
        refine .inr ⟨hc, ?_⟩
        intro hlocked hfree
        cases hI.stage n with
        | fresh hl hw hopen => exact absurd hl hlocked
        | busy c' stream' buf rest hl hc' hopen hw =>
          rw [hopen] at hfree
          cases hfree
        | done c' stream' result hl hc' hopen hw =>
          exact ⟨_, _, by simp only [Pipes.step, hc, hopen]; rfl⟩
      | copying buf rest =>
        exact absurd (hI.of_copying hc).2.1 hother
      | returned result =>
        cases result with
        | error e => exact .inl ⟨e, hc⟩
        | ok u =>
          obtain ⟨n', stream', -, -, hc', hl, -, -⟩ := hI.delivered c (hI.returned c _ _ _ hc)
          rw [hc] at hc'
          cases hc'
          exact absurd hl hother
  · intro c n n' bytes bytes' he he'
    obtain ⟨-, call, hcall, hslot⟩ := hI.wrote c n bytes he
    obtain ⟨-, call', hcall', hslot'⟩ := hI.wrote c n' bytes' he'
    obtain rfl := Option.some.inj (hcall.symm.trans hcall')
    exact Option.some.inj (hslot.symm.trans hslot')
  · intro c he
    obtain ⟨n, stream, before, after, hc, hl, hevs, hw⟩ := hI.delivered c he
    exact ⟨n, stream, before, after, (resolves_iff hr).mpr ⟨_, hc⟩, hl, hevs, hw⟩

open Pipes in
/-- Handle 2 is spawned and two calls pipe into it; the first copies its stream. -/
def twoWriters : List PipeAction :=
  [.world (.call 0 (.spawn { cmd := "cat" })), .world (.sched 0 {}),
    .world (.sched 0 { spawn := some 100 }), .world (.sched 0 {}), .call 0 2 [1, 2, 3], .call 1 2 [4],
    .lock 0, .read 0 3, .write 0 2, .write 0 1, .eof 0, .lock 1]

open Pipes in
/-- The second of two calls writes nothing. -/
theorem one_writer_two : ∃ l w, Lts.Run (@Pipes.step recordCodec) (.start (.start .new)) l w ∧
    written 0 (Lts.events l) = [1, 2, 3] ∧ (∀ m bytes, .wrote 1 m bytes ∉ Lts.events l) ∧
    ∃ e, w.calls 1 = some ⟨some 0, [4], .returned (.error e)⟩ := by
  obtain ⟨l, w, hr, hp⟩ := Lts.run_of_exec (@Pipes.step recordCodec) (.start (.start .new)) twoWriters
    (fun p => decide (written 0 (Lts.events p.1) = [1, 2, 3] ∧ (locks 0 (Lts.events p.1)).head? = some 0 ∧
      (p.2.calls 1).map (fun call => (call.slot, call.stream)) = some (some 0, [4])) &&
      (p.2.calls 1).any (fun call => call.phase matches .returned _)) (by decide)
  rw [Bool.and_eq_true, decide_eq_true_eq] at hp
  obtain ⟨⟨hwritten, hfirst, hcall⟩, hphase⟩ := hp
  obtain ⟨⟨slot, stream, phase⟩, hc, heq⟩ := Option.map_eq_some_iff.mp hcall
  cases heq
  have hres := (@resolves_iff recordCodec _ _ _ _ _ _ hr).mpr ⟨phase, hc⟩
  have hother : (locks 0 (Lts.events l)).head? ≠ some 1 := by
    rw [hfirst]
    decide
  obtain ⟨hnothing, herror⟩ := (@one_writer recordCodec _ _ _ hr).2.1 0 1 [4] hres hother
  refine ⟨l, w, hr, hwritten, hnothing, herror.resolve_right ?_⟩
  rintro ⟨hlocking, -⟩
  rw [hlocking] at hphase
  cases hphase

end MeshSupervisor
