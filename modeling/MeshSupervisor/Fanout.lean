import MeshSupervisor.Lib.Broadcast
import MeshSupervisor.Lib.Lts
import MeshSupervisor.Lib.Table
import MeshSupervisor.Process

/-! # Stdout to any number of subscribers

One launch of a child: the pump task of `launch_child` reads stdout into a buffer and sends it
through a broadcast channel, `subscribe` makes receivers from the one that the table entry holds,
and each subscription copies what it receives to its connection.  Reading, counting the
receivers and sending are separate steps, so that a subscriber may attach between any two.

`stdout_fanout`: what is sent to a subscriber after its `Ack` is a subsequence of the chunks that
are due to it, those that the pump reads after it attached and the one that the pump had in hand
then; it is all of them for a subscriber that is never more than `stdoutCap` chunks behind, it
ends with the last `stdoutCap` of them, and it does not depend on the other subscribers.
`chunk_in_hand` is a subscriber that is sent a chunk read before it attached. -/

namespace MeshSupervisor

open Wire (Bytes)

/-- `STDOUT_CAP`. -/
def stdoutCap : ℕ := 1024

/-! ### The pump and the subscribers -/

inductive Holder where
  /-- `Launched`, before it is in the table. -/
  | launched
  | entry
  /-- Replaced by that of a later launch, or dropped with its entry. -/
  | gone
deriving DecidableEq

/-- Where the pump task stands. -/
inductive Pump where
  /-- `read_buf`. -/
  | reading
  /-- `receiver_count`. -/
  | counting
  /-- `send`. -/
  | sending
  /-- The loop has ended, and the sender is dropped. -/
  | ended
deriving DecidableEq

/-- Where a subscription stands. -/
inductive SubPhase where
  /-- `write_msg` of the `Ack`. -/
  | acking
  /-- `recv`. -/
  | receiving
  /-- `write_all` of a chunk. -/
  | writing (chunk : Bytes)
  /-- The channel was closed. -/
  | finished
  /-- The connection is lost, or the task was dropped. -/
  | lost
deriving DecidableEq

def SubPhase.live : SubPhase → Bool
  | .acking | .receiving | .writing _ => true
  | .finished | .lost => false

/-- A subscription: the position it receives next, and its phase. -/
structure Subscription where
  next : ℕ
  phase : SubPhase
deriving DecidableEq

/-- The chunk that the subscription has received and not sent yet. -/
def Subscription.inHand (s : Subscription) : List Bytes :=
  match s.phase with
  | .writing chunk => [chunk]
  | _ => []

structure Fanout where
  chan : Broadcast Bytes
  holder : Holder
  pump : Pump
  buf : Bytes
  subs : Table ℕ Subscription

/-- A choice of the scheduler or of the environment. -/
inductive FanoutAction where
  /-- The launch is put into the table. -/
  | insert
  /-- The table gives the receiver up. -/
  | drop
  /-- `read_buf` returns these bytes; none at the end of the stream, or on an error. -/
  | read (bytes : Bytes)
  | count
  | send
  /-- `ProcessManager::subscribe`, for subscription `i`. -/
  | attach (i : ℕ)
  | ack (i : ℕ)
  | recv (i : ℕ)
  | write (i : ℕ)
  | lose (i : ℕ)
deriving DecidableEq

inductive Output where
  | ack
  | chunk (bytes : Bytes)
deriving DecidableEq

/-- The chunks of an output. -/
def Output.chunks (outs : List Output) : List Bytes :=
  outs.filterMap fun
    | .ack => none
    | .chunk bytes => some bytes

inductive FanoutEvent where
  | read (chunk : Bytes)
  | sent (i : ℕ) (out : Output)

namespace Fanout

/-- As `launch_child` leaves it. -/
def new : Fanout := ⟨Broadcast.new stdoutCap, .launched, .reading, [], ∅⟩

/-- `receiver_count`. -/
def receiverCount (f : Fanout) : ℕ :=
  (if f.holder = .gone then 0 else 1) + (Table.values f.subs).countP (·.phase.live)

def setSub (f : Fanout) (i : ℕ) (s : Subscription) : Fanout :=
  { f with subs := AList.insert i s f.subs }

def recvStep (f : Fanout) (i next : ℕ) : Option Fanout :=
  match f.chan.recv next with
  | (.message chunk, next') => some (f.setSub i ⟨next', .writing chunk⟩)
  | (.lagged _, next') => some (f.setSub i ⟨next', .receiving⟩)
  | (.closed, next') => some (f.setSub i ⟨next', .finished⟩)
  | (.pending, _) => none

def step (f : Fanout) : FanoutAction → Option (Fanout × List FanoutEvent)
  | .insert => if f.holder = .launched then some ({ f with holder := .entry }, []) else none
  | .drop => if f.holder = .gone then none else some ({ f with holder := .gone }, [])
  | .read bytes =>
      if f.pump = .reading then
        if bytes = [] then some ({ f with pump := .ended, chan := f.chan.close }, [])
        else some ({ f with pump := .counting, buf := f.buf ++ bytes }, [.read bytes])
      else none
  | .count =>
      if f.pump = .counting then
        if f.receiverCount = 0 then some ({ f with pump := .reading, buf := [] }, [])
        else some ({ f with pump := .sending }, [])
      else none
  | .send =>
      if f.pump = .sending then
        -- without receivers the channel gives the chunk back
        if f.receiverCount = 0 then some ({ f with pump := .reading, buf := [] }, [])
        else some ({ f with pump := .reading, buf := [], chan := f.chan.send f.buf }, [])
      else none
  | .attach i =>
      if f.holder = .entry ∧ f.subs.lookup i = none then
        some (f.setSub i ⟨f.chan.tail, .acking⟩, [])
      else none
  | .ack i =>
      match f.subs.lookup i with
      | some ⟨next, .acking⟩ => some (f.setSub i ⟨next, .receiving⟩, [.sent i .ack])
      | _ => none
  | .recv i =>
      match f.subs.lookup i with
      | some ⟨next, .receiving⟩ => (f.recvStep i next).map (·, [])
      | _ => none
  | .write i =>
      match f.subs.lookup i with
      | some ⟨next, .writing chunk⟩ => some (f.setSub i ⟨next, .receiving⟩, [.sent i (.chunk chunk)])
      | _ => none
  | .lose i =>
      match f.subs.lookup i with
      | some ⟨next, phase⟩ => if phase.live then some (f.setSub i ⟨next, .lost⟩, []) else none
      | none => none

/-! ### What a step can do -/

inductive SubStep (chan : Broadcast Bytes) : Subscription → Subscription → List Output → Prop
  | ack (next : ℕ) : SubStep chan ⟨next, .acking⟩ ⟨next, .receiving⟩ [.ack]
  | message (next next' : ℕ) (chunk : Bytes) : chan.recv next = (.message chunk, next') →
      SubStep chan ⟨next, .receiving⟩ ⟨next', .writing chunk⟩ []
  | lagged (next next' n : ℕ) : chan.recv next = (.lagged n, next') →
      SubStep chan ⟨next, .receiving⟩ ⟨next', .receiving⟩ []
  | closed (next next' : ℕ) : chan.recv next = (.closed, next') →
      SubStep chan ⟨next, .receiving⟩ ⟨next', .finished⟩ []
  | write (next : ℕ) (chunk : Bytes) :
      SubStep chan ⟨next, .writing chunk⟩ ⟨next, .receiving⟩ [.chunk chunk]
  | lose (next : ℕ) (phase : SubPhase) : phase.live = true →
      SubStep chan ⟨next, phase⟩ ⟨next, .lost⟩ []

end Fanout

/-- The subscription whose task acts; `none`: the pump or the table. -/
def FanoutAction.sub : FanoutAction → Option ℕ
  | .attach i | .ack i | .recv i | .write i | .lose i => some i
  | _ => none

namespace Fanout

/-- The steps, one constructor for each branch of the pump and of the table. -/
inductive Step (f : Fanout) : FanoutAction → Fanout → List FanoutEvent → Prop
  | insert : Step f .insert { f with holder := .entry } []
  | drop : Step f .drop { f with holder := .gone } []
  | eof : f.pump = .reading → Step f (.read []) { f with pump := .ended, chan := f.chan.close } []
  | read (bytes : Bytes) : f.pump = .reading →
      Step f (.read bytes) { f with pump := .counting, buf := f.buf ++ bytes } [.read bytes]
  | count : f.pump = .counting → Step f .count { f with pump := .sending } []
  /-- There is nobody to send the chunk to. -/
  | clear (a : FanoutAction) : a.sub = none → (f.pump = .counting ∨ f.pump = .sending) →
      f.receiverCount = 0 → Step f a { f with pump := .reading, buf := [] } []
  | send : f.pump = .sending →
      Step f .send { f with pump := .reading, buf := [], chan := f.chan.send f.buf } []
  | attach (i : ℕ) : f.holder = .entry → f.subs.lookup i = none →
      Step f (.attach i) (f.setSub i ⟨f.chan.tail, .acking⟩) []
  | sub (a : FanoutAction) (i : ℕ) (s s' : Subscription) (outs : List Output) : a.sub = some i →
      f.subs.lookup i = some s → SubStep f.chan s s' outs →
      Step f a (f.setSub i s') (outs.map (.sent i))

variable {f f' : Fanout} {a : FanoutAction} {evs : List FanoutEvent}

theorem recvStep_cases {i next : ℕ} (h : f.recvStep i next = some f') :
    ∃ s', f' = f.setSub i s' ∧ SubStep f.chan ⟨next, .receiving⟩ s' [] := by
  unfold recvStep at h
  cases hr : f.chan.recv next with
  | mk r next' =>
    rw [hr] at h
    cases r with
    | message chunk => exact ⟨_, (Option.some.inj h).symm, .message next next' chunk hr⟩
    | lagged n => exact ⟨_, (Option.some.inj h).symm, .lagged next next' n hr⟩
    | closed => exact ⟨_, (Option.some.inj h).symm, .closed next next' hr⟩
    | pending => cases h

theorem step_cases (h : f.step a = some (f', evs)) : Step f a f' evs := by
  cases a with
  | insert =>
    simp only [step] at h
    split_ifs at h with hh
    cases h
    exact .insert
  | drop =>
    simp only [step] at h
    split_ifs at h with hh
    cases h
    exact .drop
  | read bytes =>
    simp only [step] at h
    split_ifs at h with hp hb
    · cases h
      rw [hb]
      exact .eof hp
    · cases h
      exact .read bytes hp
  | count =>
    simp only [step] at h
    split_ifs at h with hp hc
    · cases h
      exact .clear _ rfl (.inl hp) hc
    · cases h
      exact .count hp
  | send =>
    simp only [step] at h
    split_ifs at h with hp hc
    · cases h
      exact .clear _ rfl (.inr hp) hc
    · cases h
      exact .send hp
  | attach i =>
    simp only [step] at h
    split_ifs at h with hh
    cases h
    exact .attach i hh.1 hh.2
  | ack i =>
    simp only [step] at h
    split at h
    · next hs =>
      cases h
      exact .sub _ i _ _ [.ack] rfl hs (.ack _)
    · cases h
  | recv i =>
    simp only [step] at h
    split at h
    · next hs =>
      obtain ⟨f₁, hr, he⟩ := Option.map_eq_some_iff.mp h
      cases he
      obtain ⟨s', rfl, hsub⟩ := recvStep_cases hr
      exact .sub _ i _ s' [] rfl hs hsub
    · cases h
  | write i =>
    simp only [step] at h
    split at h
    · next chunk hs =>
      cases h
      exact .sub _ i _ _ [.chunk chunk] rfl hs (.write _ chunk)
    · cases h
  | lose i =>
    simp only [step] at h
    split at h
    · next hs =>
      split_ifs at h with hlive
      cases h
      exact .sub _ i _ _ [] rfl hs (.lose _ _ hlive)
    · cases h

/-! ### The channel and the buffer -/

/-- The chunk that the pump has read and not sent yet. -/
def inHand (f : Fanout) : List Bytes :=
  match f.pump with
  | .counting | .sending => [f.buf]
  | .reading | .ended => []

/-- The channel was sent `h`; the buffer is empty before each read. -/
structure Inv (cap : ℕ) (h : List Bytes) (f : Fanout) : Prop where
  cap : f.chan.cap = cap
  holds : Broadcast.Holds h f.chan
  empty : f.pump = .reading → f.buf = []
  closed : f.chan.closed = true ↔ f.pump = .ended

def connected (f : Fanout) (i : ℕ) : Bool := (f.subs.lookup i).any (·.phase.live)

def behind (f : Fanout) (i : ℕ) : ℕ := (f.subs.lookup i).elim 0 (fun s => f.chan.tail - s.next)

variable {cap : ℕ} {h : List Bytes} {i : ℕ} {s s' : Subscription}

theorem inv_new : Inv stdoutCap [] new := by
  constructor
  · rfl
  · exact Broadcast.Holds.new stdoutCap
  · intro _
    rfl
  · constructor <;> intro hc <;> cases hc

theorem receiverCount_ne_zero (hs : f.subs.lookup i = some s) (hlive : s.phase.live = true) :
    f.receiverCount ≠ 0 := by
  have hpos : 0 < (Table.values f.subs).countP (·.phase.live) :=
    List.countP_pos_iff.mpr ⟨s, Table.mem_values.mpr ⟨i, hs⟩, hlive⟩
  unfold receiverCount
  omega

/-- The messages of the channel after a step: the pump may have sent its buffer. -/
def sentBy (f f' : Fanout) : List Bytes :=
  if f'.chan.tail = f.chan.tail then [] else [f.buf]

theorem Inv.closed_iff (hI : Inv cap h f) {p : Pump} (hp : f.pump ≠ .ended) (hp' : p ≠ .ended) :
    f.chan.closed = true ↔ p = .ended := by
  constructor <;> intro hc
  · exact absurd (hI.closed.mp hc) hp
  · exact absurd hc hp'

theorem Inv.step (hI : Inv cap h f) (hs : Step f a f' evs) : Inv cap (h ++ sentBy f f') f' := by
  have hkeep : h ++ sentBy f f = h := by
    rw [sentBy, if_pos rfl, List.append_nil]
  cases hs with
  | eof hp =>
    show Inv cap (h ++ sentBy f f) _
    rw [hkeep]
    constructor
    · exact hI.cap
    · exact hI.holds.close
    · intro hc
      cases hc
    · constructor <;> intro _ <;> rfl
  | send hp =>
    have hsent : sentBy f { f with pump := .reading, buf := [], chan := f.chan.send f.buf } = [f.buf] :=
      if_neg (Nat.succ_ne_self _)
    rw [hsent]
    constructor
    · exact hI.cap
    · exact hI.holds.send f.buf
    · intro _
      rfl
    · exact hI.closed_iff (by simp [hp]) (by simp)
  | insert | drop | attach i hh hn | sub a i s s' outs ha hi hsub =>
    show Inv cap (h ++ sentBy f f) _
    rw [hkeep]
    exact ⟨hI.cap, hI.holds, hI.empty, hI.closed⟩
  | read bytes hp | count hp =>
    show Inv cap (h ++ sentBy f f) _
    rw [hkeep]
    constructor
    · exact hI.cap
    · exact hI.holds
    · intro hc
      cases hc
    · exact hI.closed_iff (by simp [hp]) (by simp)
  | clear a ha hp hc =>
    have hrun : f.pump ≠ .ended := by
      rintro hended
      rw [hended] at hp
      rcases hp with hp | hp <;> cases hp
    show Inv cap (h ++ sentBy f f) _
    rw [hkeep]
    constructor
    · exact hI.cap
    · exact hI.holds
    · intro _
      rfl
    · exact hI.closed_iff hrun (by simp)

/-! ### One subscription -/

/-- A subscription that is up: `due` are the chunks since it attached at position `start`, `got`
those that it was sent.  `K` says that it was never too far behind. -/
structure Up (cap : ℕ) (f : Fanout) (h : List Bytes) (start : ℕ) (due got : List Bytes) (K : Prop)
    (s : Subscription) : Prop where
  up : s.phase ≠ .lost
  due : h.drop start ++ f.inHand = due
  reads : Broadcast.Reads cap h start s.next (got ++ s.inHand)
  complete : K → got ++ s.inHand = (h.take s.next).drop start
  finished : s.phase = .finished → f.pump = .ended ∧ s.next = h.length

/-- A subscription whose connection is lost. -/
structure Down (due got : List Bytes) (K : Prop) (s : Subscription) : Prop where
  lost : s.phase = .lost
  sublist : got.Sublist due
  complete : K → got <+: due

section
variable {start : ℕ} {due got : List Bytes} {K K' : Prop}

theorem Up.live_or_finished (hu : Up cap f h start due got K s) : s.phase.live = true ∨ s.phase = .finished := by
  have hup := hu.up
  cases hp : s.phase with
  | lost => exact absurd hp hup
  | finished => exact .inr rfl
  | acking => exact .inl rfl
  | receiving => exact .inl rfl
  | writing chunk => exact .inl rfl

theorem Up.start_le (hu : Up cap f h start due got K s) : start ≤ h.length :=
  hu.reads.start.trans hu.reads.le

/-- While the pump has something in hand, a subscription that is up has a receiver. -/
theorem Up.not_clear (hu : Up cap f h start due got K s) (hs : f.subs.lookup i = some s)
    (hp : f.pump = .counting ∨ f.pump = .sending) : f.receiverCount ≠ 0 := by
  rcases hu.live_or_finished with hlive | hfin
  · exact receiverCount_ne_zero hs hlive
  · have hended := (hu.finished hfin).1
    rw [hended] at hp
    rcases hp with hp | hp <;> cases hp

/-- The chunk that is read next is due. -/
theorem Up.read (hu : Up cap f h start due got K s) (hI : Inv cap h f) (hp : f.pump = .reading) (bytes : Bytes) :
    Up cap { f with pump := .counting, buf := f.buf ++ bytes } h start (due ++ [bytes]) got K s := by
  have hnone : f.inHand = [] := by
    unfold inHand
    rw [hp]
  have hdue := hu.due
  rw [hnone, List.append_nil] at hdue
  constructor
  · exact hu.up
  · show h.drop start ++ [f.buf ++ bytes] = due ++ [bytes]
    rw [hI.empty hp, List.nil_append, hdue]
  · exact hu.reads
  · exact hu.complete
  · intro hfin
    rw [(hu.finished hfin).1] at hp
    cases hp

theorem Up.send (hu : Up cap f h start due got K s) (hp : f.pump = .sending) :
    Up cap { f with pump := .reading, buf := [], chan := f.chan.send f.buf } (h ++ [f.buf]) start due got K s := by
  have hbuf : f.inHand = [f.buf] := by
    unfold inHand
    rw [hp]
  constructor
  · exact hu.up
  · show (h ++ [f.buf]).drop start ++ [] = due
    rw [List.append_nil, List.drop_append_of_le_length hu.start_le, ← hbuf]
    exact hu.due
  · exact hu.reads.send f.buf
  · intro hK
    rw [List.take_append_of_le_length hu.reads.le]
    exact hu.complete hK
  · intro hfin
    rw [(hu.finished hfin).1] at hp
    cases hp

theorem Up.frame (hu : Up cap f h start due got K s) (hp : f'.inHand = f.inHand)
    (hended : f.pump = .ended → f'.pump = .ended) (hK : K' → K) : Up cap f' h start due got K' s := by
  constructor
  · exact hu.up
  · rw [hp]
    exact hu.due
  · exact hu.reads
  · intro h'
    exact hu.complete (hK h')
  · intro hfin
    exact ⟨hended (hu.finished hfin).1, (hu.finished hfin).2⟩

theorem Down.mono (hd : Down due got K s) (more : List Bytes) (hK : K' → K) :
    Down (due ++ more) got K' s := by
  constructor
  · exact hd.lost
  · exact hd.sublist.trans (List.sublist_append_left _ _)
  · intro h'
    exact (hd.complete (hK h')).trans (List.prefix_append _ _)

/-- What a subscription does while it is up. -/
theorem Up.sub {outs : List Output} (hu : Up cap f h start due got K s) (hI : Inv cap h f)
    (hs : SubStep f.chan s s' outs) (hK : K' → K ∧ f.chan.tail - s.next ≤ cap) (i : ℕ) :
    Up cap (f.setSub i s') h start due (got ++ Output.chunks outs) K' s' ∨
      Down due (got ++ Output.chunks outs) K' s' := by
  have hreads := hu.reads
  have hcomplete := hu.complete
  have hquiet : Output.chunks [] = [] := rfl
  cases hs with
  | ack next =>
    rw [show Output.chunks [.ack] = [] from rfl, List.append_nil]
    refine .inl ⟨by simp, hu.due, hreads, ?_, ?_⟩
    · intro h'
      exact hcomplete (hK h').1
    · intro hfin
      cases hfin
  | message next next' chunk hr =>
    have hrecv := hI.holds.recv next
    rw [hr, hI.cap] at hrecv
    obtain ⟨rfl, hx, hlag⟩ := hrecv
    rw [hquiet, List.append_nil]
    have hnone : (⟨next, .receiving⟩ : Subscription).inHand = [] := rfl
    rw [hnone, List.append_nil] at hreads hcomplete
    refine .inl ⟨by simp, hu.due, hreads.message hlag hx, ?_, ?_⟩
    · intro h'
      have hall := hcomplete (hK h').1
      show got ++ [chunk] = (h.take (next + 1)).drop start
      rw [Broadcast.Reads.drop_take_succ hx hreads.start, hall]
    · intro hfin
      cases hfin
  | lagged next next' n hr =>
    have hrecv := hI.holds.recv next
    rw [hr, hI.cap] at hrecv
    obtain ⟨rfl, hlag⟩ := hrecv
    rw [hquiet, List.append_nil]
    refine .inl ⟨by simp, hu.due, hreads.lagged hlag, ?_, ?_⟩
    · intro h'
      have hnear : f.chan.tail - next ≤ cap := (hK h').2
      rw [hI.holds.tail] at hnear
      omega
    · intro hfin
      cases hfin
  | closed next next' hr =>
    have hrecv := hI.holds.recv next
    rw [hr] at hrecv
    obtain ⟨rfl, hle, hclosed⟩ := hrecv
    rw [hquiet, List.append_nil]
    refine .inl ⟨by simp, hu.due, hreads, ?_, ?_⟩
    · intro h'
      exact hcomplete (hK h').1
    · intro _
      exact ⟨hI.closed.mp hclosed, Nat.le_antisymm hreads.le hle⟩
  | write next chunk =>
    refine .inl ⟨by simp, hu.due, ?_, ?_, ?_⟩
    · show Broadcast.Reads cap h start next (got ++ [chunk] ++ [])
      rw [List.append_nil]
      exact hreads
    · intro h'
      show got ++ [chunk] ++ [] = (h.take next).drop start
      rw [List.append_nil]
      exact hcomplete (hK h').1
    · intro hfin
      cases hfin
  | lose next phase hlive =>
    rw [hquiet, List.append_nil]
    have hdue : h.drop start <+: due := ⟨f.inHand, hu.due⟩
    have hgot : got <+: got ++ (⟨next, phase⟩ : Subscription).inHand := List.prefix_append _ _
    refine .inr ⟨rfl, ?_, ?_⟩
    · exact hgot.sublist.trans (hreads.sublist_drop.trans hdue.sublist)
    · intro h'
      have hall := hcomplete (hK h').1
      have htake : (h.take next).drop start <+: h.drop start := (List.take_prefix next h).drop start
      rw [hall] at hgot
      exact hgot.trans (htake.trans hdue)

end

/-! ### Steps -/

def chunksRead (evs : List FanoutEvent) : List Bytes :=
  evs.filterMap fun
    | .read chunk => some chunk
    | .sent _ _ => none

def outputs (i : ℕ) (evs : List FanoutEvent) : List Output :=
  evs.filterMap fun
    | .sent j out => if j = i then some out else none
    | .read _ => none

theorem chunksRead_append (evs evs' : List FanoutEvent) :
    chunksRead (evs ++ evs') = chunksRead evs ++ chunksRead evs' := List.filterMap_append

theorem outputs_append (i : ℕ) (evs evs' : List FanoutEvent) :
    outputs i (evs ++ evs') = outputs i evs ++ outputs i evs' := List.filterMap_append

theorem chunks_append (outs outs' : List Output) :
    Output.chunks (outs ++ outs') = Output.chunks outs ++ Output.chunks outs' := List.filterMap_append

theorem chunksRead_sent (i : ℕ) (outs : List Output) : chunksRead (outs.map (.sent i)) = [] := by
  unfold chunksRead
  rw [List.filterMap_map]
  exact List.filterMap_eq_nil_iff.mpr (fun _ _ => rfl)

theorem outputs_sent (i j : ℕ) (outs : List Output) :
    outputs i (outs.map (.sent j)) = if j = i then outs else [] := by
  unfold outputs
  rw [List.filterMap_map]
  split_ifs with hj
  · rw [hj]
    have hsame : (fun out : Output => if i = i then some out else none) = some := by
      funext out
      exact if_pos rfl
    exact (congrArg (fun g => List.filterMap g outs) hsame).trans List.filterMap_some
  · exact List.filterMap_eq_nil_iff.mpr (fun _ _ => if_neg hj)

/-- The `Ack` is sent first. -/
structure Framed (s : Subscription) (outs : List Output) : Prop where
  acking : s.phase = .acking → outs = []
  framed : outs = [] ∨ outs = .ack :: (Output.chunks outs).map .chunk
  started : s.phase = .receiving ∨ (∃ chunk, s.phase = .writing chunk) → outs ≠ []

theorem Framed.sub {chan : Broadcast Bytes} {outs more : List Output} (hf : Framed s outs)
    (hs : SubStep chan s s' more) : Framed s' (outs ++ more) := by
  cases hs with
  | ack next =>
    have hnone := hf.acking rfl
    rw [hnone, List.nil_append]
    constructor
    · intro hp
      cases hp
    · exact .inr rfl
    · intro _ hnil
      cases hnil
  | write next chunk =>
    have hsome := hf.started (.inr ⟨chunk, rfl⟩)
    have hframed := hf.framed.resolve_left hsome
    constructor
    · intro hp
      cases hp
    · right
      rw [chunks_append, List.map_append, ← List.cons_append, ← hframed]
      rfl
    · intro _ hnil
      exact hsome (List.append_eq_nil_iff.mp hnil).1
  | message next next' chunk hr =>
    rw [List.append_nil]
    exact ⟨fun hp => (nomatch hp), hf.framed, fun _ => hf.started (.inl rfl)⟩
  | lagged next next' n hr =>
    rw [List.append_nil]
    exact ⟨fun hp => (nomatch hp), hf.framed, fun _ => hf.started (.inl rfl)⟩
  | closed next next' hr =>
    rw [List.append_nil]
    exact ⟨fun hp => (nomatch hp), hf.framed, fun _ => hf.started (.inl rfl)⟩
  | lose next phase hlive =>
    rw [List.append_nil]
    refine ⟨fun hp => (nomatch hp), hf.framed, ?_⟩
    rintro (hp | ⟨chunk, hp⟩) <;> cases hp

/-- Subscription `i` was sent `outs`, of the chunks `due`. -/
def Follows (cap : ℕ) (f : Fanout) (h : List Bytes) (i start : ℕ) (due : List Bytes) (outs : List Output)
    (K : Prop) : Prop :=
  ∃ s, f.subs.lookup i = some s ∧ Framed s outs ∧
    (Up cap f h start due (Output.chunks outs) K s ∨ Down due (Output.chunks outs) K s)

section
variable {start : ℕ} {due : List Bytes} {outs : List Output} {K K' : Prop}

theorem Follows.frame (hf : Follows cap f h i start due outs K) (hp : f'.inHand = f.inHand)
    (hended : f.pump = .ended → f'.pump = .ended) (hsub : f'.subs.lookup i = f.subs.lookup i)
    (hK : K' → K) : Follows cap f' h i start due outs K' := by
  obtain ⟨s, hs, hframed, hstate⟩ := hf
  refine ⟨s, hsub.trans hs, hframed, ?_⟩
  rcases hstate with hu | hd
  · exact .inl (hu.frame hp hended hK)
  · have hd' := hd.mono [] hK
    rw [List.append_nil] at hd'
    exact .inr hd'

/-- What a step does to the chunks that are due to a subscription and to what it is sent. -/
theorem Follows.step (hf : Follows cap f h i start due outs K) (hI : Inv cap h f) (hs : Step f a f' evs)
    (hK : K' → K ∧ f.behind i ≤ cap) :
    Follows cap f' (h ++ sentBy f f') i start (due ++ chunksRead evs) (outs ++ outputs i evs) K' := by
  have hkeep : h ++ sentBy f f = h := by
    rw [sentBy, if_pos rfl, List.append_nil]
  have hK₁ : K' → K := fun h' => (hK h').1
  have hquiet : due ++ chunksRead [] = due ∧ outs ++ outputs i [] = outs :=
    ⟨List.append_nil _, List.append_nil _⟩
  cases hs with
  | insert | drop =>
    show Follows cap _ (h ++ sentBy f f) i start _ _ K'
    rw [hkeep, hquiet.1, hquiet.2]
    exact hf.frame rfl id rfl hK₁
  | count hp =>
    show Follows cap _ (h ++ sentBy f f) i start _ _ K'
    rw [hkeep, hquiet.1, hquiet.2]
    refine hf.frame ?_ ?_ rfl hK₁
    · unfold inHand
      rw [hp]
    · intro hended
      rw [hended] at hp
      cases hp
  | eof hp =>
    show Follows cap _ (h ++ sentBy f f) i start _ _ K'
    rw [hkeep, hquiet.1, hquiet.2]
    refine hf.frame ?_ (fun _ => rfl) rfl hK₁
    unfold inHand
    rw [hp]
  | attach j hh hn =>
    show Follows cap _ (h ++ sentBy f f) i start _ _ K'
    rw [hkeep, hquiet.1, hquiet.2]
    refine hf.frame rfl id ?_ hK₁
    obtain ⟨s, hs, -⟩ := hf
    have hne : i ≠ j := by
      rintro rfl
      rw [hs] at hn
      cases hn
    exact AList.lookup_insert_ne hne
  | read bytes hp =>
    show Follows cap _ (h ++ sentBy f f) i start (due ++ [bytes]) _ K'
    rw [hkeep, show outs ++ outputs i [.read bytes] = outs from List.append_nil _]
    obtain ⟨s, hs, hframed, hstate⟩ := hf
    refine ⟨s, hs, hframed, ?_⟩
    rcases hstate with hu | hd
    · exact .inl ((hu.read hI hp bytes).frame rfl id hK₁)
    · exact .inr (hd.mono [bytes] hK₁)
  | send hp =>
    have hsent : sentBy f { f with pump := .reading, buf := [], chan := f.chan.send f.buf } = [f.buf] :=
      if_neg (Nat.succ_ne_self _)
    rw [hsent, hquiet.1, hquiet.2]
    obtain ⟨s, hs, hframed, hstate⟩ := hf
    refine ⟨s, hs, hframed, ?_⟩
    rcases hstate with hu | hd
    · exact .inl ((hu.send hp).frame rfl id hK₁)
    · have hd' := hd.mono [] hK₁
      rw [List.append_nil] at hd'
      exact .inr hd'
  | clear a ha hp hc =>
    show Follows cap _ (h ++ sentBy f f) i start _ _ K'
    rw [hkeep, hquiet.1, hquiet.2]
    obtain ⟨s, hs, hframed, hstate⟩ := hf
    refine ⟨s, hs, hframed, ?_⟩
    rcases hstate with hu | hd
    · exact absurd hc (hu.not_clear hs hp)
    · have hd' := hd.mono [] hK₁
      rw [List.append_nil] at hd'
      exact .inr hd'
  | sub a j s₁ s' more ha hj hsub =>
    show Follows cap _ (h ++ sentBy f f) i start _ _ K'
    rw [hkeep, chunksRead_sent, List.append_nil, outputs_sent]
    by_cases hij : j = i
    · subst hij
      rw [if_pos rfl]
      obtain ⟨s, hs, hframed, hstate⟩ := hf
      obtain rfl := Option.some.inj (hj.symm.trans hs)
      refine ⟨s', AList.lookup_insert _, hframed.sub hsub, ?_⟩
      rw [chunks_append]
      rcases hstate with hu | hd
      · have hnear : K' → K ∧ f.chan.tail - s₁.next ≤ cap := by
          intro h'
          have hbehind := (hK h').2
          rw [behind, hs] at hbehind
          exact ⟨(hK h').1, hbehind⟩
        exact hu.sub hI hsub hnear j
      · have hlost := hd.lost
        cases hsub with
        | lose next phase hlive =>
          rw [show phase = .lost from hlost] at hlive
          cases hlive
        | _ => cases hlost
    · rw [if_neg hij, List.append_nil]
      exact hf.frame rfl id (AList.lookup_insert_ne (Ne.symm hij)) hK₁

end

/-! ### Runs -/

section
variable {f₀ : Fanout} {l : List (Lts.Tr Fanout FanoutAction FanoutEvent)}

theorem inv_run (hr : Lts.Run step new l f) : ∃ h, Inv stdoutCap h f := by
  refine (hr.invariant (I := fun f => ∃ h, Inv stdoutCap h f) ⟨[], inv_new⟩ ?_).1
  rintro tr hv ⟨h, hI⟩
  exact ⟨_, hI.step (step_cases hv)⟩

/-- From the attachment on, a subscription follows the chunks that are due to it. -/
theorem follows_run {h₀ : List Bytes} (hr : Lts.Run step f₀ l f) (hI : Inv cap h₀ f₀)
    (hs : f₀.subs.lookup i = some ⟨f₀.chan.tail, .acking⟩) : ∃ h, Inv cap h f ∧
      Follows cap f h i h₀.length (f₀.inHand ++ chunksRead (Lts.events l)) (outputs i (Lts.events l))
        (∀ tr ∈ l, tr.pre.behind i ≤ cap) := by
  induction hr with
  | nil =>
    refine ⟨h₀, hI, _, hs, ⟨fun _ => rfl, .inl rfl, ?_⟩, .inl ⟨by simp, ?_, ?_, ?_, ?_⟩⟩
    · rintro (hp | ⟨chunk, hp⟩) <;> cases hp
    · rw [List.drop_length, List.nil_append]
      exact (List.append_nil _).symm
    · show Broadcast.Reads cap h₀ h₀.length f₀.chan.tail []
      rw [hI.holds.tail]
      exact Broadcast.Reads.initial cap h₀
    · intro _
      show [] = (h₀.take f₀.chan.tail).drop h₀.length
      rw [hI.holds.tail, List.take_length, List.drop_length]
    · intro hfin
      cases hfin
  | @snoc l f₁ f₂ a evs hr hs ih =>
    obtain ⟨h, hI₁, hf⟩ := ih
    have hstep := step_cases hs
    refine ⟨_, hI₁.step hstep, ?_⟩
    have hnear : (∀ tr ∈ l ++ [⟨f₁, a, evs, f₂⟩], tr.pre.behind i ≤ cap) →
        (∀ tr ∈ l, tr.pre.behind i ≤ cap) ∧ f₁.behind i ≤ cap := by
      intro hK
      constructor
      · intro tr htr
        exact hK tr (List.mem_append_left _ htr)
      · exact hK ⟨f₁, a, evs, f₂⟩ (List.mem_append_right _ (List.mem_singleton.mpr rfl))
    have hnext := hf.step hI₁ hstep hnear
    rw [List.append_assoc, ← chunksRead_append, ← outputs_append] at hnext
    have hevs : Lts.events (l ++ [⟨f₁, a, evs, f₂⟩]) = Lts.events l ++ evs := by simp
    rw [hevs]
    exact hnext

/-- Before it attaches a subscription is sent nothing. -/
theorem outputs_before (hr : Lts.Run step new l f) (hn : f.subs.lookup i = none) :
    outputs i (Lts.events l) = [] := by
  induction hr with
  | nil => rfl
  | @snoc l f₁ f₂ a evs hr hs ih =>
    have hevs : Lts.events (l ++ [⟨f₁, a, evs, f₂⟩]) = Lts.events l ++ evs := by simp
    rw [hevs, outputs_append]
    have hstep := step_cases hs
    have hboth : f₁.subs.lookup i = none ∧ outputs i evs = [] := by
      cases hstep with
      | sub a j s s' outs ha hj hsub =>
        have hne : i ≠ j := by
          rintro rfl
          rw [show (f₁.setSub i s').subs.lookup i = some s' from AList.lookup_insert _] at hn
          cases hn
        rw [outputs_sent, if_neg (Ne.symm hne)]
        exact ⟨(AList.lookup_insert_ne hne).symm.trans hn, rfl⟩
      | attach j hh hj =>
        have hne : i ≠ j := by
          rintro rfl
          rw [show (f₁.setSub i ⟨f₁.chan.tail, .acking⟩).subs.lookup i = some _ from
            AList.lookup_insert _] at hn
          cases hn
        exact ⟨(AList.lookup_insert_ne hne).symm.trans hn, rfl⟩
      | _ => exact ⟨hn, rfl⟩
    rw [ih hboth.1, hboth.2, List.append_nil]

end

/-! ### After the end of stdout -/

/-- Twice the messages that are left to a receiver at `next`, and one for falling behind. -/
def left (chan : Broadcast Bytes) (next : ℕ) : ℕ :=
  2 * (chan.tail - max next chan.oldest) + if next < chan.oldest then 1 else 0

/-- How many steps a subscription has to go once the channel is closed. -/
def steps (chan : Broadcast Bytes) (s : Subscription) : ℕ :=
  match s.phase with
  | .acking | .writing _ => left chan s.next + 2
  | .receiving => left chan s.next + 1
  | .finished | .lost => 0

def toDo (f : Fanout) (i : ℕ) : ℕ := (f.subs.lookup i).elim 0 (steps f.chan)

theorem left_le (chan : Broadcast Bytes) (next : ℕ) : left chan next ≤ 2 * chan.cap + 1 := by
  have hring : chan.tail - chan.oldest ≤ chan.cap := by
    have hb := chan.bounded
    have ht := chan.le_tail
    unfold Broadcast.oldest
    omega
  unfold left
  split_ifs <;> omega

theorem toDo_le (f : Fanout) (i : ℕ) : f.toDo i ≤ 2 * f.chan.cap + 3 := by
  unfold toDo
  cases f.subs.lookup i with
  | none => exact Nat.zero_le _
  | some s =>
    have hleft := left_le f.chan s.next
    show steps f.chan s ≤ 2 * f.chan.cap + 3
    unfold steps
    cases s.phase with
    | acking => exact Nat.add_le_add_right hleft 2
    | receiving => exact (Nat.add_le_add_right hleft 1).trans (Nat.le_succ _)
    | writing chunk => exact Nat.add_le_add_right hleft 2
    | finished => exact Nat.zero_le _
    | lost => exact Nat.zero_le _

theorem steps_sub (hI : Inv cap h f) {outs : List Output} (hsub : SubStep f.chan s s' outs) :
    steps f.chan s' + 1 ≤ steps f.chan s := by
  have holdest := hI.holds.oldest
  have htail := hI.holds.tail
  cases hsub with
  | ack next => exact le_rfl
  | write next chunk => exact le_rfl
  | message next next' chunk hr =>
    have hrecv := hI.holds.recv next
    rw [hr] at hrecv
    obtain ⟨rfl, hx, hlag⟩ := hrecv
    have hlt := (List.getElem?_eq_some_iff.mp hx).1
    show left f.chan (next + 1) + 2 + 1 ≤ left f.chan next + 1
    unfold left
    rw [if_neg (by omega), if_neg (by omega)]
    omega
  | lagged next next' n hr =>
    have hrecv := hI.holds.recv next
    rw [hr, ← holdest] at hrecv
    obtain ⟨rfl, hlag⟩ := hrecv
    show left f.chan f.chan.oldest + 1 + 1 ≤ left f.chan next + 1
    unfold left
    rw [if_neg (Nat.lt_irrefl _), if_pos hlag, max_self, max_eq_right hlag.le]
  | closed next next' hr => exact Nat.succ_le_succ (Nat.zero_le _)
  | lose next phase hlive =>
    show 0 + 1 ≤ steps f.chan ⟨next, phase⟩
    unfold steps
    cases phase with
    | acking => exact Nat.le_add_left 1 _
    | receiving => exact Nat.le_add_left 1 _
    | writing chunk => exact Nat.le_add_left 1 _
    | finished => cases hlive
    | lost => cases hlive

/-- After the end only subscriptions go on. -/
theorem ended_step (hended : f.pump = .ended) (hs : Step f a f' evs) :
    f'.pump = .ended ∧ f'.chan = f.chan := by
  cases hs with
  | eof hp | read bytes hp | count hp | send hp =>
    rw [hended] at hp
    cases hp
  | clear a ha hp hc =>
    rw [hended] at hp
    rcases hp with hp | hp <;> cases hp
  | _ => exact ⟨hended, rfl⟩

/-- After the end, each step of subscription `i` counts, and those of the others do not matter. -/
theorem toDo_step (hI : Inv cap h f) (hended : f.pump = .ended) (hs : Step f a f' evs)
    (hi : f.subs.lookup i ≠ none) :
    f'.toDo i + (if a.sub = some i then 1 else 0) ≤ f.toDo i ∧ f'.subs.lookup i ≠ none := by
  have hchan := (ended_step hended hs).2
  have hframe : ∀ j s', j ≠ i → (f.setSub j s').toDo i = f.toDo i ∧
      (f.setSub j s').subs.lookup i = f.subs.lookup i := by
    intro j s' hj
    have hlook : (f.setSub j s').subs.lookup i = f.subs.lookup i := AList.lookup_insert_ne (Ne.symm hj)
    refine ⟨?_, hlook⟩
    unfold toDo
    rw [hlook]
    rfl
  cases hs with
  | sub a j s s' outs ha hj hsub =>
    by_cases hij : j = i
    · subst hij
      have hlook : (f.setSub j s').subs.lookup j = some s' := AList.lookup_insert _
      have hless := steps_sub hI hsub
      rw [if_pos ha]
      unfold toDo
      rw [hlook, hj]
      exact ⟨hless, by simp⟩
    · obtain ⟨htodo, hlook⟩ := hframe j s' hij
      have hother : a.sub ≠ some i := by
        rw [ha]
        exact fun he => hij (Option.some.inj he)
      rw [if_neg hother, htodo, hlook]
      exact ⟨le_rfl, hi⟩
  | attach j hh hj =>
    have hij : j ≠ i := by
      rintro rfl
      exact hi hj
    obtain ⟨htodo, hlook⟩ := hframe j ⟨f.chan.tail, .acking⟩ hij
    have hother : (FanoutAction.attach j).sub ≠ some i := fun he => hij (Option.some.inj he)
    rw [if_neg hother, htodo, hlook]
    exact ⟨le_rfl, hi⟩
  | insert => exact ⟨le_rfl, hi⟩
  | drop => exact ⟨le_rfl, hi⟩
  | clear a ha hp hc =>
    rw [hended] at hp
    rcases hp with hp | hp <;> cases hp
  | eof hp | read bytes hp | count hp | send hp =>
    rw [hended] at hp
    cases hp

/-- After the end of stdout a subscription takes a bounded number of steps. -/
theorem ended_run {f₀ : Fanout} {l : List (Lts.Tr Fanout FanoutAction FanoutEvent)}
    (hr : Lts.Run step f₀ l f) {h₀ : List Bytes} (hI : Inv cap h₀ f₀) (hended : f₀.pump = .ended)
    (hi : f₀.subs.lookup i ≠ none) :
    (l.map Lts.Tr.act).countP (fun a => decide (a.sub = some i)) + f.toDo i ≤ f₀.toDo i ∧
      f.subs.lookup i ≠ none ∧ f.pump = .ended ∧ ∃ h, Inv cap h f := by
  induction hr with
  | nil => exact ⟨by simp, hi, hended, h₀, hI⟩
  | @snoc l f₁ f₂ a evs hr hs ih =>
    obtain ⟨hcount, hi₁, hended₁, h, hI₁⟩ := ih
    have hstep := step_cases hs
    obtain ⟨hless, hi₂⟩ := toDo_step hI₁ hended₁ hstep hi₁
    refine ⟨?_, hi₂, (ended_step hended₁ hstep).1, _, hI₁.step hstep⟩
    rw [List.map_append, List.countP_append]
    have hlast : List.countP (fun a => decide (a.sub = some i)) (List.map Lts.Tr.act [⟨f₁, a, evs, f₂⟩]) =
        if a.sub = some i then 1 else 0 := by simp
    omega

/-- After the end of stdout a subscription with a receiver can go on. -/
theorem ended_enabled (hI : Inv cap h f) (hended : f.pump = .ended) (hc : f.connected i = true) :
    ∃ a f' evs, a.sub = some i ∧ a ≠ .lose i ∧ f.step a = some (f', evs) := by
  unfold connected at hc
  cases hs : f.subs.lookup i with
  | none =>
    rw [hs] at hc
    cases hc
  | some s =>
    obtain ⟨next, phase⟩ := s
    rw [hs] at hc
    cases phase with
    | acking => exact ⟨.ack i, _, _, rfl, by simp, by simp only [step, hs]; rfl⟩
    | writing chunk => exact ⟨.write i, _, _, rfl, by simp, by simp only [step, hs]; rfl⟩
    | receiving =>
      have hsome : ∃ f', f.recvStep i next = some f' := by
        have hrecv := hI.holds.recv next
        unfold recvStep
        cases hr : f.chan.recv next with
        | mk r next' =>
          cases r with
          | message chunk => exact ⟨_, rfl⟩
          | lagged n => exact ⟨_, rfl⟩
          | closed => exact ⟨_, rfl⟩
          | pending =>
            rw [hr, hI.closed.mpr hended] at hrecv
            cases hrecv.2.2
      obtain ⟨f', hf'⟩ := hsome
      exact ⟨.recv i, f', [], rfl, by simp, by simp only [step, hs, hf']; rfl⟩
    | finished => cases hc
    | lost => cases hc

/-! ### Independence -/

/-- An action of the pump, of the table or of subscription `i`. -/
def visible (i : ℕ) (a : FanoutAction) : Bool := a.sub.all (· == i)

def isOf (i : ℕ) : FanoutEvent → Bool
  | .sent j _ => j == i
  | .read _ => false

/-- The launch as subscription `i` sees it: what cannot be done is skipped. -/
def solo (i : ℕ) (f : Fanout) (a : FanoutAction) : Option (Fanout × List FanoutEvent) :=
  match f.step a with
  | some (f', evs) => some (f', evs.filter (isOf i))
  | none => some (f, [])

structure Same (i : ℕ) (f g : Fanout) : Prop where
  chan : g.chan = f.chan
  holder : g.holder = f.holder
  pump : g.pump = f.pump
  buf : g.buf = f.buf
  sub : g.subs.lookup i = f.subs.lookup i

/-- The same to subscription `i`: once it has no receiver and cannot get one, the pump does not
matter. -/
structure Alike (i : ℕ) (f g : Fanout) : Prop where
  holder : g.holder = f.holder
  sub : g.subs.lookup i = f.subs.lookup i
  same : f.holder ≠ .gone ∨ f.connected i = true → Same i f g

section
variable {g : Fanout}

theorem Same.alike (hsame : Same i f g) : Alike i f g := ⟨hsame.holder, hsame.sub, fun _ => hsame⟩

theorem outputs_filter (i : ℕ) (evs : List FanoutEvent) :
    outputs i (evs.filter (isOf i)) = outputs i evs := by
  unfold outputs
  rw [List.filterMap_filter]
  congr 1
  funext e
  cases e with
  | read chunk => rfl
  | sent j out =>
    by_cases hj : j = i
    · simp [isOf, hj]
    · simp [isOf, hj]

theorem receiverCount_of_needed (h : f.holder ≠ .gone ∨ f.connected i = true) : f.receiverCount ≠ 0 := by
  rcases h with hholder | hconn
  · unfold receiverCount
    rw [if_neg hholder]
    omega
  · unfold connected at hconn
    cases hs : f.subs.lookup i with
    | none =>
      rw [hs] at hconn
      cases hconn
    | some s =>
      rw [hs] at hconn
      exact receiverCount_ne_zero hs hconn

theorem Same.setSub (hsame : Same i f g) (s : Subscription) : Same i (f.setSub i s) (g.setSub i s) := by
  refine ⟨hsame.chan, hsame.holder, hsame.pump, hsame.buf, ?_⟩
  have hf : (f.setSub i s).subs.lookup i = some s := AList.lookup_insert _
  have hg : (g.setSub i s).subs.lookup i = some s := AList.lookup_insert _
  rw [hf, hg]

theorem Same.recvStep (hsame : Same i f g) {next : ℕ} (h : f.recvStep i next = some f') :
    ∃ g', g.recvStep i next = some g' ∧ Same i f' g' := by
  unfold Fanout.recvStep at h ⊢
  rw [hsame.chan]
  cases hr : f.chan.recv next with
  | mk r next' =>
    rw [hr] at h
    cases r with
    | message chunk =>
      cases h
      exact ⟨_, rfl, hsame.setSub _⟩
    | lagged n =>
      cases h
      exact ⟨_, rfl, hsame.setSub _⟩
    | closed =>
      cases h
      exact ⟨_, rfl, hsame.setSub _⟩
    | pending => cases h

/-- As long as subscription `i` has a receiver or may get one, the others do not matter. -/
theorem Same.step (hsame : Same i f g) (hneed : f.holder ≠ .gone ∨ f.connected i = true)
    (hs : f.step a = some (f', evs)) (hv : visible i a = true) :
    ∃ g', g.step a = some (g', evs) ∧ Same i f' g' := by
  have hcount := receiverCount_of_needed hneed
  have hneed' : g.holder ≠ .gone ∨ g.connected i = true := by
    rw [hsame.holder, connected, hsame.sub]
    exact hneed
  have hcount' := receiverCount_of_needed hneed'
  cases a with
  | insert =>
    simp only [Fanout.step, hsame.holder] at hs ⊢
    split_ifs at hs ⊢
    cases hs
    exact ⟨_, rfl, hsame.chan, rfl, hsame.pump, hsame.buf, hsame.sub⟩
  | drop =>
    simp only [Fanout.step, hsame.holder] at hs ⊢
    split_ifs at hs ⊢
    cases hs
    exact ⟨_, rfl, hsame.chan, rfl, hsame.pump, hsame.buf, hsame.sub⟩
  | read bytes =>
    simp only [Fanout.step, hsame.pump, hsame.buf, hsame.chan] at hs ⊢
    split_ifs at hs ⊢
    · cases hs
      exact ⟨_, rfl, rfl, hsame.holder, rfl, rfl, hsame.sub⟩
    · cases hs
      exact ⟨_, rfl, rfl, hsame.holder, rfl, rfl, hsame.sub⟩
  | count =>
    simp only [Fanout.step, hsame.pump, if_neg hcount, if_neg hcount'] at hs ⊢
    split_ifs at hs ⊢
    cases hs
    exact ⟨_, rfl, hsame.chan, hsame.holder, rfl, hsame.buf, hsame.sub⟩
  | send =>
    simp only [Fanout.step, hsame.pump, hsame.chan, hsame.buf, if_neg hcount, if_neg hcount'] at hs ⊢
    split_ifs at hs ⊢
    cases hs
    exact ⟨_, rfl, rfl, hsame.holder, rfl, rfl, hsame.sub⟩
  | attach j =>
    obtain rfl : j = i := by simpa [visible, FanoutAction.sub] using hv
    simp only [Fanout.step, hsame.holder, hsame.sub, hsame.chan] at hs ⊢
    split_ifs at hs ⊢
    cases hs
    exact ⟨_, rfl, hsame.setSub _⟩
  | ack j =>
    obtain rfl : j = i := by simpa [visible, FanoutAction.sub] using hv
    simp only [Fanout.step, hsame.sub] at hs ⊢
    split at hs
    · cases hs
      exact ⟨_, rfl, hsame.setSub _⟩
    · cases hs
  | recv j =>
    obtain rfl : j = i := by simpa [visible, FanoutAction.sub] using hv
    simp only [Fanout.step, hsame.sub] at hs ⊢
    split at hs
    · obtain ⟨f₁, hr, he⟩ := Option.map_eq_some_iff.mp hs
      cases he
      obtain ⟨g₁, hg, hsame₁⟩ := hsame.recvStep hr
      exact ⟨g₁, by rw [hg]; rfl, hsame₁⟩
    · cases hs
  | write j =>
    obtain rfl : j = i := by simpa [visible, FanoutAction.sub] using hv
    simp only [Fanout.step, hsame.sub] at hs ⊢
    split at hs
    · cases hs
      exact ⟨_, rfl, hsame.setSub _⟩
    · cases hs
  | lose j =>
    obtain rfl : j = i := by simpa [visible, FanoutAction.sub] using hv
    simp only [Fanout.step, hsame.sub] at hs ⊢
    split at hs
    · split_ifs at hs ⊢ with hlive
      cases hs
      exact ⟨_, rfl, hsame.setSub _⟩
    · cases hs

theorem SubStep.live {chan : Broadcast Bytes} {outs : List Output} (hs : SubStep chan s s' outs) :
    s.phase.live = true := by
  cases hs with
  | lose next phase hlive => exact hlive
  | _ => rfl

theorem Step.pump (hs : Step f a f' evs) (ha : a.sub = none) (hi : a ≠ .insert) (hd : a ≠ .drop) :
    f'.holder = f.holder ∧ f'.subs = f.subs ∧ evs.filter (isOf i) = [] := by
  cases hs with
  | insert => exact absurd rfl hi
  | drop => exact absurd rfl hd
  | attach j _ _ => cases ha
  | sub a j s s' outs ha' _ _ =>
    rw [ha] at ha'
    cases ha'
  | _ => exact ⟨rfl, rfl, rfl⟩

theorem solo_pump (i : ℕ) (g : Fanout) (ha : a.sub = none) (hi : a ≠ .insert) (hd : a ≠ .drop) :
    ∃ g', solo i g a = some (g', []) ∧ g'.holder = g.holder ∧ g'.subs = g.subs := by
  unfold solo
  cases hg : g.step a with
  | none => exact ⟨g, rfl, rfl, rfl⟩
  | some p =>
    obtain ⟨g', evs⟩ := p
    obtain ⟨hholder, hsubs, hevs⟩ := (step_cases hg).pump (i := i) ha hi hd
    exact ⟨g', by rw [← hevs], hholder, hsubs⟩

/-- Without a receiver and without a way to one, only the pump is left. -/
theorem pump_of_dead (hs : f.step a = some (f', evs)) (hv : visible i a = true)
    (hdead : ¬ (f.holder ≠ .gone ∨ f.connected i = true)) :
    a.sub = none ∧ a ≠ .insert ∧ a ≠ .drop := by
  have hgone : f.holder = .gone := by
    by_contra hholder
    exact hdead (.inl hholder)
  have hsub : a.sub = none := by
    cases step_cases hs with
    | attach j hh hj =>
      rw [hgone] at hh
      cases hh
    | sub a j s s' outs ha hj hstep =>
      obtain rfl : j = i := by simpa [visible, ha] using hv
      have hconn : f.connected j = true := by
        rw [connected, hj]
        exact hstep.live
      exact absurd (.inr hconn) hdead
    | clear a ha hp hc => exact ha
    | _ => rfl
  refine ⟨hsub, ?_, ?_⟩
  · rintro rfl
    simp [Fanout.step, hgone] at hs
  · rintro rfl
    simp [Fanout.step, hgone] at hs

theorem Alike.visible (hal : Alike i f g) (hs : f.step a = some (f', evs)) (hv : visible i a = true) :
    ∃ g', solo i g a = some (g', evs.filter (isOf i)) ∧ Alike i f' g' := by
  by_cases hneed : f.holder ≠ .gone ∨ f.connected i = true
  · obtain ⟨g', hg, hsame⟩ := (hal.same hneed).step hneed hs hv
    refine ⟨g', ?_, hsame.alike⟩
    unfold solo
    rw [hg]
  · obtain ⟨ha, hi, hd⟩ := pump_of_dead hs hv hneed
    obtain ⟨g', hg, hholder, hsubs⟩ := solo_pump i g ha hi hd
    obtain ⟨hholder', hsubs', hevs⟩ := (step_cases hs).pump (i := i) ha hi hd
    rw [hevs]
    refine ⟨g', hg, ?_, ?_, ?_⟩
    · rw [hholder, hholder']
      exact hal.holder
    · rw [hsubs, hsubs']
      exact hal.sub
    · unfold connected
      rw [hholder', hsubs']
      intro h
      exact absurd h hneed

theorem Alike.hidden (hal : Alike i f g) (hs : f.step a = some (f', evs)) (hv : Fanout.visible i a = false) :
    evs.filter (isOf i) = [] ∧ Alike i f' g := by
  have hne : ∀ j, a.sub = some j → j ≠ i := by
    rintro j ha rfl
    simp [Fanout.visible, ha] at hv
  have hframe : ∀ j s, j ≠ i → Alike i (f.setSub j s) g := by
    intro j s hj
    have hlook : (f.setSub j s).subs.lookup i = f.subs.lookup i := AList.lookup_insert_ne (Ne.symm hj)
    refine ⟨hal.holder, hal.sub.trans hlook.symm, ?_⟩
    intro h
    have hneed : f.holder ≠ .gone ∨ f.connected i = true := by
      unfold connected at h ⊢
      rw [hlook] at h
      exact h
    have hsame := hal.same hneed
    exact ⟨hsame.chan, hsame.holder, hsame.pump, hsame.buf, hsame.sub.trans hlook.symm⟩
  cases step_cases hs with
  | attach j hh hj => exact ⟨rfl, hframe j _ (hne j rfl)⟩
  | sub a j s s' outs ha hj hsub =>
    refine ⟨?_, hframe j s' (hne j ha)⟩
    rw [List.filter_eq_nil_iff]
    intro e he
    obtain ⟨out, -, rfl⟩ := List.mem_map.mp he
    simpa [isOf] using hne j ha
  | clear a ha hp hc => simp [Fanout.visible, ha] at hv
  | _ => cases hv

/-- **No other subscriber matters**: what subscription `i` is sent depends on the actions of the
pump, of the table and its own. -/
theorem outputs_eq {l₁ l₂ : List (Lts.Tr Fanout FanoutAction FanoutEvent)} {f₁ f₂ : Fanout}
    (h₁ : Lts.Run Fanout.step new l₁ f₁) (h₂ : Lts.Run Fanout.step new l₂ f₂)
    (hacts : (l₁.map Lts.Tr.act).filter (Fanout.visible i) = (l₂.map Lts.Tr.act).filter (Fanout.visible i)) :
    outputs i (Lts.events l₁) = outputs i (Lts.events l₂) := by
  have hsolo : ∀ {l f}, Lts.Run Fanout.step new l f → ∃ l' f', Lts.Run (solo i) new l' f' ∧
      l'.map Lts.Tr.act = (l.map Lts.Tr.act).filter (Fanout.visible i) ∧
      Lts.events l' = (Lts.events l).filter (isOf i) := by
    intro l f hr
    have hstart : Alike i new new := ⟨rfl, rfl, fun _ => ⟨rfl, rfl, rfl, rfl, rfl⟩⟩
    have hshown : ∀ (tr : Lts.Tr Fanout FanoutAction FanoutEvent) (g : Fanout), tr.Valid Fanout.step →
        True → Alike i tr.pre g → Fanout.visible i tr.act = true →
        ∃ g', solo i g tr.act = some (g', tr.evs.filter (isOf i)) ∧ Alike i tr.post g' := by
      intro tr g hv _ hal hvis
      exact hal.visible hv hvis
    obtain ⟨l', f', hr', -, hacts', hevs⟩ := hr.unwind (Alike i) (Fanout.visible i) (isOf i) (fun _ => True)
      hshown (fun tr g hv _ hal hhid => hal.hidden hv hhid) (fun _ _ => trivial) hstart
    exact ⟨l', f', hr', hacts', hevs⟩
  obtain ⟨l₁', f₁', hr₁, hacts₁, hevs₁⟩ := hsolo h₁
  obtain ⟨l₂', f₂', hr₂, hacts₂, hevs₂⟩ := hsolo h₂
  have hsame := hr₁.eq_of_acts hr₂ (hacts₁.trans (hacts.trans hacts₂.symm))
  rw [← outputs_filter i (Lts.events l₁), ← outputs_filter i (Lts.events l₂), ← hevs₁, ← hevs₂, hsame]

end

/-! ### The fan-out -/

/-- What is due to a subscription that attached in `tr`: the chunk that the pump had in hand and
those that it has read since. -/
def due (tr : Lts.Tr Fanout FanoutAction FanoutEvent)
    (l : List (Lts.Tr Fanout FanoutAction FanoutEvent)) : List Bytes :=
  tr.pre.inHand ++ chunksRead (Lts.events l)

def isAt (f : Fanout) (i : ℕ) (phase : SubPhase) : Prop :=
  (f.subs.lookup i).map Subscription.phase = some phase

/-- A subscription that has ended was sent the last of what was due to it. -/
theorem Up.finished_recent {start : ℕ} {due got : List Bytes} {K : Prop}
    (hu : Up cap f h start due got K s) (hfin : s.phase = .finished) :
    due.drop (due.length - cap) <:+ got ∧ (K → got = due) := by
  obtain ⟨hended, hnext⟩ := hu.finished hfin
  have hnone : s.inHand = [] := by
    unfold Subscription.inHand
    rw [hfin]
  have hempty : f.inHand = [] := by
    unfold inHand
    rw [hended]
  have hdue := hu.due
  have hreads := hu.reads
  have hcomplete := hu.complete
  rw [hempty, List.append_nil] at hdue
  rw [hnone, List.append_nil, hnext] at hreads hcomplete
  rw [List.take_length, hdue] at hcomplete
  refine ⟨?_, hcomplete⟩
  rw [← hdue]
  exact hreads.recent_all

theorem Follows.sent {start : ℕ} {due : List Bytes} {outs : List Output} {K : Prop}
    (hf : Follows cap f h i start due outs K) :
    (outs = [] ∨ outs = .ack :: (Output.chunks outs).map .chunk) ∧
      (Output.chunks outs).Sublist due ∧ (K → Output.chunks outs <+: due) ∧
      (f.isAt i .finished → due.drop (due.length - cap) <:+ Output.chunks outs ∧
        (K → Output.chunks outs = due)) := by
  obtain ⟨s, hs, hframed, hstate⟩ := hf
  refine ⟨hframed.framed, ?_⟩
  have hphase : ∀ phase, f.isAt i phase → s.phase = phase := by
    intro phase hat
    rw [isAt, hs] at hat
    exact Option.some.inj hat
  rcases hstate with hu | hd
  · have hpre : h.drop start <+: due := ⟨f.inHand, hu.due⟩
    have hgot : Output.chunks outs <+: Output.chunks outs ++ s.inHand := List.prefix_append _ _
    refine ⟨?_, ?_, ?_⟩
    · exact hgot.sublist.trans (hu.reads.sublist_drop.trans hpre.sublist)
    · intro hK
      rw [hu.complete hK] at hgot
      exact hgot.trans (((List.take_prefix s.next h).drop start).trans hpre)
    · intro hat
      exact hu.finished_recent (hphase _ hat)
  · refine ⟨hd.sublist, hd.complete, ?_⟩
    intro hat
    have hfin := hphase _ hat
    rw [hd.lost] at hfin
    cases hfin

theorem attach_ok (hs : f.step (.attach i) = some (f', evs)) :
    f.subs.lookup i = none ∧ f' = f.setSub i ⟨f.chan.tail, .acking⟩ ∧ evs = [] := by
  simp only [step] at hs
  split_ifs at hs with hh
  cases hs
  exact ⟨hh.2, rfl, rfl⟩

theorem isAt_of_not_connected (hi : f.subs.lookup i ≠ none) (hc : f.connected i = false) :
    f.isAt i .finished ∨ f.isAt i .lost := by
  unfold connected at hc
  unfold isAt
  cases hs : f.subs.lookup i with
  | none => exact absurd hs hi
  | some s =>
    rw [hs] at hc
    have hdead : s.phase.live = false := hc
    cases hp : s.phase with
    | finished => exact .inl (congrArg some hp)
    | lost => exact .inr (congrArg some hp)
    | acking =>
      rw [hp] at hdead
      cases hdead
    | receiving =>
      rw [hp] at hdead
      cases hdead
    | writing chunk =>
      rw [hp] at hdead
      cases hdead

/-- After the end of stdout a subscription ends, unless its connection is lost. -/
theorem ends {l : List (Lts.Tr Fanout FanoutAction FanoutEvent)} (hI : Inv cap h f)
    (hi : f.subs.lookup i ≠ none) (hended : f.pump = .ended) (hr : Lts.Run step f l f') :
    (l.map Lts.Tr.act).countP (fun a => decide (a.sub = some i)) ≤ 2 * cap + 3 ∧
      (f'.isAt i .finished ∨ f'.isAt i .lost ∨
        ∃ a f'' evs, a.sub = some i ∧ a ≠ .lose i ∧ f'.step a = some (f'', evs)) := by
  obtain ⟨hcount, hi', hended', h', hI'⟩ := ended_run hr hI hended hi
  have hbound := toDo_le f i
  rw [hI.cap] at hbound
  refine ⟨by omega, ?_⟩
  cases hc : f'.connected i with
  | true => exact .inr (.inr (ended_enabled hI' hended' hc))
  | false =>
    rcases isAt_of_not_connected hi' hc with hfin | hlost
    · exact .inl hfin
    · exact .inr (.inl hlost)

end Fanout

open Fanout in
/-- **Fan-out.**  After its `Ack` a subscriber is sent a subsequence of the chunks that are due to
it: all of them if it is never more than `stdoutCap` behind, the last `stdoutCap` in any case
once it has ended, which it does after the end of stdout unless its connection is lost; and the
other subscribers do not matter. -/
theorem stdout_fanout {l₁ l₂ : List (Lts.Tr Fanout FanoutAction FanoutEvent)}
    {tr : Lts.Tr Fanout FanoutAction FanoutEvent} {w : Fanout} {i : ℕ}
    (hr : Lts.Run Fanout.step .new (l₁ ++ tr :: l₂) w) (hact : tr.act = .attach i) :
    let sent := outputs i (Lts.events (l₁ ++ tr :: l₂))
    let got := Output.chunks sent
    (sent = [] ∨ sent = .ack :: got.map .chunk) ∧ got.Sublist (due tr l₂) ∧
    ((∀ tr' ∈ l₂, tr'.pre.behind i ≤ stdoutCap) →
      got <+: due tr l₂ ∧ (w.isAt i .finished → got = due tr l₂)) ∧
    (w.isAt i .finished → (due tr l₂).drop ((due tr l₂).length - stdoutCap) <:+ got) ∧
    (w.pump = .ended → ∀ l' w', Lts.Run Fanout.step w l' w' →
      (l'.map Lts.Tr.act).countP (fun a => decide (a.sub = some i)) ≤ 2 * stdoutCap + 3 ∧
        (w'.isAt i .finished ∨ w'.isAt i .lost ∨
          ∃ a f' evs, a.sub = some i ∧ a ≠ .lose i ∧ w'.step a = some (f', evs))) ∧
    (∀ l' w', Lts.Run Fanout.step .new l' w' →
      (l'.map Lts.Tr.act).filter (visible i) = ((l₁ ++ tr :: l₂).map Lts.Tr.act).filter (visible i) →
      outputs i (Lts.events l') = sent) := by
  intro sent got
  obtain ⟨hr₁, hv, hr₂⟩ := hr.split rfl
  obtain ⟨h₀, hI⟩ := Fanout.inv_run hr₁
  unfold Lts.Tr.Valid at hv
  rw [hact] at hv
  obtain ⟨hn, hpost, hevs⟩ := attach_ok hv
  rw [hpost] at hr₂
  have hI₀ : Inv stdoutCap h₀ (tr.pre.setSub i ⟨tr.pre.chan.tail, .acking⟩) :=
    ⟨hI.cap, hI.holds, hI.empty, hI.closed⟩
  obtain ⟨h, hIw, hf⟩ := follows_run hr₂ hI₀ (AList.lookup_insert _)
  have hsent : sent = outputs i (Lts.events l₂) := by
    show outputs i (Lts.events (l₁ ++ tr :: l₂)) = _
    rw [Lts.events_append, Lts.events_cons, hevs, List.nil_append, outputs_append,
      outputs_before hr₁ hn, List.nil_append]
  obtain ⟨hframed, hsub, hall, hlast⟩ := hf.sent
  have hi : w.subs.lookup i ≠ none := by
    obtain ⟨s, hs, -⟩ := hf
    rw [hs]
    exact Option.some_ne_none s
  rw [← hsent] at hframed hsub hall hlast
  refine ⟨hframed, hsub, ?_, ?_, ?_, ?_⟩
  · intro hnear
    exact ⟨hall hnear, fun hfin => (hlast hfin).2 hnear⟩
  · intro hfin
    exact (hlast hfin).1
  · intro hended l' w' hr'
    exact ends hIw hi hended hr'
  · intro l' w' hr' hacts
    exact outputs_eq hr' hr hacts

open Fanout in
/-- A subscriber attaches between two steps of the pump, and is sent a chunk that was read
before. -/
theorem chunk_in_hand : ∃ l₁ tr l₂ w, Lts.Run Fanout.step .new (l₁ ++ tr :: l₂) w ∧
    tr.act = .attach 0 ∧
    ¬ (Output.chunks (outputs 0 (Lts.events (l₁ ++ tr :: l₂)))).Sublist (chunksRead (Lts.events l₂)) := by
  obtain ⟨l₁, tr, l₂, w, hr, hact, hp⟩ := Lts.run_of_exec_at Fanout.step .new [.insert, .read [7]] (.attach 0)
    [.ack 0, .count, .send, .recv 0, .write 0]
    (fun _ r => decide (7 ∈ (Output.chunks (outputs 0 (Lts.events r.1))).flatten ∧
      chunksRead (Lts.events r.1) = [])) (by decide)
  rw [decide_eq_true_eq] at hp
  obtain ⟨hsent, hread⟩ := hp
  refine ⟨l₁, tr, l₂, w, hr, hact, ?_⟩
  intro hsub
  rw [hread, List.sublist_nil, Lts.events_append, Lts.events_cons, outputs_append, outputs_append,
    chunks_append, chunks_append] at hsub
  rw [(List.append_eq_nil_iff.mp (List.append_eq_nil_iff.mp hsub).2).2] at hsent
  cases hsent

open Fanout in
/-- A subscriber that keeps up, next to one that does not receive at all, is sent everything. -/
theorem stdout_fanout_all : ∃ l₁ tr l₂ w, Lts.Run Fanout.step .new (l₁ ++ tr :: l₂) w ∧
    due tr l₂ = [[7], [8, 9]] ∧
    Output.chunks (outputs 0 (Lts.events (l₁ ++ tr :: l₂))) = due tr l₂ := by
  obtain ⟨l₁, tr, l₂, w, hr, hact, hp⟩ := Lts.run_of_exec_at Fanout.step .new [.insert, .attach 1] (.attach 0)
    [.ack 0, .read [7], .count, .send, .recv 0, .write 0, .read [8, 9], .count, .send, .read [],
      .recv 0, .write 0, .recv 0]
    (fun tr r => r.1.all (fun tr' => decide (tr'.pre.behind 0 ≤ stdoutCap)) &&
      decide ((r.2.subs.lookup 0).map Subscription.phase = some .finished ∧
        due tr r.1 = [[7], [8, 9]])) (by decide)
  simp only [Bool.and_eq_true, decide_eq_true_eq, List.all_eq_true] at hp
  obtain ⟨hnear, hfin, hdue⟩ := hp
  exact ⟨l₁, tr, l₂, w, hr, hdue, ((stdout_fanout hr hact).2.2.1 hnear).2 hfin⟩

end MeshSupervisor
