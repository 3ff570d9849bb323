import Mathlib.Data.Nat.Dist
import MeshSupervisor.Frame
import MeshSupervisor.Lib.Gate
import MeshSupervisor.Lib.Signature
import MeshSupervisor.Process

/-! # Telemetry: the publisher and the watcher

`publishLoop` and `watchLoop` of `telemetry.rs` with everything between them: the signed
envelope (`signTick`, `openTick`), the freshness window and the high-water mark per
publisher (`acceptTick`), and the CPU rate the watcher derives from successive ticks.
Signatures and the two encodings are parameters; clocks are in milliseconds since the
epoch and appear wherever the source reads them.

`watchLoop_accepted` reduces the watcher to the gate of `Lib/Gate.lean` over the fresh ticks
that open, and `acceptedFrom_eq` to the gate of a single publisher; later modules use only
these.  The last section has ideal signatures and the wire format of a tick, the instance
that concrete traffic is evaluated with. -/

namespace MeshSupervisor

open Wire (Bytes Codec)
open Signature (Scheme)

def Duration.asMillis (d : Duration) : ℕ := d / 1000000

/-! ### Ticks -/

/-- One supervisor's process table at a moment in time. -/
structure Tick (EndpointId : Type) where
  /-- The source's `from`. -/
  fromId : EndpointId
  ts : ℕ
  seq : ℕ
  stats : List ProcInfo
deriving DecidableEq

/-- Wire form: the serialized `Tick` and a signature over those bytes. -/
structure SignedTick (Sig : Type) where
  body : Bytes
  sig : Sig
deriving DecidableEq

/-- Whether a tick stamped `ts` is close to `now`, in either direction. -/
def fresh (ts now : ℕ) (maxTickAge : Duration) : Bool :=
  Nat.dist now ts ≤ maxTickAge.asMillis % 2 ^ 64

section Accept

variable {EndpointId : Type} [DecidableEq EndpointId]

/-- Whether to accept a tick, and the marks afterwards. -/
def acceptTick (tick : Tick EndpointId) (now : ℕ) (latestSeq : Table EndpointId ℕ)
    (maxTickAge : Duration) : Bool × Table EndpointId ℕ :=
  if !fresh tick.ts now maxTickAge then (false, latestSeq)
  else if (latestSeq.lookup tick.fromId).any (tick.seq ≤ ·) then (false, latestSeq)
  else (true, AList.insert tick.fromId tick.seq latestSeq)

theorem acceptTick_stale {tick : Tick EndpointId} {now : ℕ} {maxTickAge : Duration}
    (h : fresh tick.ts now maxTickAge = false) (latestSeq : Table EndpointId ℕ) :
    acceptTick tick now latestSeq maxTickAge = (false, latestSeq) := by
  unfold acceptTick
  rw [h]
  rfl

theorem acceptTick_fresh {tick : Tick EndpointId} {now : ℕ} {maxTickAge : Duration}
    (h : fresh tick.ts now maxTickAge = true) (latestSeq : Table EndpointId ℕ) :
    acceptTick tick now latestSeq maxTickAge =
      if (latestSeq.lookup tick.fromId).any (tick.seq ≤ ·) then (false, latestSeq)
      else (true, AList.insert tick.fromId tick.seq latestSeq) := by
  unfold acceptTick
  rw [h]
  rfl

/-! ### What the watcher prints -/

/-- The last `(cpu_usec, ts)` of each process of each publisher. -/
abbrev Prev (EndpointId : Type) := Table (EndpointId × Handle) (ℕ × ℕ)

/-- One printed line: memory in MiB and CPU in percent, `none` being `-`. -/
structure Line where
  handle : Handle
  pid : Pid
  state : ProcState
  mem : Option ℕ
  cpu : Option ℚ
deriving DecidableEq

/-- The line of one process, and the samples remembered afterwards. -/
def showStat (tick : Tick EndpointId) (prev : Prev EndpointId) (s : ProcInfo) :
    Prev EndpointId × Line :=
  let mem := s.usage.map (fun u => u.memBytes / (1024 * 1024))
  match s.usage with
  | none => (prev, ⟨s.handle, s.pid, s.state, mem, none⟩)
  | some u =>
      let cpu := (prev.lookup (tick.fromId, s.handle)).bind fun (pc, pt) =>
        if pt < tick.ts then
          some (((u.cpuUsec - pc : ℕ) : ℚ) / (((tick.ts - pt : ℕ) : ℚ) * 10))
        else none
      (AList.insert (tick.fromId, s.handle) (u.cpuUsec, tick.ts) prev,
        ⟨s.handle, s.pid, s.state, mem, cpu⟩)

/-- The lines of a tick, in the order of its processes. -/
def showStats (tick : Tick EndpointId) : Prev EndpointId → List ProcInfo →
    Prev EndpointId × List Line
  | prev, [] => (prev, [])
  | prev, s :: stats =>
      let (prev, line) := showStat tick prev s
      let (prev, lines) := showStats tick prev stats
      (prev, line :: lines)

end Accept

/-! ### The gossip stream -/

inductive GossipEvent (EndpointId : Type) where
  | received (content : Bytes)
  | neighborUp (id : EndpointId)
  | neighborDown (id : EndpointId)
  | lagged
deriving DecidableEq

/-- One item of the stream, with the clock when the watcher handles it; an error is the
last item it handles. -/
structure Arrival (EndpointId : Type) where
  now : ℕ
  event : Except String (GossipEvent EndpointId)

/-- The items handled: those before the first stream error. -/
def live {EndpointId : Type} (es : List (Arrival EndpointId)) : List (Arrival EndpointId) :=
  es.takeWhile (fun a => a.event.isOk)

theorem live_cons_ok {EndpointId : Type} (now : ℕ) (event : GossipEvent EndpointId)
    (rest : List (Arrival EndpointId)) :
    live (⟨now, .ok event⟩ :: rest) = ⟨now, .ok event⟩ :: live rest := rfl

section Protocol

/-! ### The ticks of a run -/

variable {EndpointId Sig : Type} [Scheme SecretKey EndpointId Sig]

/-- One round of the publisher: the snapshot, the clock at signing, and whether the
broadcast succeeds. -/
structure Round where
  stats : List ProcInfo
  now : ℕ
  broadcast : Bool := true
deriving DecidableEq

/-- The ticks of the rounds, each with the outcome of its broadcast; `seq` counts the
ticks so far. -/
def signedTicks (secret : SecretKey) : ℕ → List Round → List (Tick EndpointId × Bool)
  | _, [] => []
  | seq, r :: rounds =>
      if r.stats.isEmpty then signedTicks secret seq rounds
      else (⟨Scheme.pub secret, r.now, seq + 1, r.stats⟩, r.broadcast) ::
        signedTicks secret (seq + 1) rounds

theorem mem_signedTicks (secret : SecretKey) (seq : ℕ) (rounds : List Round) :
    ∀ x ∈ (signedTicks secret seq rounds : List (Tick EndpointId × Bool)),
      x.1.fromId = Scheme.pub secret ∧ seq < x.1.seq := by
  induction rounds generalizing seq with
  | nil =>
      intro x hx
      cases hx
  | cons r rounds ih =>
      intro x hx
      unfold signedTicks at hx
      by_cases hr : r.stats.isEmpty = true
      · rw [if_pos hr] at hx
        exact ih seq x hx
      · rw [if_neg hr] at hx
        obtain rfl | hx := List.mem_cons.mp hx
        · exact ⟨rfl, Nat.lt_succ_self seq⟩
        · obtain ⟨hfrom, hlt⟩ := ih (seq + 1) x hx
          exact ⟨hfrom, by omega⟩

theorem signedTicks_increasing (secret : SecretKey) (seq : ℕ) (rounds : List Round) :
    Gate.Increasing (·.1.seq) (signedTicks secret seq rounds : List (Tick EndpointId × Bool)) := by
  unfold Gate.Increasing
  induction rounds generalizing seq with
  | nil => exact List.Pairwise.nil
  | cons r rounds ih =>
      unfold signedTicks
      by_cases hr : r.stats.isEmpty = true
      · rw [if_pos hr]
        exact ih seq
      · rw [if_neg hr]
        exact List.Pairwise.cons (fun x hx => (mem_signedTicks secret (seq + 1) rounds x hx).2)
          (ih (seq + 1))

/-- The ticks one run signs, in order. -/
def ticksOf (secret : SecretKey) (rounds : List Round) : List (Tick EndpointId) :=
  (signedTicks secret 0 rounds).map Prod.fst

theorem ticksOf_increasing (secret : SecretKey) (rounds : List Round) :
    Gate.Increasing Tick.seq (ticksOf secret rounds : List (Tick EndpointId)) := by
  exact List.pairwise_map.mpr (signedTicks_increasing secret 0 rounds)

/-! ### The envelope -/

variable [Codec (Tick EndpointId)] [Codec (SignedTick Sig)]

def signTick (secret : SecretKey) (seq : ℕ) (stats : List ProcInfo) (now : ℕ) : Bytes :=
  let body := Codec.encode (Tick.mk (Scheme.pub secret) now seq stats)
  Codec.encode (SignedTick.mk body (Scheme.sign secret body))

/-- Parse a tick and verify it under the id it claims. -/
def openTick (content : Bytes) : Option (Tick EndpointId) :=
  match Codec.decode (α := SignedTick Sig) content with
  | none => none
  | some signed =>
      match Codec.decode (α := Tick EndpointId) signed.body with
      | none => none
      | some tick =>
          if Scheme.verify SecretKey tick.fromId signed.body signed.sig then some tick else none

/-- What opens is the decoded body of an envelope that verifies under the id it claims. -/
theorem openTick_eq_some {content : Bytes} {t : Tick EndpointId} :
    openTick content = some t ↔ ∃ s : SignedTick Sig, Codec.decode content = some s ∧
      Codec.decode s.body = some t ∧ Scheme.verify SecretKey t.fromId s.body s.sig = true := by
  unfold openTick
  cases hd : Codec.decode (α := SignedTick Sig) content with
  | none => simp
  | some s =>
      cases hb : Codec.decode (α := Tick EndpointId) s.body with
      | none => simp [hb]
      | some t' =>
          constructor
          · intro h
            simp only [hb, Option.ite_none_right_eq_some, Option.some.injEq] at h
            obtain ⟨hv, rfl⟩ := h
            exact ⟨s, rfl, hb, hv⟩
          · rintro ⟨s', hs, hb', hv⟩
            obtain rfl := Option.some.inj hs
            obtain rfl := Option.some.inj (hb.symm.trans hb')
            simp only [hb, hv, if_true]

theorem openTick_signTick (secret : SecretKey) (seq : ℕ) (stats : List ProcInfo) (now : ℕ) :
    openTick (signTick secret seq stats now) =
      some (⟨Scheme.pub secret, now, seq, stats⟩ : Tick EndpointId) := by
  simp only [openTick, signTick, Codec.decode_encode, Scheme.verify_sign, if_true]

/-! ### The publisher -/

/-- The messages of the rounds, each with the outcome of its broadcast; `seq` counts the
ticks so far. -/
def publishLoop (secret : SecretKey) : ℕ → List Round → List (Bytes × Bool)
  | _, [] => []
  | seq, r :: rounds =>
      if r.stats.isEmpty then publishLoop secret seq rounds
      else (signTick secret (seq + 1) r.stats r.now, r.broadcast) ::
        publishLoop secret (seq + 1) rounds

def message (secret : SecretKey) (t : Tick EndpointId) : Bytes := signTick secret t.seq t.stats t.ts

theorem publishLoop_eq (secret : SecretKey) (seq : ℕ) (rounds : List Round) :
    publishLoop secret seq rounds =
      (signedTicks secret seq rounds).map (Prod.map (message secret) id) := by
  induction rounds generalizing seq with
  | nil => rfl
  | cons r rounds ih =>
      unfold publishLoop signedTicks
      by_cases hr : r.stats.isEmpty = true
      · rw [if_pos hr, if_pos hr]
        exact ih seq
      · rw [if_neg hr, if_neg hr, List.map_cons, ih]
        rfl

/-! ### The watcher -/

/-- An accepted tick, the clock on acceptance and the lines printed for it. -/
structure Accepted (EndpointId : Type) where
  tick : Tick EndpointId
  now : ℕ
  lines : List Line
deriving DecidableEq

section Watch

variable [DecidableEq EndpointId]

/-- The ticks accepted from the stream, given the marks and the samples so far. -/
def watchLoop (maxTickAge : Duration) (latestSeq : Table EndpointId ℕ) (prev : Prev EndpointId) :
    List (Arrival EndpointId) → List (Accepted EndpointId)
  | [] => []
  | a :: rest =>
      match a.event with
      | .error _ => []
      | .ok (.received content) =>
          match openTick content with
          | none => watchLoop maxTickAge latestSeq prev rest
          | some tick =>
              match acceptTick tick a.now latestSeq maxTickAge with
              | (false, latestSeq) => watchLoop maxTickAge latestSeq prev rest
              | (true, latestSeq) =>
                  let (prev, lines) := showStats tick prev tick.stats
                  ⟨tick, a.now, lines⟩ :: watchLoop maxTickAge latestSeq prev rest
      | .ok (.neighborUp _) => watchLoop maxTickAge latestSeq prev rest
      | .ok (.neighborDown _) => watchLoop maxTickAge latestSeq prev rest
      | .ok .lagged => watchLoop maxTickAge latestSeq prev rest

end Watch

/-- The ticks a watcher accepts of one publisher, with the clock on acceptance. -/
def acceptedFrom [DecidableEq EndpointId] (maxTickAge : Duration) (p : EndpointId)
    (es : List (Arrival EndpointId)) : List (Tick EndpointId × ℕ) :=
  ((watchLoop maxTickAge ∅ ∅ es).map (fun a => (a.tick, a.now))).filter (·.1.fromId = p)

/-! ### The watcher is a gate -/

def Arrival.tick? (a : Arrival EndpointId) : Option (Tick EndpointId) :=
  match a.event with
  | .ok (.received content) => openTick content
  | _ => none

def Arrival.offer (maxTickAge : Duration) (a : Arrival EndpointId) :
    Option (Tick EndpointId × ℕ) :=
  (a.tick?.filter (fun t => fresh t.ts a.now maxTickAge)).map (·, a.now)

section Watch

variable [DecidableEq EndpointId] (maxTickAge : Duration)

/-- The watcher accepts what the gate of the publishers lets pass of the fresh ticks. -/
theorem watchLoop_accepted (latestSeq : Table EndpointId ℕ) (prev : Prev EndpointId)
    (es : List (Arrival EndpointId)) :
    (watchLoop maxTickAge latestSeq prev es).map (fun a => (a.tick, a.now)) =
      Gate.pass (·.1.seq) (·.1.fromId) latestSeq
        ((live es).filterMap (Arrival.offer maxTickAge)) := by
  induction es generalizing latestSeq prev with
  | nil => rfl
  | cons a rest ih =>
      obtain ⟨now, event⟩ := a
      cases event with
      | error e => rfl
      | ok event =>
          rw [live_cons_ok]
          cases event with
          | received content =>
              cases ho : openTick content with
              | none =>
                  have hoff : Arrival.offer maxTickAge ⟨now, .ok (.received content)⟩ = none := by
                    simp only [Arrival.offer, Arrival.tick?, ho]
                    rfl
                  rw [List.filterMap_cons_none hoff, ← ih latestSeq prev]
                  simp only [watchLoop, ho]
              | some tick =>
                  cases hf : fresh tick.ts now maxTickAge with
                  | false =>
                      have hoff : Arrival.offer maxTickAge ⟨now, .ok (.received content)⟩ = none := by
                        simp only [Arrival.offer, Arrival.tick?, ho, Option.filter_some, hf]
                        rfl
                      rw [List.filterMap_cons_none hoff, ← ih latestSeq prev]
                      simp only [watchLoop, ho, acceptTick_stale hf]
                  | true =>
                      have hoff : Arrival.offer maxTickAge ⟨now, .ok (.received content)⟩ =
                          some (tick, now) := by
                        simp only [Arrival.offer, Arrival.tick?, ho, Option.filter_some, hf]
                        rfl
                      rw [List.filterMap_cons_some hoff]
                      unfold Gate.pass
                      simp only [watchLoop, ho, acceptTick_fresh hf]
                      by_cases hm : (latestSeq.lookup tick.fromId).any (tick.seq ≤ ·) = true
                      · rw [if_pos hm, if_pos hm]
                        exact ih latestSeq prev
                      · rw [if_neg hm, if_neg hm, List.map_cons, ih]
          | neighborUp id => exact ih latestSeq prev
          | neighborDown id => exact ih latestSeq prev
          | lagged => exact ih latestSeq prev

theorem acceptedFrom_eq (p : EndpointId) (es : List (Arrival EndpointId)) :
    acceptedFrom maxTickAge p es =
      Gate.climb (·.1.seq) none
        (((live es).filterMap (Arrival.offer maxTickAge)).filter (·.1.fromId = p)) := by
  unfold acceptedFrom
  rw [watchLoop_accepted, Gate.pass_filter]
  rfl

end Watch

end Protocol

/-! ### An instance: ideal signatures and the wire format of a tick -/

def secretKeyFormat : Wire.Format SecretKey :=
  Wire.Format.byte.list.retract (fun k => k.bytes)
    (fun bs => if h : bs.length = 32 then some ⟨bs, h⟩ else none)
    (fun k => dif_pos k.length_eq)

def tickFormat {EndpointId : Type} (id : Wire.Format EndpointId) : Wire.Format (Tick EndpointId) :=
  open Wire.Format in
  (id.pair (nat.pair (nat.pair procInfoFormat.list))).retract
    (fun t => (t.fromId, t.ts, t.seq, t.stats))
    (fun (fromId, ts, seq, stats) => some ⟨fromId, ts, seq, stats⟩)
    (fun _ => rfl)

def signedTickFormat {Sig : Type} (sig : Wire.Format Sig) : Wire.Format (SignedTick Sig) :=
  open Wire.Format in
  (byte.list.pair sig).retract (fun s => (s.body, s.sig)) (fun (body, sig) => some ⟨body, sig⟩)
    (fun _ => rfl)

namespace Symbols

scoped instance : Scheme SecretKey SecretKey (SecretKey × Bytes) := Signature.symbolic SecretKey

scoped instance : Codec (Tick SecretKey) := (tickFormat secretKeyFormat).codec

scoped instance : Codec (SignedTick (SecretKey × Bytes)) :=
  (signedTickFormat (secretKeyFormat.pair Wire.Format.byte.list)).codec

/-- The key whose bytes are all `b`. -/
def key (b : UInt8) : SecretKey := ⟨List.replicate 32 b, List.length_replicate⟩

end Symbols

end MeshSupervisor
