import MeshSupervisor.Telemetry

/-! # What a watcher accepts of a publisher

The traffic a watcher sees is arbitrary: the adversary drops, repeats, delays and reorders
messages and injects bytes of its own, other publishers' ticks and forgeries.  Signatures
are symbolic (`Symbolic`): what verifies under a publisher's id is a body its key signed.

`accepted_authentic`: the ticks accepted are then a subsequence of the ticks signed, and
messages that are not authentic ticks of the publisher do not matter. -/

namespace MeshSupervisor

open Wire (Bytes Codec)
open Signature (Scheme Unforged)

section Protocol

variable {EndpointId Sig : Type} [Scheme SecretKey EndpointId Sig]
  [Codec (Tick EndpointId)] [Codec (SignedTick Sig)]

/-! ### Authentic messages -/

/-- The envelope of an item, when it is a message that parses. -/
def Arrival.envelope (a : Arrival EndpointId) : Option (SignedTick Sig) :=
  match a.event with
  | .ok (.received content) => Codec.decode content
  | _ => none

/-- Everything the watcher is sent, as signed bytes with a signature. -/
def wire (es : List (Arrival EndpointId)) : List (Bytes × Sig) :=
  es.filterMap (fun a => a.envelope.map (fun s => (s.body, s.sig)))

/-- An item is an authentic message of `p`: it carries one of the ticks `p` signed, under a
signature that verifies. -/
def Arrival.authentic (p : EndpointId) (ticks : List (Tick EndpointId)) (a : Arrival EndpointId) :
    Bool :=
  a.envelope.any fun s =>
    (ticks.map Codec.encode).contains s.body && Scheme.verify SecretKey p s.body s.sig

/-- Symbolic signatures: only what `p` signed verifies under `p`. -/
def Symbolic (p : EndpointId) (ticks : List (Tick EndpointId)) (es : List (Arrival EndpointId)) :
    Prop :=
  Unforged (Scheme.verify SecretKey) p (ticks.map Codec.encode) (wire es)

theorem Arrival.tick?_eq_some {a : Arrival EndpointId} {t : Tick EndpointId} :
    a.tick? = some t ↔ ∃ s, a.envelope = some s ∧ Codec.decode s.body = some t ∧
      Scheme.verify SecretKey t.fromId s.body s.sig = true := by
  obtain ⟨now, event⟩ := a
  unfold tick? envelope
  cases event with
  | error e => simp
  | ok event =>
      cases event with
      | received content => exact openTick_eq_some
      | neighborUp id => simp
      | neighborDown id => simp
      | lagged => simp

theorem Symbolic.authentic {p : EndpointId} {ticks : List (Tick EndpointId)}
    {es : List (Arrival EndpointId)} (h : Symbolic p ticks es) {a : Arrival EndpointId}
    (ha : a ∈ es) {t : Tick EndpointId} (ht : a.tick? = some t) (hp : t.fromId = p) :
    t ∈ ticks ∧ a.authentic p ticks = true := by
  obtain ⟨s, hs, hd, hv⟩ := Arrival.tick?_eq_some.mp ht
  rw [hp] at hv
  have hwire : (s.body, s.sig) ∈ wire es :=
    List.mem_filterMap.mpr ⟨a, ha, by rw [hs]; rfl⟩
  have hbody : s.body ∈ ticks.map Codec.encode := h _ hwire hv
  constructor
  · obtain ⟨t', ht', he⟩ := List.mem_map.mp hbody
    rw [← he, Codec.decode_encode] at hd
    obtain rfl := Option.some.inj hd
    exact ht'
  · unfold Arrival.authentic
    rw [hs]
    simp only [Option.any_some, Bool.and_eq_true, List.contains_iff_mem]
    exact ⟨hbody, hv⟩

theorem Arrival.offer_eq_some {maxTickAge : Duration} {a : Arrival EndpointId}
    {x : Tick EndpointId × ℕ} :
    a.offer maxTickAge = some x ↔
      a.tick? = some x.1 ∧ fresh x.1.ts x.2 maxTickAge = true ∧ a.now = x.2 := by
  obtain ⟨t, now⟩ := x
  unfold offer
  simp only [Option.map_eq_some_iff, Option.filter_eq_some_iff, Prod.mk.injEq]
  constructor
  · rintro ⟨t', ⟨ht, hf⟩, rfl, rfl⟩
    exact ⟨ht, hf, rfl⟩
  · rintro ⟨ht, hf, rfl⟩
    exact ⟨t, ⟨ht, hf⟩, rfl, rfl⟩

section Watch

variable [DecidableEq EndpointId] {maxTickAge : Duration} {p : EndpointId}

theorem acceptedFrom_mem {es : List (Arrival EndpointId)} {x : Tick EndpointId × ℕ}
    (h : x ∈ acceptedFrom maxTickAge p es) :
    ∃ a ∈ live es, a.tick? = some x.1 ∧ fresh x.1.ts x.2 maxTickAge = true ∧ x.1.fromId = p := by
  rw [acceptedFrom_eq] at h
  have hmem := (Gate.climb_sublist _ _ _).subset h
  obtain ⟨hoff, hp⟩ := List.mem_filter.mp hmem
  obtain ⟨a, ha, hx⟩ := List.mem_filterMap.mp hoff
  obtain ⟨ht, hf, -⟩ := Arrival.offer_eq_some.mp hx
  exact ⟨a, ha, ht, hf, of_decide_eq_true hp⟩

/-- A fresh tick is at most `maxTickAge` away: rounding to milliseconds and to the width of
a machine word only narrows the window. -/
theorem dist_le_of_fresh {ts now : ℕ} (h : fresh ts now maxTickAge = true) :
    Nat.dist now ts * 1000000 ≤ maxTickAge := by
  have hle : Nat.dist now ts ≤ maxTickAge.asMillis % 2 ^ 64 := of_decide_eq_true h
  calc Nat.dist now ts * 1000000
      ≤ maxTickAge.asMillis * 1000000 := Nat.mul_le_mul_right _ (hle.trans (Nat.mod_le _ _))
    _ ≤ maxTickAge := Nat.div_mul_le_self _ _

/-- Only the authentic messages of a publisher count for what is accepted of it. -/
theorem acceptedFrom_authentic {ticks : List (Tick EndpointId)} {es : List (Arrival EndpointId)}
    (h : Symbolic p ticks es) :
    acceptedFrom maxTickAge p es =
      Gate.climb (·.1.seq) none
        ((((live es).filter (Arrival.authentic p ticks)).filterMap
          (Arrival.offer maxTickAge)).filter (·.1.fromId = p)) := by
  rw [acceptedFrom_eq, List.filterMap_filter, List.filter_filterMap, List.filter_filterMap]
  congr 1
  apply List.filterMap_congr
  intro a ha
  by_cases hauth : a.authentic p ticks = true
  · rw [if_pos hauth]
  · rw [if_neg hauth]
    have hes : a ∈ es := (List.takeWhile_sublist _).subset ha
    cases hx : a.offer maxTickAge with
    | none => rfl
    | some x =>
        obtain ⟨ht, -, -⟩ := Arrival.offer_eq_some.mp hx
        have hne : ¬ x.1.fromId = p := fun hp => hauth (h.authentic hes ht hp).2
        simp [hne]

/-- **Authenticity, order and isolation.**  Let a publisher's key sign the ticks of one run
and nothing else, and let the watcher see any traffic in which signatures are not forged.
What it accepts of the publisher is a subsequence of the ticks signed, with increasing
numbers, none twice, each within the window on acceptance; and traffic with the same
authentic messages at the same times has the same ticks accepted. -/
theorem accepted_authentic (maxTickAge : Duration) (secret : SecretKey) (rounds : List Round)
    (es : List (Arrival EndpointId))
    (h : Symbolic (Scheme.pub secret) (ticksOf secret rounds) es) :
    ((acceptedFrom maxTickAge (Scheme.pub secret) es).map Prod.fst).Sublist (ticksOf secret rounds) ∧
    ((acceptedFrom maxTickAge (Scheme.pub secret) es).map (·.1.seq)).Pairwise (· < ·) ∧
    ((acceptedFrom maxTickAge (Scheme.pub secret) es).map Prod.fst).Nodup ∧
    (∀ x ∈ acceptedFrom maxTickAge (Scheme.pub secret) es,
      Nat.dist x.2 x.1.ts * 1000000 ≤ maxTickAge) ∧
    ∀ es' : List (Arrival EndpointId), Symbolic (Scheme.pub secret) (ticksOf secret rounds) es' →
      (live es').filter (Arrival.authentic (Scheme.pub secret) (ticksOf secret rounds)) =
        (live es).filter (Arrival.authentic (Scheme.pub secret) (ticksOf secret rounds)) →
      acceptedFrom maxTickAge (Scheme.pub secret) es' =
        acceptedFrom maxTickAge (Scheme.pub secret) es := by
  have hclimb : Gate.Increasing (·.1.seq) (acceptedFrom maxTickAge (Scheme.pub secret) es) := by
    rw [acceptedFrom_eq]
    exact Gate.climb_pairwise _ _ _
  have hinc : Gate.Increasing Tick.seq
      ((acceptedFrom maxTickAge (Scheme.pub secret) es).map Prod.fst) := List.pairwise_map.mpr hclimb
  have hsub : ∀ t ∈ (acceptedFrom maxTickAge (Scheme.pub secret) es).map Prod.fst,
      t ∈ ticksOf secret rounds := by
    intro t ht
    obtain ⟨x, hx, rfl⟩ := List.mem_map.mp ht
    obtain ⟨a, ha, hat, -, hp⟩ := acceptedFrom_mem hx
    exact (h.authentic ((List.takeWhile_sublist _).subset ha) hat hp).1
  refine ⟨Gate.sublist_of_increasing _ hinc (ticksOf_increasing secret rounds) hsub, ?_, ?_, ?_, ?_⟩
  · exact List.pairwise_map.mpr hclimb
  · refine hinc.imp ?_
    rintro t t' hlt rfl
    exact lt_irrefl _ hlt
  · intro x hx
    obtain ⟨-, -, -, hf, -⟩ := acceptedFrom_mem hx
    exact dist_le_of_fresh hf
  · intro es' h' hsame
    rw [acceptedFrom_authentic h', acceptedFrom_authentic h, hsame]

end Watch

end Protocol

def oneStat : ProcInfo := ⟨1, 42, .running, some ⟨1048576, 500⟩, 0⟩

/-- The rounds of a publisher that has nothing to report at first. -/
def twoReports : List Round := [⟨[], 500, true⟩, ⟨[oneStat], 1000, true⟩, ⟨[oneStat], 2000, true⟩]

open Symbols in
/-- The publisher's own messages, the second overtaking the first and repeated. -/
def ownTraffic : List (Arrival SecretKey) :=
  [⟨2100, .ok (.received (signTick (key 1) 2 [oneStat] 2000))⟩,
    ⟨2200, .ok (.received (signTick (key 1) 1 [oneStat] 1000))⟩,
    ⟨2300, .ok (.received (signTick (key 1) 2 [oneStat] 2000))⟩]

open Symbols in
/-- A tick in the publisher's name under another key's signature, with a higher number. -/
def forgedTick : Bytes :=
  let body := Codec.encode (Tick.mk (key 1) 2000 9 [])
  Codec.encode (SignedTick.mk body (Scheme.sign (key 2) body))

open Symbols in
/-- The same messages among noise, a forgery, another publisher's tick and a message after
the stream broke. -/
def hostileTraffic : List (Arrival SecretKey) :=
  [⟨2000, .ok (.neighborUp (key 2))⟩, ⟨2010, .ok (.received [7, 7])⟩,
    ⟨2020, .ok (.received forgedTick)⟩] ++ ownTraffic ++
  [⟨2400, .ok (.received (signTick (key 2) 5 [] 2000))⟩, ⟨2500, .error "closed"⟩,
    ⟨2600, .ok (.received (signTick (key 1) 1 [oneStat] 1000))⟩]

open Symbols in
theorem accepted_authentic_hostile :
    acceptedFrom (.fromSecs 30) (key 1) hostileTraffic = [(⟨key 1, 2000, 2, [oneStat]⟩, 2100)] ∧
    ((acceptedFrom (.fromSecs 30) (key 1) hostileTraffic).map Prod.fst).Sublist
      (ticksOf (key 1) twoReports) ∧
    acceptedFrom (.fromSecs 30) (key 1) ownTraffic =
      acceptedFrom (.fromSecs 30) (key 1) hostileTraffic := by
  have hsym : Symbolic (key 1) (ticksOf (key 1) twoReports) hostileTraffic := by
    unfold Symbolic
    decide +kernel
  have hown : Symbolic (key 1) (ticksOf (key 1) twoReports) ownTraffic := by
    unfold Symbolic
    decide +kernel
  obtain ⟨hsub, -, -, -, hiso⟩ :=
    accepted_authentic (.fromSecs 30) (key 1) twoReports hostileTraffic hsym
  exact ⟨by decide +kernel, hsub, hiso ownTraffic hown (by rfl)⟩

end MeshSupervisor
