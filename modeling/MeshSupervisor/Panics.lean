import MeshSupervisor.Limiter
import MeshSupervisor.Retry
import MeshSupervisor.Tasks
import MeshSupervisor.Telemetry

/-! # Where time arithmetic can panic

The knobs of the command line flow unchecked into arithmetic on `Instant` and `Duration`.  A
`Node` is what a `supervise` process computes with time: the limiter, the manager and the start
of the publisher.  `nodeStep` runs them with the checked operations of `Config.lean`, and an
operation outside of its domain ends the call or task it is in.

`in_domain_iff`: a run is free of panics exactly when the clock readings at its eviction passes
and at the deadlines of `kill_all` leave room for the knobs, and the publisher is not started
with a zero interval.  The delays of a client and its freshness window are always in range. -/

namespace MeshSupervisor

open Wire (Codec)

/-- The three places where an operation of std or tokio panics. -/
inductive PanicSite where
  | evictStale
  | killAll
  | publishLoop
deriving DecidableEq

inductive Publisher where
  | starting
  | sampling
  | dead
deriving DecidableEq

structure Node (EndpointId F : Type) where
  limiter : RateLimiter EndpointId F
  world : World
  publisher : Publisher

inductive NodeAction (EndpointId : Type) where
  | allow (a : AllowAction EndpointId)
  /-- A step of the manager; `now` is the clock if the step reads it. -/
  | manager (a : Action) (now : Instant)
  /-- `publish_loop` starts. -/
  | publish

inductive NodeEvent (EndpointId : Type) where
  | allow (e : AllowEvent EndpointId)
  | manager (e : Event)
  | panics (site : PanicSite)
deriving DecidableEq

section Step

variable {EndpointId F : Type}

/-- A process that has just been started: an empty limiter and no publisher yet. -/
def Node.start (w : World) (clock : Instant) : Node EndpointId F :=
  ⟨RateLimiter.new clock, w, .starting⟩

def RateLimiter.evictionReading (s : RateLimiter EndpointId F) : AllowAction EndpointId → Option Instant
  | .evict i => s.overCap[i]?.map fun x => x.2.1
  | _ => none

/-- The readings of the clock are instants. -/
def AllowAction.Readable : AllowAction EndpointId → Prop
  | .call _ now => now.InRange
  | _ => True

instance AllowAction.decidableReadable : (a : AllowAction EndpointId) → Decidable a.Readable
  | .call _ now => inferInstanceAs (Decidable now.InRange)
  | .update _ | .evict _ => inferInstanceAs (Decidable True)

/-- The `kill_all` that has sent its SIGTERMs with this step and computes its deadline. -/
def World.deadlineDue (w : World) : Action → Option ℕ
  | .sched t _ =>
    match w.tasks t with
    | some (.killAllTerm _) => some t
    | _ => none
  | _ => none

variable [DecidableEq EndpointId] [Tokens F]

/-- A call of the limiter ends before `evict_stale` has removed anything. -/
def RateLimiter.abandon (cfg : RateLimiterConfig F) (s : RateLimiter EndpointId F) :
    AllowAction EndpointId → RateLimiter EndpointId F
  | .evict i =>
    { s with
      buckets := if cfg.maxBuckets < s.buckets.keys.length then RateLimiterConfig.evictLru s.buckets
        else s.buckets
      overCap := s.overCap.eraseIdx i }
  | _ => s

variable [Codec Record]

def nodeStep (cfg : SupervisorConfig F) (s : Node EndpointId F) :
    NodeAction EndpointId → Option (Node EndpointId F × List (NodeEvent EndpointId))
  | .allow a =>
    if a.Readable then
      (allowStep cfg.rateLimiter s.limiter a).map fun (limiter, evs) =>
        -- `now - eviction_ttl`
        if (s.limiter.evictionReading a).any fun now =>
            (now.checkedSub cfg.rateLimiter.evictionTtl).isNone then
          ({ s with limiter := s.limiter.abandon cfg.rateLimiter a }, [.panics .evictStale])
        else ({ s with limiter := limiter }, evs.map .allow)
    else none
  | .manager a now =>
    if now.InRange then
      (step s.world a).map fun (world, evs) =>
        match s.world.deadlineDue a with
        | none => ({ s with world := world }, evs.map .manager)
        | some t =>
          -- `Instant::now() + stop_deadline`
          match now.checkedAdd cfg.stopDeadline with
          | none =>
            ({ s with world := { world with tasks := Function.update world.tasks t none } },
              evs.map .manager ++ [.panics .killAll])
          | some _ => ({ s with world := world }, evs.map .manager)
    else none
  | .publish =>
    match s.publisher with
    | .starting =>
      -- `tokio::time::interval(sample_interval)`
      if cfg.telemetry.sampleInterval = 0 then
        some ({ s with publisher := .dead }, [.panics .publishLoop])
      else some ({ s with publisher := .sampling }, [])
    | _ => none

/-- The arithmetic of a step is within its domain. -/
def InDomain (cfg : SupervisorConfig F) (s : Node EndpointId F) : NodeAction EndpointId → Prop
  | .allow a => ∀ now ∈ s.limiter.evictionReading a,
      -(2 ^ 63 * 1000000000) ≤ now - (cfg.rateLimiter.evictionTtl : ℤ)
  | .manager a now => (s.world.deadlineDue a).isSome →
      now + (cfg.stopDeadline : ℤ) < 2 ^ 63 * 1000000000
  | .publish => cfg.telemetry.sampleInterval ≠ 0

instance decidableInDomain (cfg : SupervisorConfig F) (s : Node EndpointId F) :
    (a : NodeAction EndpointId) → Decidable (InDomain cfg s a)
  | .allow a => inferInstanceAs (Decidable (∀ now ∈ s.limiter.evictionReading a, _ ≤ _))
  | .manager a _ => inferInstanceAs (Decidable ((s.world.deadlineDue a).isSome → _ < _))
  | .publish => inferInstanceAs (Decidable (_ ≠ _))

end Step

theorem checkedSub_eq_none {now : Instant} (hnow : now.InRange) (d : Duration) :
    now.checkedSub d = none ↔ ¬ -(2 ^ 63 * 1000000000) ≤ now - (d : ℤ) := by
  have hlt : now - (d : ℤ) < 2 ^ 63 * 1000000000 :=
    lt_of_le_of_lt (Int.sub_le_self now (Int.natCast_nonneg d)) hnow.2
  unfold Instant.checkedSub
  by_cases h : -(2 ^ 63 * 1000000000) ≤ now - (d : ℤ)
  · have hin : Instant.InRange (now - (d : ℤ)) := ⟨h, hlt⟩
    rw [if_pos hin]
    exact ⟨fun heq => (nomatch heq), fun hnot => absurd h hnot⟩
  · have hout : ¬ Instant.InRange (now - (d : ℤ)) := fun hin => h hin.1
    rw [if_neg hout]
    exact ⟨fun _ => h, fun _ => rfl⟩

theorem checkedAdd_eq_none {now : Instant} (hnow : now.InRange) (d : Duration) :
    now.checkedAdd d = none ↔ ¬ now + (d : ℤ) < 2 ^ 63 * 1000000000 := by
  have hge : -(2 ^ 63 * 1000000000) ≤ now + (d : ℤ) :=
    le_trans hnow.1 (Int.le_add_of_nonneg_right (Int.natCast_nonneg d))
  unfold Instant.checkedAdd
  by_cases h : now + (d : ℤ) < 2 ^ 63 * 1000000000
  · have hin : Instant.InRange (now + (d : ℤ)) := ⟨hge, h⟩
    rw [if_pos hin]
    exact ⟨fun heq => (nomatch heq), fun hnot => absurd h hnot⟩
  · have hout : ¬ Instant.InRange (now + (d : ℤ)) := fun hin => h hin.2
    rw [if_neg hout]
    exact ⟨fun _ => h, fun _ => rfl⟩

/-- Every clock reading a call of the limiter holds is an instant. -/
structure Readings {EndpointId F : Type} (s : RateLimiter EndpointId F) : Prop where
  sampled : ∀ x ∈ s.sampled, Instant.InRange x.2
  overCap : ∀ x ∈ s.overCap, Instant.InRange x.2.1

theorem Readings.new {EndpointId F : Type} (clock : Instant) :
    Readings (RateLimiter.new clock : RateLimiter EndpointId F) := by
  constructor
  · intro x hx
    cases hx
  · intro x hx
    cases hx

section Step

variable {EndpointId F : Type} [DecidableEq EndpointId] [Tokens F] [Codec Record]
  {cfg : SupervisorConfig F} {s s' : Node EndpointId F} {a : NodeAction EndpointId}
  {evs : List (NodeEvent EndpointId)}

omit [Codec Record] in
theorem Readings.step {cfg : RateLimiterConfig F} {s s' : RateLimiter EndpointId F}
    {a : AllowAction EndpointId} {evs : List (AllowEvent EndpointId)} (hs : Readings s)
    (ha : a.Readable) (h : allowStep cfg s a = some (s', evs)) : Readings s' := by
  rcases allowStep_cases h with ⟨peer, now, rfl, -, -, rfl⟩ |
    ⟨i, peer, now, buckets, allowed, rfl, hi, -, -, rfl⟩ |
    ⟨i, peer, now, buckets, allowed, rfl, hi, -, -, rfl⟩ |
    ⟨i, peer, now, allowed, rfl, hi, -, rfl⟩
  · constructor
    · intro x hx
      rcases List.mem_append.mp hx with hx | hx
      · exact hs.sampled x hx
      · rw [List.mem_singleton.mp hx]
        exact ha
    · exact hs.overCap
  · constructor
    · intro x hx
      exact hs.sampled x (List.mem_of_mem_eraseIdx hx)
    · intro x hx
      rcases List.mem_append.mp hx with hx | hx
      · exact hs.overCap x hx
      · rw [List.mem_singleton.mp hx]
        exact hs.sampled _ (List.mem_of_getElem? hi)
  · constructor
    · intro x hx
      exact hs.sampled x (List.mem_of_mem_eraseIdx hx)
    · exact hs.overCap
  · constructor
    · exact hs.sampled
    · intro x hx
      exact hs.overCap x (List.mem_of_mem_eraseIdx hx)

omit [Codec Record] [Tokens F] in
theorem Readings.abandon {cfg : RateLimiterConfig F} {s : RateLimiter EndpointId F} (hs : Readings s)
    (a : AllowAction EndpointId) : Readings (s.abandon cfg a) := by
  cases a with
  | call peer now => exact hs
  | update i => exact hs
  | evict i =>
    constructor
    · exact hs.sampled
    · intro x hx
      exact hs.overCap x (List.mem_of_mem_eraseIdx hx)

omit [Codec Record] [Tokens F] [DecidableEq EndpointId] in
theorem Readings.eviction {s : RateLimiter EndpointId F} (hs : Readings s)
    {a : AllowAction EndpointId} {now : Instant} (h : s.evictionReading a = some now) :
    now.InRange := by
  cases a with
  | call peer now => cases h
  | update i => cases h
  | evict i =>
    obtain ⟨x, hx, rfl⟩ := Option.map_eq_some_iff.mp h
    exact hs.overCap x (List.mem_of_getElem? hx)

/-- A step keeps the readings, and panics exactly outside of the domain. -/
theorem nodeStep_panics (hs : Readings s.limiter) (h : nodeStep cfg s a = some (s', evs)) :
    Readings s'.limiter ∧ ((∀ site, .panics site ∉ evs) ↔ InDomain cfg s a) := by
  cases a with
  | allow a =>
    have hread : a.Readable := by
      by_contra hnot
      simp [nodeStep, hnot] at h
    simp only [nodeStep, if_pos hread] at h
    obtain ⟨⟨limiter, evs'⟩, hstep, hres⟩ := Option.map_eq_some_iff.mp h
    cases hnow : s.limiter.evictionReading a with
    | none =>
      rw [hnow] at hres
      obtain ⟨rfl, rfl⟩ := Prod.mk.inj hres
      refine ⟨hs.step hread hstep, ?_⟩
      simp [InDomain, hnow]
    | some now =>
      have hsub := checkedSub_eq_none (hs.eviction hnow) cfg.rateLimiter.evictionTtl
      rw [hnow, Option.any_some] at hres
      cases hcut : now.checkedSub cfg.rateLimiter.evictionTtl with
      | none =>
        rw [hcut] at hres
        obtain ⟨rfl, rfl⟩ := Prod.mk.inj hres
        refine ⟨hs.abandon a, ?_⟩
        constructor
        · intro hno
          exact absurd List.mem_cons_self (hno .evictStale)
        · intro hin
          exact absurd (hin now hnow) (hsub.mp hcut)
      | some cutoff =>
        rw [hcut] at hres
        obtain ⟨rfl, rfl⟩ := Prod.mk.inj hres
        refine ⟨hs.step hread hstep, ?_⟩
        constructor
        · intro _ now' hnow'
          obtain rfl := Option.some.inj (hnow.symm.trans hnow')
          by_contra hout
          rw [hsub.mpr hout] at hcut
          cases hcut
        · intro _ site
          simp
  | manager a now =>
    have hnow : now.InRange := by
      by_contra hnot
      simp [nodeStep, hnot] at h
    simp only [nodeStep, if_pos hnow] at h
    obtain ⟨⟨world, evs'⟩, hstep, hres⟩ := Option.map_eq_some_iff.mp h
    have hadd := checkedAdd_eq_none hnow cfg.stopDeadline
    cases hdue : s.world.deadlineDue a with
    | none =>
      rw [hdue] at hres
      obtain ⟨rfl, rfl⟩ := Prod.mk.inj hres
      refine ⟨hs, ?_⟩
      simp [InDomain, hdue]
    | some t =>
      rw [hdue] at hres
      cases hdl : now.checkedAdd cfg.stopDeadline with
      | none =>
        rw [hdl] at hres
        obtain ⟨rfl, rfl⟩ := Prod.mk.inj hres
        refine ⟨hs, ?_⟩
        constructor
        · intro hno
          exact absurd (List.mem_append_right _ List.mem_cons_self) (hno .killAll)
        · intro hin
          exact absurd (hin (by rw [hdue]; rfl)) (hadd.mp hdl)
      | some deadline =>
        rw [hdl] at hres
        obtain ⟨rfl, rfl⟩ := Prod.mk.inj hres
        refine ⟨hs, ?_⟩
        constructor
        · intro _ _
          by_contra hout
          rw [hadd.mpr hout] at hdl
          cases hdl
        · intro _ site
          simp
  | publish =>
    simp only [nodeStep] at h
    cases hp : s.publisher with
    | starting =>
      rw [hp] at h
      dsimp only at h
      split_ifs at h with hzero
      · obtain ⟨rfl, rfl⟩ := Prod.mk.inj (Option.some.inj h)
        refine ⟨hs, ?_⟩
        simp [InDomain, hzero]
      · obtain ⟨rfl, rfl⟩ := Prod.mk.inj (Option.some.inj h)
        refine ⟨hs, ?_⟩
        simp [InDomain, hzero]
    | sampling =>
      rw [hp] at h
      cases h
    | dead =>
      rw [hp] at h
      cases h

theorem run_panics (hs : Readings s.limiter) {l : List (Lts.Tr (Node EndpointId F) _ _)}
    (hr : Lts.Run (nodeStep cfg) s l s') :
    (∀ site, .panics site ∉ Lts.events l) ↔ ∀ tr ∈ l, InDomain cfg tr.pre tr.act := by
  have hreadings := (hr.invariant (I := fun s => Readings s.limiter) hs
    fun tr hv hi => (nodeStep_panics hi hv).1).2
  have htr : ∀ tr ∈ l, (∀ site, .panics site ∉ tr.evs) ↔ InDomain cfg tr.pre tr.act := by
    intro tr hmem
    obtain ⟨_, _, _, _, hv, _⟩ := hr.mem_split hmem
    exact (nodeStep_panics (hreadings tr hmem) hv).2
  constructor
  · intro hno tr hmem
    apply (htr tr hmem).mp
    intro site hsite
    exact hno site (List.mem_flatMap.mpr ⟨tr, hmem, hsite⟩)
  · intro hin site hsite
    obtain ⟨tr, hmem, htr'⟩ := List.mem_flatMap.mp hsite
    exact (htr tr hmem).mpr (hin tr hmem) site htr'

end Step

/-! ### Any configuration of the command line -/

/-- The time arithmetic is within its domain: nothing panics in a run of `supervise`, the
freshness window is compared in milliseconds without loss, and a client doubles its delays
without overflow. -/
structure WithinDomain {EndpointId F : Type} (args : ArgMatches F)
    (evs : List (NodeEvent EndpointId)) : Prop where
  noPanic : ∀ site, .panics site ∉ evs
  fresh : (ClientConfig.fromCli args).telemetry.maxTickAge.asMillis * 1000000 =
      (ClientConfig.fromCli args).telemetry.maxTickAge ∧
    ∀ ts now, fresh ts now (ClientConfig.fromCli args).telemetry.maxTickAge =
      decide (Nat.dist now ts ≤ (ClientConfig.fromCli args).telemetry.maxTickAge.asMillis)
  retry : ∀ {ε α : Type} (f : ℕ → Except ε α),
    (withRetry (ClientConfig.fromCli args) f).outcome ≠ .overflow

theorem fresh_lossless {F : Type} (args : ArgMatches F) :
    (ClientConfig.fromCli args).telemetry.maxTickAge.asMillis * 1000000 =
        (ClientConfig.fromCli args).telemetry.maxTickAge ∧
      ∀ ts now, fresh ts now (ClientConfig.fromCli args).telemetry.maxTickAge =
        decide (Nat.dist now ts ≤ (ClientConfig.fromCli args).telemetry.maxTickAge.asMillis) := by
  obtain ⟨ms, hms, heq⟩ := maxTickAge_eq args
  have hmillis : (Duration.fromMillis ms).asMillis = ms :=
    Nat.mul_div_cancel ms (by decide)
  rw [heq, hmillis]
  constructor
  · rfl
  · intro ts now
    unfold fresh
    rw [hmillis, Nat.mod_eq_of_lt hms]

theorem retry_ne_overflow {F ε α : Type} (args : ArgMatches F) (f : ℕ → Except ε α) :
    (withRetry (ClientConfig.fromCli args) f).outcome ≠ .overflow := by
  rw [(withRetry_calls args f).2]
  intro h
  cases h

/-- **When nothing panics.**  Whatever the command line sets, the time arithmetic of a run is
within its domain exactly when each of its steps has room for the knob it uses. -/
theorem in_domain_iff {EndpointId F : Type} [DecidableEq EndpointId] [Tokens F] [Codec Record]
    (args : ArgMatches F) (burst refill : F) {w : World} {clock : Instant}
    {l : List (Lts.Tr (Node EndpointId F) (NodeAction EndpointId) (NodeEvent EndpointId))}
    {s : Node EndpointId F}
    (hr : Lts.Run (nodeStep (SupervisorConfig.fromCli args burst refill)) (.start w clock) l s) :
    WithinDomain args (Lts.events l) ↔
      ∀ tr ∈ l, InDomain (SupervisorConfig.fromCli args burst refill) tr.pre tr.act := by
  have hstart : Readings (Node.start w clock : Node EndpointId F).limiter := Readings.new clock
  have hpanics := run_panics hstart hr
  constructor
  · intro h
    exact hpanics.mp h.noPanic
  · intro h
    exact ⟨hpanics.mpr h, fresh_lossless args, fun f => retry_ne_overflow args f⟩

/-- The publisher starts, a limiter that keeps no bucket is called, and a child is started and
then killed on shutdown. -/
def busyRun : List (NodeAction ℕ) :=
  [.publish, .allow (.call 7 1000), .allow (.update 0), .allow (.evict 0),
    .manager (.call 0 (.spawn { cmd := "sleep" })) 1000, .manager (.sched 0 {}) 1000,
    .manager (.sched 0 { spawn := some 100 }) 1000, .manager (.sched 0 {}) 1000,
    .manager (.sched 0 {}) 1000, .manager (.sched 0 {}) 1000,
    .manager (.call 1 .killAll) 1000, .manager (.sched 1 {}) 1000, .manager (.sched 1 {}) 1000,
    .manager (.sched 1 {}) 1000]

def busyStart : Node ℕ ℚ := .start (World.start .new) 0

/-- With the default durations nothing panics. -/
theorem in_domain_iff_default : ∃ l s,
    Lts.Run (@nodeStep ℕ ℚ _ _ recordCodec (.fromCli { rateMaxBuckets := some 0 } 20 10)) busyStart l s ∧
    .manager (.kill 100 sigTerm) ∈ Lts.events l ∧ ∀ site, .panics site ∉ Lts.events l := by
  obtain ⟨l, s, hr, hp⟩ := Lts.run_of_exec
    (@nodeStep ℕ ℚ _ _ recordCodec (.fromCli { rateMaxBuckets := some 0 } 20 10)) busyStart busyRun
    (fun p => decide (NodeEvent.manager (.kill 100 sigTerm) ∈ Lts.events p.1) &&
      p.1.all fun tr => decide
        (InDomain (SupervisorConfig.fromCli { rateMaxBuckets := some 0 } 20 10) tr.pre tr.act))
    (by decide +kernel)
  rw [Bool.and_eq_true, List.all_eq_true] at hp
  obtain ⟨hterm, hin⟩ := hp
  have hdomain := (@in_domain_iff ℕ ℚ _ _ recordCodec { rateMaxBuckets := some 0 } 20 10 _ _ _ _ hr).mpr
    fun tr htr => of_decide_eq_true (hin tr htr)
  exact ⟨l, s, hr, of_decide_eq_true hterm, hdomain.noPanic⟩

/-- A zero sample interval; a stop deadline and a bucket TTL of `u64::MAX` seconds.  The panic of
`kill_all` comes after SIGTERM was sent. -/
theorem accepted_knobs_panic :
    (∃ l s, Lts.Run (@nodeStep ℕ ℚ _ _ recordCodec (.fromCli { sampleIntervalMs := some 0 } 20 10))
      busyStart l s ∧ .panics .publishLoop ∈ Lts.events l) ∧
    (∃ l s, Lts.Run (@nodeStep ℕ ℚ _ _ recordCodec
        (.fromCli { stopDeadlineSecs := some 18446744073709551615 } 20 10)) busyStart l s ∧
      .manager (.kill 100 sigTerm) ∈ Lts.events l ∧ .panics .killAll ∈ Lts.events l) ∧
    ∃ l s, Lts.Run (@nodeStep ℕ ℚ _ _ recordCodec (.fromCli
        { rateEvictionTtlSecs := some 18446744073709551615, rateMaxBuckets := some 0 } 20 10))
      busyStart l s ∧ .panics .evictStale ∈ Lts.events l := by
  refine ⟨?_, ?_, ?_⟩
  · obtain ⟨l, s, hr, hp⟩ := Lts.run_of_exec
      (@nodeStep ℕ ℚ _ _ recordCodec (.fromCli { sampleIntervalMs := some 0 } 20 10)) busyStart
      [.publish] (fun p => decide (NodeEvent.panics .publishLoop ∈ Lts.events p.1)) (by decide +kernel)
    exact ⟨l, s, hr, of_decide_eq_true hp⟩
  · obtain ⟨l, s, hr, hp⟩ := Lts.run_of_exec
      (@nodeStep ℕ ℚ _ _ recordCodec
        (.fromCli { stopDeadlineSecs := some 18446744073709551615 } 20 10)) busyStart (busyRun.drop 4)
      (fun p => decide (NodeEvent.manager (.kill 100 sigTerm) ∈ Lts.events p.1 ∧
        NodeEvent.panics .killAll ∈ Lts.events p.1)) (by decide +kernel)
    exact ⟨l, s, hr, of_decide_eq_true hp⟩
  · obtain ⟨l, s, hr, hp⟩ := Lts.run_of_exec
      (@nodeStep ℕ ℚ _ _ recordCodec (.fromCli
        { rateEvictionTtlSecs := some 18446744073709551615, rateMaxBuckets := some 0 } 20 10))
      busyStart (busyRun.take 4)
      (fun p => decide (NodeEvent.panics .evictStale ∈ Lts.events p.1)) (by decide +kernel)
    exact ⟨l, s, hr, of_decide_eq_true hp⟩

end MeshSupervisor
