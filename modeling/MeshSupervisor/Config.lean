import MeshSupervisor.RateLimit

/-! # Configuration and the arithmetic of time

The policy knobs of `config.rs`: the defaults and `withCliOverrides`, which puts what the
command line (or the environment) gives over them.  Nothing is checked there beyond the type
of a value, so a configuration is as large as its knobs allow (`retryBaseDelay_lt`,
`maxTickAge_eq`).

The first section has the domains of `Duration` and `Instant` and the operations of std that
panic outside of them. -/

namespace MeshSupervisor

/-! ### Time -/

def Duration.fromMillis (n : ℕ) : Duration := n * 1000000

/-- A `u64` of seconds and the nanoseconds of a further one. -/
def Duration.Fits (d : Duration) : Prop := d < 2 ^ 64 * 1000000000

instance (d : Duration) : Decidable d.Fits := inferInstanceAs (Decidable (_ < _))

/-- `Duration * u32`; `none` is the panic. -/
def Duration.checkedMul (d : Duration) (k : ℕ) : Option Duration :=
  if Duration.Fits (d * k) then some (d * k) else none

/-- An `i64` of seconds and the nanoseconds of a further one. -/
def Instant.InRange (t : Instant) : Prop :=
  -(2 ^ 63 * 1000000000) ≤ t ∧ t < 2 ^ 63 * 1000000000

instance (t : Instant) : Decidable t.InRange := inferInstanceAs (Decidable (_ ∧ _))

/-- `Instant + Duration`; `none` is the panic. -/
def Instant.checkedAdd (t : Instant) (d : Duration) : Option Instant :=
  if Instant.InRange (t + (d : ℤ)) then some (t + (d : ℤ)) else none

/-- `Instant - Duration`; `none` is the panic. -/
def Instant.checkedSub (t : Instant) (d : Duration) : Option Instant :=
  if Instant.InRange (t - (d : ℤ)) then some (t - (d : ℤ)) else none

/-! ### The knobs -/

structure TelemetryConfig where
  sampleInterval : Duration := .fromSecs 1
  maxTickAge : Duration := .fromMillis 10000

structure ClientConfig where
  readTimeout : Duration := .fromSecs 30
  maxRetries : ℕ := 5
  retryBaseDelay : Duration := .fromMillis 100
  retryMaxDelay : Duration := .fromSecs 2
  telemetry : TelemetryConfig := {}

structure SupervisorConfig (F : Type) where
  requestTimeout : Duration := .fromSecs 30
  stopDeadline : Duration := .fromSecs 5
  rateLimiter : RateLimiterConfig F
  telemetry : TelemetryConfig := {}

/-- `SupervisorConfig::default()`, with the two floating-point defaults 20.0 and 10.0. -/
def SupervisorConfig.default {F : Type} (burst refill : F) : SupervisorConfig F where
  rateLimiter := ⟨burst, refill, 2048, .fromSecs 90⟩

/-- The values clap has parsed, `none` for a knob that is not given or that the subcommand does
not have. -/
structure ArgMatches (F : Type) where
  readTimeout : Option UInt64 := none
  connectRetries : Option UInt32 := none
  retryBaseDelayMs : Option UInt64 := none
  retryMaxDelayMs : Option UInt64 := none
  requestTimeout : Option UInt64 := none
  stopDeadlineSecs : Option UInt64 := none
  rateBurst : Option F := none
  rateRefill : Option F := none
  /-- A `usize`, of any width. -/
  rateMaxBuckets : Option ℕ := none
  rateEvictionTtlSecs : Option UInt64 := none
  sampleIntervalMs : Option UInt64 := none
  maxTickAgeMs : Option UInt64 := none

/-- `if let Some(x) = matches.get_one(..) { knob = f(x) }`. -/
def override {α β : Type} (knob : β) (x : Option α) (f : α → β) : β := (x.map f).getD knob

variable {F : Type} (args : ArgMatches F)

def TelemetryConfig.withCliOverrides (cfg : TelemetryConfig) : TelemetryConfig where
  sampleInterval := override cfg.sampleInterval args.sampleIntervalMs (.fromMillis ·.toNat)
  maxTickAge := override cfg.maxTickAge args.maxTickAgeMs (.fromMillis ·.toNat)

def ClientConfig.withCliOverrides (cfg : ClientConfig) : ClientConfig where
  readTimeout := override cfg.readTimeout args.readTimeout (.fromSecs ·.toNat)
  maxRetries := override cfg.maxRetries args.connectRetries UInt32.toNat
  retryBaseDelay := override cfg.retryBaseDelay args.retryBaseDelayMs (.fromMillis ·.toNat)
  retryMaxDelay := override cfg.retryMaxDelay args.retryMaxDelayMs (.fromMillis ·.toNat)
  telemetry := cfg.telemetry.withCliOverrides args

def RateLimiterConfig.withCliOverrides (cfg : RateLimiterConfig F) : RateLimiterConfig F where
  burst := override cfg.burst args.rateBurst id
  refill := override cfg.refill args.rateRefill id
  maxBuckets := override cfg.maxBuckets args.rateMaxBuckets id
  evictionTtl := override cfg.evictionTtl args.rateEvictionTtlSecs (.fromSecs ·.toNat)

def SupervisorConfig.withCliOverrides (cfg : SupervisorConfig F) : SupervisorConfig F where
  requestTimeout := override cfg.requestTimeout args.requestTimeout (.fromSecs ·.toNat)
  stopDeadline := override cfg.stopDeadline args.stopDeadlineSecs (.fromSecs ·.toNat)
  rateLimiter := cfg.rateLimiter.withCliOverrides args
  telemetry := cfg.telemetry.withCliOverrides args

def ClientConfig.fromCli : ClientConfig := ClientConfig.withCliOverrides args {}

def SupervisorConfig.fromCli (burst refill : F) : SupervisorConfig F :=
  (SupervisorConfig.default burst refill).withCliOverrides args

/-! ### How large they are -/

theorem override_lt {α : Type} {knob bound : ℕ} (x : Option α) {f : α → ℕ} (hknob : knob < bound)
    (hf : ∀ a, f a < bound) : override knob x f < bound := by
  cases x with
  | none => exact hknob
  | some a => exact hf a

theorem fromMillis_lt (n : UInt64) : Duration.fromMillis n.toNat < 2 ^ 64 * 1000000 :=
  Nat.mul_lt_mul_of_pos_right n.toNat_lt (by decide)

theorem retryBaseDelay_lt : (ClientConfig.fromCli args).retryBaseDelay < 2 ^ 64 * 1000000 :=
  override_lt args.retryBaseDelayMs (by decide) fromMillis_lt

theorem retryMaxDelay_lt : (ClientConfig.fromCli args).retryMaxDelay < 2 ^ 64 * 1000000 :=
  override_lt args.retryMaxDelayMs (by decide) fromMillis_lt

theorem maxTickAge_eq : ∃ ms, ms < 2 ^ 64 ∧
    (ClientConfig.fromCli args).telemetry.maxTickAge = .fromMillis ms := by
  unfold ClientConfig.fromCli ClientConfig.withCliOverrides TelemetryConfig.withCliOverrides
  cases args.maxTickAgeMs with
  | none => exact ⟨10000, by decide, rfl⟩
  | some ms => exact ⟨ms.toNat, ms.toNat_lt, rfl⟩

end MeshSupervisor
