import Mathlib.Data.Rat.Defs
import MeshSupervisor.Process

/-! # The rate limiter

The token buckets of `ratelimit.rs`, one per peer.  The arithmetic of tokens is a parameter
(`Tokens`): the source computes in `f64`, and nothing that is said about the limiter here
depends on it.  `update` is the first critical section of `allow`, `evict` the second, which
runs only when the first leaves too many buckets.

`allow_of_few`: as long as the peers fit, there is no eviction, and a decision depends on
the peer's own bucket. -/

namespace MeshSupervisor

/-- What the limiter computes with: the source's `f64`. -/
class Tokens (F : Type) extends Add F, Sub F, Mul F, Min F, One F, LE F where
  /-- `Duration::as_secs_f64`. -/
  asSecs : Duration → F
  decLE : DecidableLE F

instance Tokens.decidableLE {F : Type} [Tokens F] : DecidableLE F := Tokens.decLE

/-- A reading of the monotonic clock, in nanoseconds. -/
abbrev Instant := ℤ

/-- `Instant::duration_since`, which saturates at zero. -/
def Instant.durationSince (now earlier : Instant) : Duration := Int.toNat (now - earlier)

structure RateLimiterConfig (F : Type) where
  burst : F
  refill : F
  maxBuckets : ℕ
  evictionTtl : Duration

structure Bucket (F : Type) where
  tokens : F
  lastUsed : Instant
deriving DecidableEq

abbrev Buckets (EndpointId F : Type) := Table EndpointId (Bucket F)

namespace RateLimiterConfig

variable {EndpointId F : Type} [DecidableEq EndpointId] [Tokens F] (cfg : RateLimiterConfig F)

/-- Refill a peer's bucket, a full one when it has none, and take a token if there is one. -/
def consume (now : Instant) (bucket : Option (Bucket F)) : Bucket F × Bool :=
  let b := bucket.getD ⟨cfg.burst, now⟩
  let tokens := min (b.tokens + Tokens.asSecs (now.durationSince b.lastUsed) * cfg.refill) cfg.burst
  if 1 ≤ tokens then (⟨tokens - 1, now⟩, true) else (⟨tokens, now⟩, false)

/-- The decision for `peer`, and whether there are now too many buckets. -/
def update (buckets : Buckets EndpointId F) (peer : EndpointId) (now : Instant) :
    Buckets EndpointId F × Bool × Bool :=
  let (bucket, allowed) := cfg.consume now (buckets.lookup peer)
  let buckets := AList.insert peer bucket buckets
  (buckets, allowed, decide (cfg.maxBuckets < buckets.keys.length))

/-- Remove the least-recently-used bucket, the first of several in the table's order. -/
def evictLru (buckets : Buckets EndpointId F) : Buckets EndpointId F :=
  match Table.minBy Bucket.lastUsed buckets.entries with
  | none => buckets
  | some x => AList.erase x.1 buckets

/-- Remove the buckets not used since `now - evictionTtl`. -/
def evictStale (buckets : Buckets EndpointId F) (now : Instant) (evictionTtl : Duration) :
    Buckets EndpointId F :=
  Table.retain buckets (fun _ b => decide (now - (evictionTtl : ℤ) ≤ b.lastUsed))

/-- The cleanup of a call that left too many buckets. -/
def evict (buckets : Buckets EndpointId F) (now : Instant) : Buckets EndpointId F :=
  evictStale (if cfg.maxBuckets < buckets.keys.length then evictLru buckets else buckets) now
    cfg.evictionTtl

/-- Consume one token for `peer`; `false` if it is rate-limited. -/
def allow (buckets : Buckets EndpointId F) (peer : EndpointId) (now : Instant) :
    Buckets EndpointId F × Bool :=
  let (buckets, allowed, overCap) := cfg.update buckets peer now
  if overCap then (cfg.evict buckets now, allowed) else (buckets, allowed)

/-- Peers that fit into the cap are never evicted, and each is judged by its own bucket. -/
theorem allow_of_few {cfg : RateLimiterConfig F} {buckets : Buckets EndpointId F}
    {peers : List EndpointId} (hcap : peers.dedup.length ≤ cfg.maxBuckets)
    (hknown : ∀ p, (buckets.lookup p).isSome = true → p ∈ peers) {peer : EndpointId}
    (hpeer : peer ∈ peers) (now : Instant) :
    cfg.allow buckets peer now =
      (AList.insert peer (cfg.consume now (buckets.lookup peer)).1 buckets,
        (cfg.consume now (buckets.lookup peer)).2) := by
  have hlen : (AList.insert peer (cfg.consume now (buckets.lookup peer)).1 buckets).keys.length ≤
      peers.dedup.length := by
    apply Table.length_keys_le
    intro k hk
    rw [Table.lookup_insert_if] at hk
    by_cases h : k = peer
    · rw [h]
      exact hpeer
    · rw [if_neg h] at hk
      exact hknown k hk
  have hcap' : ¬ cfg.maxBuckets <
      (AList.insert peer (cfg.consume now (buckets.lookup peer)).1 buckets).keys.length := by
    omega
  simp only [allow, update, hcap', decide_false]
  rfl

end RateLimiterConfig

/-- Exact arithmetic. -/
instance : Tokens ℚ where
  asSecs d := (d : ℚ) / 1000000000
  decLE := inferInstance

end MeshSupervisor
