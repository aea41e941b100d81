import Mathlib.Algebra.Order.Field.Rat
import Mathlib.Data.List.AList
import WebServer.Foundation.Clock
import WebServer.Http.Bytes

/-!
# The token-bucket rate limiter

Each key has a bucket that holds at most `capacity` tokens, refills with `refillPerSec` tokens a
second and pays one token for each admitted call. Tokens are exact rationals where the source uses
`double`.
-/

namespace WebServer

structure Bucket where
  tokens : ℚ
  lastRefill : Time

structure RateLimiter where
  buckets : AList fun _ : Bytes ↦ Bucket
  capacity : ℕ
  refillPerSec : ℚ

namespace RateLimiter

/-- The singleton as the default arguments of the constructor build it. -/
def new : RateLimiter := ⟨∅, 1000, 500⟩

/-- Drop the buckets that have not been refilled for more than ten minutes. -/
def cleanup (limiter : RateLimiter) (now : Time) : RateLimiter :=
  { limiter with
    buckets :=
      ⟨limiter.buckets.entries.filter fun entry ↦
          ¬ Time.minutes 10 < now - entry.2.lastRefill,
        limiter.buckets.nodupKeys.sublist List.filter_sublist⟩ }

/-- The balance of a bucket at time `now`. -/
def refill (limiter : RateLimiter) (bucket : Bucket) (now : Time) : ℚ :=
  min (limiter.capacity : ℚ)
    (bucket.tokens + ((now - bucket.lastRefill : ℤ) : ℚ) / 1000000000 * limiter.refillPerSec)

/-- `allow(key)`: `now` is the clock in `allow` and `cleanupNow` the later clock in `cleanup`. -/
def allow (limiter : RateLimiter) (now cleanupNow : Time) (key : Bytes) : Bool × RateLimiter :=
  match limiter.buckets.lookup key with
  | none =>
    let limiter := { limiter with
      buckets := limiter.buckets.insert key ⟨(limiter.capacity : ℚ) - 1, now⟩ }
    (true, if 10000 < limiter.buckets.keys.length then limiter.cleanup cleanupNow else limiter)
  | some bucket =>
    let tokens := limiter.refill bucket now
    if 1 ≤ tokens then
      (true, { limiter with buckets := limiter.buckets.insert key ⟨tokens - 1, now⟩ })
    else
      (false, { limiter with buckets := limiter.buckets.insert key ⟨tokens, now⟩ })

end RateLimiter

end WebServer
