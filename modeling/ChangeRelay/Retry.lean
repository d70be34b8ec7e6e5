import ChangeRelay.Time.Duration

/-!
# Retry delays

Exponential backoff with a ceiling and random jitter, and a token bucket that limits a rate.

The program panics over a delay that no duration can hold, and where the jitter is no number or a
negative factor makes the delay negative; the functions here give some delay there. Checked settings
have a factor of at least one and a jitter between none and one.
-/

namespace ChangeRelay

/-- How to retry. -/
structure Retry where
  /-- Attempts at setting up a connection; a stream reconnects without limit. -/
  maxAttempts : Nat
  initialDelay : Duration
  maxDelay : Duration
  factor : Double
  /-- Largest random part of a delay, as a fraction of it. -/
  jitter : Double
  /-- Time given to one attempt at a connection. -/
  connectionTimeout : Duration
deriving DecidableEq

namespace Retry

/-- The number of attempts that stands for "without limit". -/
def forever : Nat := wordLimit - 1

/-- One fifth. -/
def fifth : Double := Double.ofRatio false 1 5

def default : Retry :=
  { maxAttempts := 10, initialDelay := .ofMillis 100, maxDelay := .ofSeconds 30
    factor := .ofNat 2, jitter := fifth, connectionTimeout := .ofSeconds 5 }

/-- For streams that run for a long time. -/
def daemon : Retry :=
  { maxAttempts := forever, initialDelay := .ofSeconds 1, maxDelay := .ofSeconds 300
    factor := .ofNat 2, jitter := fifth, connectionTimeout := .ofSeconds 30 }

/-- Short delays without jitter. -/
def testing : Retry :=
  { maxAttempts := 3, initialDelay := .ofMillis 10, maxDelay := .ofMillis 100
    factor := .ofNat 2, jitter := .ofNat 0, connectionTimeout := .ofMillis 500 }

/-- The largest exponent of the backoff factor. -/
def maxExponent : Nat := pow2 31 - 1

/-- The delay before an attempt, without jitter. Attempts count from one; attempt zero has the
initial delay, whatever the ceiling. -/
def delay (r : Retry) (attempt : Nat) : Duration :=
  if attempt = 0 then r.initialDelay else
  let exponent := if attempt - 1 < maxExponent then attempt - 1 else maxExponent
  let secs := r.initialDelay.seconds.mul (r.factor.power exponent)
  if !secs.isFinite || r.maxDelay.seconds.le secs then r.maxDelay
  else .ofSecondsDouble secs

/-- The jitter, held between none and all of the delay. -/
def clampedJitter (r : Retry) : Double :=
  if r.jitter.lt (.ofNat 0) then .ofNat 0
  else if (Double.ofNat 1).lt r.jitter then .ofNat 1
  else r.jitter

/-- Whether there is no jitter at all. -/
def isSteady (r : Retry) : Bool := r.clampedJitter.compare? (.ofNat 0) = some .eq

/-- The delay with a random part: `spread` lies between minus and plus the jitter. -/
def jitteredDelay (r : Retry) (attempt : Nat) (spread : Double) : Duration :=
  let base := r.delay attempt
  if r.isSteady then base else
  let secs := base.seconds.mul ((Double.ofNat 1).add spread)
  let secs := if secs.lt (.ofNat 0) then .ofNat 0 else secs
  Duration.shorter (.ofSecondsDouble secs) r.maxDelay

end Retry

/-- Limits of a token bucket: its size, and tokens per second. -/
structure RateLimit where
  burst : Nat := 100
  refill : Nat := 1000
deriving DecidableEq, Repr

/-- A token bucket, kept as the time at which it will be full again. -/
structure RateLimiter where
  limit : RateLimit
  fullAt : Option Nat := none

namespace RateLimiter

/-- Nanoseconds that one token takes to refill. A rate of 0 counts as 1. -/
def tokenTime (l : RateLimit) : Nat :=
  Duration.perSecond / (if l.refill = 0 then 1 else l.refill)

/-- Takes a token at a time, if there is one. A burst of 0 counts as 1. -/
def tryAcquire (r : RateLimiter) (now : Nat) : RateLimiter × Bool :=
  let t := tokenTime r.limit
  let burst := if r.limit.burst = 0 then 1 else r.limit.burst
  let full := r.fullAt.getD (now + t)
  if now + t * burst < full then (r, false)
  else ({ r with fullAt := some ((if now < full then full else now) + t) }, true)

end RateLimiter

end ChangeRelay
