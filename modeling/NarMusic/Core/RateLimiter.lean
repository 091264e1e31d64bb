/-
  The rate limiter (`core/rate_limiter.cpp`): for each key, the requests of a
  window that starts with a request.  Time is in nanoseconds, `elapsed` in whole
  seconds.  A run is a list of calls, each with its reading of the clock.
-/
import Mathlib.Data.List.AList
import NarMusic.Lib.Bytes
import NarMusic.Lib.Int

namespace NarMusic

open Cxx

structure RateLimiter.Config where
  maxRequests : ℤ := 60
  windowSeconds : ℤ := 60

structure RateLimiter.Bucket where
  count : ℤ := 0
  windowStart : ℕ

structure RateLimiter where
  config : RateLimiter.Config
  buckets : AList fun _ : Str => RateLimiter.Bucket

namespace RateLimiter

/-- Whole seconds since `start`. -/
def elapsed (start now : ℕ) : ℤ := ((now - start) / 10 ^ 9 : ℕ)

def allow (limiter : RateLimiter) (now : ℕ) (key : Str) : Bool × RateLimiter :=
  let put b := { limiter with buckets := limiter.buckets.insert key b }
  match limiter.buckets.lookup key with
  | none => (true, put ⟨1, now⟩)
  | some bucket =>
    if limiter.config.windowSeconds ≤ elapsed bucket.windowStart now then (true, put ⟨1, now⟩)
    else
      let bucket := { bucket with count := int32 (bucket.count + 1) }
      (bucket.count ≤ limiter.config.maxRequests, put bucket)

/-- `cleanup` erases the bucket. -/
def expired (config : Config) (now : ℕ) (bucket : Bucket) : Bool :=
  int32 (config.windowSeconds * 2) ≤ elapsed bucket.windowStart now

def cleanup (limiter : RateLimiter) (now : ℕ) : RateLimiter :=
  { limiter with
    buckets := ⟨limiter.buckets.entries.filter fun e => !expired limiter.config now e.2,
      limiter.buckets.nodupKeys.sublist List.filter_sublist⟩ }

/-! ## Runs -/

inductive Call where
  | allow (now : ℕ) (key : Str)
  | cleanup (now : ℕ)
  deriving DecidableEq

def Call.now : Call → ℕ
  | .allow now _ => now
  | .cleanup now => now

/-- The clock never goes back. -/
def Ticks (run : List Call) : Prop := run.Pairwise (·.now ≤ ·.now)

instance (run : List Call) : Decidable (Ticks run) := inferInstanceAs (Decidable (run.Pairwise _))

/-- A call of `allow` starts a window: there is no bucket, or its window is over. -/
def resets (limiter : RateLimiter) (now : ℕ) (key : Str) : Bool :=
  match limiter.buckets.lookup key with
  | none => true
  | some bucket => limiter.config.windowSeconds ≤ elapsed bucket.windowStart now

/-- A call of `allow`: what it returned, and whether it reset the bucket of its key. -/
structure Answer where
  now : ℕ
  key : Str
  allowed : Bool
  reset : Bool
  deriving DecidableEq

def answers : RateLimiter → List Call → List Answer
  | _, [] => []
  | limiter, .allow now key :: run =>
    ⟨now, key, (limiter.allow now key).1, limiter.resets now key⟩ ::
      answers (limiter.allow now key).2 run
  | limiter, .cleanup now :: run => answers (limiter.cleanup now) run

/-- The answers to the calls for one key. -/
def answersTo (limiter : RateLimiter) (key : Str) (run : List Call) : List Answer :=
  (limiter.answers run).filter (·.key = key)

/-- The calls of `allow` for one key. -/
def callsFor (key : Str) (run : List Call) : List Call :=
  run.filter fun
    | .allow _ k => k = key
    | .cleanup _ => false

end RateLimiter

end NarMusic
