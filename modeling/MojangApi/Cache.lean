import MojangApi.Types
import Mathlib.Order.Basic

/-! # Cache configuration

How long a value stays depends on whether it is a positive answer. Capacities
decide only which entries are evicted, and any entry may be evicted at any time.
-/

namespace MojangApi.Cache
open MojangApi

def positiveCacheTtl : ℕ := Duration.fromMins (6 * 60)
def negativeCacheTtl : ℕ := Duration.fromMins 15
def maxCacheTtl : ℕ := Duration.fromMins (8760000 * 60)

inductive CacheConfigError where
  | zeroTimeToLive
  | timeToLiveTooLong
  deriving DecidableEq, Repr

def validateTtl (ttl : ℕ) : Except CacheConfigError Unit :=
  if ttl = 0 then .error .zeroTimeToLive
  else if maxCacheTtl < ttl then .error .timeToLiveTooLong
  else .ok ()

theorem validateTtl_ok {ttl : ℕ} : validateTtl ttl = .ok () ↔ 0 < ttl ∧ ttl ≤ maxCacheTtl := by
  unfold validateTtl
  split
  · simp_all
  · split
    · simp_all
    · simp_all [Nat.pos_iff_ne_zero]

/-- A cache is only built with times to live that pass `validate_ttl`. -/
structure OptionalValueExpiry where
  positiveTtl : ℕ
  negativeTtl : ℕ
  positive_valid : validateTtl positiveTtl = .ok ()
  negative_valid : validateTtl negativeTtl = .ok ()

namespace OptionalValueExpiry

def ttlFor {α : Type*} (expiry : OptionalValueExpiry) (value : Option α) : ℕ :=
  if value.isSome then expiry.positiveTtl else expiry.negativeTtl

def withLimits (positiveTtl negativeTtl : ℕ) : Except CacheConfigError OptionalValueExpiry :=
  match hp : validateTtl positiveTtl with
  | .error error => .error error
  | .ok () =>
    match hn : validateTtl negativeTtl with
    | .error error => .error error
    | .ok () => .ok ⟨positiveTtl, negativeTtl, hp, hn⟩

def new (ttl : ℕ) : Except CacheConfigError OptionalValueExpiry :=
  withLimits ttl (min ttl negativeCacheTtl)

/-- The defaults pass their own check. -/
def default : OptionalValueExpiry where
  positiveTtl := positiveCacheTtl
  negativeTtl := negativeCacheTtl
  positive_valid := validateTtl_ok.mpr (by decide)
  negative_valid := validateTtl_ok.mpr (by decide)

end OptionalValueExpiry
end MojangApi.Cache
