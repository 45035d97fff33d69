import Mathlib.Order.MinMax
import Mathlib.Data.Int.Basic
import Mathlib.Algebra.Group.Int.Defs
import Mathlib.Algebra.Order.Ring.Int

namespace GmragApi

def i32Max : Int := 2 ^ 31 - 1
def i32Min : Int := -(2 ^ 31)
def i64Max : Int := 2 ^ 63 - 1
def i64Min : Int := -(2 ^ 63)

/-- A result that a saturating `i32` operation clamps. -/
def saturateI32 (x : Int) : Int := max i32Min (min x i32Max)

def saturateI64 (x : Int) : Int := max i64Min (min x i64Max)

theorem saturateI32_of_range {x : Int} (lo : i32Min ≤ x) (hi : x ≤ i32Max) : saturateI32 x = x := by
  simp [saturateI32, min_eq_left hi, max_eq_right lo]

structure OutboxBackoffConfig where
  baseBackoffSecs : Int
  maxBackoffSecs : Int
  claimLeaseSecs : Int
  deriving DecidableEq

inductive FailureDisposition
  | retryable (nextRetryCount backoffSecs : Int)
  | dead (nextRetryCount : Int)
  deriving DecidableEq

def FailureDisposition.nextRetryCount : FailureDisposition → Int
  | .retryable n _ => n
  | .dead n => n

def computeBackoffSecs (retryCountAfterFail baseBackoffSecs maxBackoffSecs : Int) : Int :=
  let base := max baseBackoffSecs 0
  let cap := max maxBackoffSecs 0
  if base = 0 ∨ cap = 0 then 0
  else
    let exponent := (min (max (saturateI32 (retryCountAfterFail - 1)) 0) 30).toNat
    min (saturateI64 (base * 2 ^ exponent)) cap

def dispositionAfterFailure (currentRetryCount maxRetries : Int) (permanentError : Bool)
    (backoff : OutboxBackoffConfig) : FailureDisposition :=
  let next := saturateI32 (currentRetryCount + 1)
  if permanentError ∨ maxRetries ≤ next then .dead next
  else .retryable next (computeBackoffSecs next backoff.baseBackoffSecs backoff.maxBackoffSecs)

theorem disposition_nextRetryCount (current maxRetries : Int) (permanent : Bool)
    (backoff : OutboxBackoffConfig) :
    (dispositionAfterFailure current maxRetries permanent backoff).nextRetryCount =
      saturateI32 (current + 1) := by
  unfold dispositionAfterFailure
  dsimp only
  split <;> rfl

/-- A retry is granted only below the limit. -/
theorem disposition_retryable {current maxRetries next secs : Int} {permanent : Bool}
    {backoff : OutboxBackoffConfig}
    (h : dispositionAfterFailure current maxRetries permanent backoff = .retryable next secs) :
    permanent = false ∧ next = saturateI32 (current + 1) ∧ next < maxRetries := by
  unfold dispositionAfterFailure at h
  dsimp only at h
  split at h
  next => cases h
  next hn =>
    obtain ⟨rfl, rfl⟩ := FailureDisposition.retryable.inj h
    simp only [not_or, Bool.not_eq_true, Int.not_le] at hn
    exact ⟨hn.1, rfl, hn.2⟩

theorem disposition_backoff {current maxRetries next secs : Int} {permanent : Bool}
    {backoff : OutboxBackoffConfig}
    (h : dispositionAfterFailure current maxRetries permanent backoff = .retryable next secs) :
    secs = computeBackoffSecs next backoff.baseBackoffSecs backoff.maxBackoffSecs := by
  unfold dispositionAfterFailure at h
  dsimp only at h
  split at h
  next => cases h
  next =>
    obtain ⟨rfl, rfl⟩ := FailureDisposition.retryable.inj h
    rfl

/-- A row dies of an error that is permanent, or of its last retry. -/
theorem disposition_dead {current maxRetries next : Int} {permanent : Bool}
    {backoff : OutboxBackoffConfig}
    (h : dispositionAfterFailure current maxRetries permanent backoff = .dead next) :
    next = saturateI32 (current + 1) ∧ (permanent = true ∨ maxRetries ≤ next) := by
  unfold dispositionAfterFailure at h
  dsimp only at h
  split at h
  next hor =>
    obtain rfl := FailureDisposition.dead.inj h
    exact ⟨rfl, hor⟩
  next => cases h

theorem computeBackoffSecs_nonneg (n base cap : Int) : 0 ≤ computeBackoffSecs n base cap := by
  unfold computeBackoffSecs
  dsimp only
  split
  · exact le_rfl
  next h =>
    rw [not_or] at h
    have hprod : (0 : Int) ≤ max base 0 * 2 ^ (min (max (saturateI32 (n - 1)) 0) 30).toNat :=
      mul_nonneg (le_max_right ..) (pow_nonneg (by decide) _)
    have hsat : 0 ≤ saturateI64 (max base 0 * 2 ^ (min (max (saturateI32 (n - 1)) 0) 30).toNat) := by
      unfold saturateI64
      exact le_max_of_le_right (le_min hprod (by decide))
    exact le_min hsat (le_max_right ..)

/-- The delay doubles with each failure up to the cap; the clamped exponent never shortens it, for
no cap is beyond `2 ^ 30` seconds. -/
theorem computeBackoffSecs_ge {k : Nat} {base cap : Int} (hk : (k : Int) < i32Max)
    (hcap : cap ≤ 2 ^ 30) : min (base * 2 ^ k) cap ≤ computeBackoffSecs (k + 1) base cap := by
  have hnonneg := computeBackoffSecs_nonneg (k + 1) base cap
  by_cases hbase : base ≤ 0
  · have hneg : base * 2 ^ k ≤ 0 := mul_nonpos_of_nonpos_of_nonneg hbase (pow_nonneg (by decide) _)
    exact (min_le_left ..).trans (hneg.trans hnonneg)
  by_cases hpos : cap ≤ 0
  · exact (min_le_right ..).trans (hpos.trans hnonneg)
  have hsat : saturateI32 ((k : Int) + 1 - 1) = k := by
    rw [add_sub_cancel_right]
    exact saturateI32_of_range (by simp only [i32Min]; omega) hk.le
  have hb : max base 0 = base := max_eq_left (by omega)
  have hc : max cap 0 = cap := max_eq_left (by omega)
  unfold computeBackoffSecs
  dsimp only
  rw [hsat, hb, hc, if_neg (by omega)]
  have hmax : (2 : Int) ^ 30 ≤ i64Max := by decide
  have hraised : min (base * 2 ^ k) cap ≤ base * 2 ^ (min (max (k : Int) 0) 30).toNat := by
    by_cases hk30 : k ≤ 30
    · have he : (min (max (k : Int) 0) 30).toNat = k := by omega
      rw [he]
      exact min_le_left ..
    · have he : (min (max (k : Int) 0) 30).toNat = 30 := by omega
      have hone : 1 * 2 ^ 30 ≤ base * 2 ^ 30 :=
        mul_le_mul_of_nonneg_right (by omega) (by decide)
      rw [he]
      exact (min_le_right ..).trans (hcap.trans (by omega))
  have hbounded : min (base * 2 ^ k) cap ≤ i64Max := (min_le_right ..).trans (hcap.trans hmax)
  refine le_min ?_ (min_le_right ..)
  exact (le_min hraised hbounded).trans (le_max_right ..)

end GmragApi
