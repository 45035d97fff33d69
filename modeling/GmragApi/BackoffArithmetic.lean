import GmragApi.Retry
import GmragApi.SaturatingWord

/-! The backoff of the outbox on machine words. The integers of `GmragApi.computeBackoffSecs` are
what these words stand for. -/

namespace GmragApi.Word

open SaturatingWord

structure OutboxBackoffConfig where
  baseBackoffSecs : Int64
  maxBackoffSecs : Int64
  claimLeaseSecs : Int64
  deriving DecidableEq

inductive FailureDisposition
  | retryable (nextRetryCount : Int32) (backoffSecs : Int64)
  | dead (nextRetryCount : Int32)
  deriving DecidableEq

/-- `retry_count_after_fail.saturating_sub(1).clamp(0, 30) as u32` -/
def backoffExponent (retryCountAfterFail : Int32) : UInt32 :=
  (min (max (saturatingSub retryCountAfterFail 1) 0) 30).toUInt32

/-- `1i64.checked_shl(exponent).unwrap_or(i64::MAX)` -/
def backoffMultiplier (retryCountAfterFail : Int32) : Int64 :=
  (checkedShl 1 (backoffExponent retryCountAfterFail)).getD Int64.maxValue

def computeBackoffSecs (retryCountAfterFail : Int32) (baseBackoffSecs maxBackoffSecs : Int64) :
    Int64 :=
  let base := max baseBackoffSecs 0
  let cap := max maxBackoffSecs 0
  if base = 0 ∨ cap = 0 then 0
  else min (saturatingMul base (backoffMultiplier retryCountAfterFail)) cap

def dispositionAfterFailure (currentRetryCount maxRetries : Int32) (permanentError : Bool)
    (backoff : OutboxBackoffConfig) : FailureDisposition :=
  let next := saturatingAdd currentRetryCount 1
  if permanentError ∨ maxRetries ≤ next then .dead next
  else .retryable next (computeBackoffSecs next backoff.baseBackoffSecs backoff.maxBackoffSecs)

def OutboxBackoffConfig.toInts (c : OutboxBackoffConfig) : GmragApi.OutboxBackoffConfig :=
  ⟨c.baseBackoffSecs.toInt, c.maxBackoffSecs.toInt, c.claimLeaseSecs.toInt⟩

def FailureDisposition.toInts : FailureDisposition → GmragApi.FailureDisposition
  | .retryable next secs => .retryable next.toInt secs.toInt
  | .dead next => .dead next.toInt

section Steps

theorem toInt_saturatingAdd_one (n : Int32) :
    (saturatingAdd n 1).toInt = saturateI32 (n.toInt + 1) := by
  rw [saturatingAdd, toInt_ofIntClamp32]
  rfl

theorem toInt_saturatingMul (x y : Int64) :
    (saturatingMul x y).toInt = saturateI64 (x.toInt * y.toInt) := by
  rw [saturatingMul, toInt_ofIntClamp64]
  rfl

/-- Neither the difference nor the cast wraps. -/
theorem backoffExponent_toNat (n : Int32) :
    (backoffExponent n).toNat = (min (max n.toInt 1 - 1) 30).toNat := by
  have hone : (saturatingSub n 1).toInt = max (-2 ^ 31) (min (n.toInt - 1) (2 ^ 31 - 1)) :=
    toInt_ofIntClamp32 _
  have hclamped : (min (max (saturatingSub n 1) 0) 30).toInt =
      min (max (saturatingSub n 1).toInt 0) 30 := by
    rw [toInt_min32, toInt_max32]
    rfl
  have hupper := Int32.toInt_lt n
  have hnonneg : 0 ≤ (min (max (saturatingSub n 1) 0) 30).toInt := by omega
  rw [backoffExponent, toNat_toUInt32 hnonneg]
  refine congrArg Int.toNat ?_
  omega

theorem backoffExponent_le (n : Int32) : (backoffExponent n).toNat ≤ 30 := by
  rw [backoffExponent_toNat]
  omega

/-- The shift is never refused and loses no bit. -/
theorem checkedShl_backoffExponent (n : Int32) :
    ∃ m, checkedShl 1 (backoffExponent n) = some m ∧ m.toInt = 2 ^ (backoffExponent n).toNat := by
  have hle := backoffExponent_le n
  exact checkedShl_one (by omega)

theorem backoffMultiplier_toInt (n : Int32) :
    (backoffMultiplier n).toInt = 2 ^ (backoffExponent n).toNat := by
  obtain ⟨m, hm, hpow⟩ := checkedShl_backoffExponent n
  rw [backoffMultiplier, hm]
  exact hpow

theorem toInt_eq_zero_iff {x : Int64} : x = 0 ↔ x.toInt = 0 :=
  Int64.toInt_inj.symm

theorem toInt_max_zero (x : Int64) : (max x 0).toInt = max x.toInt 0 := toInt_max64 x 0

theorem saturated_exponent (n : Int32) :
    (min (max (saturateI32 (n.toInt - 1)) 0) 30).toNat = (backoffExponent n).toNat := by
  have hlower := Int32.le_toInt n
  have hupper := Int32.toInt_lt n
  rw [backoffExponent_toNat, saturateI32, i32Min, i32Max]
  refine congrArg Int.toNat ?_
  omega

/-- The words stand for the integers of the outbox model. -/
theorem computeBackoffSecs_toInt (n : Int32) (base cap : Int64) :
    (computeBackoffSecs n base cap).toInt =
      GmragApi.computeBackoffSecs n.toInt base.toInt cap.toInt := by
  unfold computeBackoffSecs GmragApi.computeBackoffSecs
  dsimp only
  rw [saturated_exponent, ← backoffMultiplier_toInt]
  have hif : (max base 0 = 0 ∨ max cap 0 = 0) ↔ (max base.toInt 0 = 0 ∨ max cap.toInt 0 = 0) := by
    rw [toInt_eq_zero_iff, toInt_eq_zero_iff, toInt_max_zero, toInt_max_zero]
  by_cases hzero : max base 0 = 0 ∨ max cap 0 = 0
  · rw [if_pos hzero, if_pos (hif.mp hzero)]
    rfl
  · rw [if_neg hzero, if_neg (fun h => hzero (hif.mpr h)), toInt_min64, toInt_saturatingMul,
      toInt_max_zero, toInt_max_zero]

theorem dispositionAfterFailure_toInts (current maxRetries : Int32) (permanent : Bool)
    (backoff : OutboxBackoffConfig) :
    (dispositionAfterFailure current maxRetries permanent backoff).toInts =
      GmragApi.dispositionAfterFailure current.toInt maxRetries.toInt permanent backoff.toInts := by
  unfold dispositionAfterFailure GmragApi.dispositionAfterFailure
  dsimp only
  rw [← toInt_saturatingAdd_one]
  have hif : (permanent = true ∨ maxRetries ≤ saturatingAdd current 1) ↔
      (permanent = true ∨ maxRetries.toInt ≤ (saturatingAdd current 1).toInt) := by
    rw [Int32.le_iff_toInt_le]
  by_cases hdead : permanent = true ∨ maxRetries ≤ saturatingAdd current 1
  · rw [if_pos hdead, if_pos (hif.mp hdead)]
    rfl
  · rw [if_neg hdead, if_neg (fun h => hdead (hif.mpr h)), FailureDisposition.toInts,
      computeBackoffSecs_toInt]
    rfl

end Steps

section ClosedForm

/-- The delay over the integers, without a bound on the exponent. -/
def backoffFormula (n base cap : Int) : Int :=
  if 0 < base ∧ 0 < cap then min (base * 2 ^ (max n 1 - 1).toNat) cap else 0

theorem pow_le_mul {base : Int} (hbase : 0 < base) (k : Nat) : (2 : Int) ^ k ≤ base * 2 ^ k := by
  have hpow : (0 : Int) ≤ 2 ^ k := pow_nonneg (by decide) k
  have hmul := mul_le_mul_of_nonneg_right (show 1 ≤ base by omega) hpow
  omega

/-- From an exponent of 30 on, the product has passed every cap there is. -/
theorem min_mul_pow_clamped {base cap : Int} (hbase : 0 < base) (hcap : cap ≤ 2 ^ 30) (k : Nat) :
    min (base * 2 ^ min k 30) cap = min (base * 2 ^ k) cap := by
  by_cases hk : k ≤ 30
  · rw [Nat.min_eq_left hk]
  · have hexponent : (2 : Int) ^ 30 ≤ 2 ^ k := by
      exact pow_le_pow_right₀ (by decide) (by omega)
    have hclamped := pow_le_mul hbase 30
    have hfull := pow_le_mul hbase k
    rw [Nat.min_eq_right (by omega), min_eq_right (by omega), min_eq_right (by omega)]

theorem min_saturateI64 {x cap : Int} (hx : 0 ≤ x) (hcap : cap ≤ 2 ^ 30) :
    min (saturateI64 x) cap = min x cap := by
  simp only [saturateI64, i64Min, i64Max]
  omega

theorem computeBackoffSecs_formula {cap : Int64} (hcap : cap.toInt ≤ 2 ^ 30) (n : Int32)
    (base : Int64) :
    (computeBackoffSecs n base cap).toInt = backoffFormula n.toInt base.toInt cap.toInt := by
  rw [computeBackoffSecs_toInt, GmragApi.computeBackoffSecs, backoffFormula]
  dsimp only
  rw [saturated_exponent, backoffExponent_toNat]
  by_cases hpos : 0 < base.toInt ∧ 0 < cap.toInt
  · have hbase := hpos.1
    have hexponent : (min (max n.toInt 1 - 1) 30).toNat = min (max n.toInt 1 - 1).toNat 30 := by
      omega
    have hproduct : 0 ≤ base.toInt * 2 ^ min (max n.toInt 1 - 1).toNat 30 :=
      mul_nonneg (by omega) (pow_nonneg (by decide) _)
    rw [if_pos hpos, if_neg (by omega), max_eq_left (by omega : (0 : Int) ≤ base.toInt),
      max_eq_left (by omega : (0 : Int) ≤ cap.toInt), hexponent, min_saturateI64 hproduct hcap]
    exact min_mul_pow_clamped hbase hcap _
  · rw [if_neg hpos, if_pos (by omega)]

theorem backoffFormula_mono {n m : Int} (h : n ≤ m) (base cap : Int) :
    backoffFormula n base cap ≤ backoffFormula m base cap := by
  unfold backoffFormula
  split
  next hpos =>
    have hexponent : (2 : Int) ^ (max n 1 - 1).toNat ≤ 2 ^ (max m 1 - 1).toNat :=
      pow_le_pow_right₀ (by decide) (by omega)
    have hproduct := mul_le_mul_of_nonneg_left hexponent (by omega : (0 : Int) ≤ base)
    omega
  next => exact le_refl 0

end ClosedForm

section Schedule

theorem computeBackoffSecs_mono {cap : Int64} (hcap : cap.toInt ≤ 2 ^ 30) (base : Int64)
    {n m : Int32} (h : n ≤ m) : computeBackoffSecs n base cap ≤ computeBackoffSecs m base cap := by
  rw [Int64.le_iff_toInt_le, computeBackoffSecs_formula hcap, computeBackoffSecs_formula hcap]
  exact backoffFormula_mono (Int32.le_iff_toInt_le.mp h) _ _

theorem dispositionAfterFailure_retryable {current maxRetries next : Int32} {secs : Int64}
    {permanent : Bool} {backoff : OutboxBackoffConfig}
    (h : dispositionAfterFailure current maxRetries permanent backoff = .retryable next secs) :
    next = saturatingAdd current 1 ∧
      secs = computeBackoffSecs next backoff.baseBackoffSecs backoff.maxBackoffSecs := by
  unfold dispositionAfterFailure at h
  dsimp only at h
  split at h
  next => cases h
  next =>
    obtain ⟨rfl, rfl⟩ := FailureDisposition.retryable.inj h
    exact ⟨rfl, rfl⟩

theorem saturatingAdd_one_mono {n m : Int32} (h : n ≤ m) :
    saturatingAdd n 1 ≤ saturatingAdd m 1 := by
  have hint := Int32.le_iff_toInt_le.mp h
  rw [Int32.le_iff_toInt_le, toInt_saturatingAdd_one, toInt_saturatingAdd_one]
  simp only [saturateI32]
  omega

/-- No step of the computation wraps: the exponent and the multiplier are exact, and the product is
exact up to the largest word. -/
structure NoOverflow (n : Int32) (base : Int64) : Prop where
  exponent : (backoffExponent n).toNat = (min (max n.toInt 1 - 1) 30).toNat
  shifted : ∃ m, checkedShl 1 (backoffExponent n) = some m ∧ backoffMultiplier n = m ∧
    m.toInt = 2 ^ (backoffExponent n).toNat
  product : (saturatingMul (max base 0) (backoffMultiplier n)).toInt =
    min (max base.toInt 0 * 2 ^ (backoffExponent n).toNat) i64Max
  incremented : (saturatingAdd n 1).toInt = min (n.toInt + 1) i32Max

theorem noOverflow (n : Int32) (base : Int64) : NoOverflow n base := by
  have hproduct : 0 ≤ max base.toInt 0 * 2 ^ (backoffExponent n).toNat :=
    mul_nonneg (le_max_right ..) (pow_nonneg (by decide) _)
  have hlower := Int32.le_toInt n
  refine ⟨backoffExponent_toNat n, ?_, ?_, ?_⟩
  · obtain ⟨m, hm, hpow⟩ := checkedShl_backoffExponent n
    exact ⟨m, hm, by rw [backoffMultiplier, hm]; rfl, hpow⟩
  · rw [toInt_saturatingMul, toInt_max_zero, backoffMultiplier_toInt]
    simp only [saturateI64, i64Min, i64Max]
    omega
  · rw [toInt_saturatingAdd_one]
    simp only [saturateI32, i32Min, i32Max]
    omega

/-- The delays of the outbox are exact and never shrink from one failure to a later one. -/
theorem backoff_exact_and_monotone {cap : Int64} (hcap : cap.toInt ≤ 2 ^ 30) (base : Int64) :
    (∀ n : Int32,
      (computeBackoffSecs n base cap).toInt = backoffFormula n.toInt base.toInt cap.toInt ∧
        NoOverflow n base) ∧
    (∀ n m : Int32, n ≤ m → computeBackoffSecs n base cap ≤ computeBackoffSecs m base cap) ∧
    ∀ (current later maxRetries maxRetries' next next' : Int32) (secs secs' lease : Int64)
      (permanent permanent' : Bool), current ≤ later →
      dispositionAfterFailure current maxRetries permanent ⟨base, cap, lease⟩ =
        .retryable next secs →
      dispositionAfterFailure later maxRetries' permanent' ⟨base, cap, lease⟩ =
        .retryable next' secs' →
      secs ≤ secs' := by
  refine ⟨fun n => ⟨computeBackoffSecs_formula hcap n base, noOverflow n base⟩,
    fun n m h => computeBackoffSecs_mono hcap base h, ?_⟩
  intro current later maxRetries maxRetries' next next' secs secs' lease permanent permanent' hle
    hearlier hlater
  obtain ⟨rfl, rfl⟩ := dispositionAfterFailure_retryable hearlier
  obtain ⟨rfl, rfl⟩ := dispositionAfterFailure_retryable hlater
  exact computeBackoffSecs_mono hcap base (saturatingAdd_one_mono hle)

/-- The delays of a base of two seconds and a cap of an hour. -/
theorem backoff_exact_and_monotone_hour :
    (computeBackoffSecs 3 2 3600).toInt = 8 ∧
      computeBackoffSecs 3 2 3600 ≤ computeBackoffSecs 40 2 3600 := by
  obtain ⟨hexact, hmono, -⟩ :=
    @backoff_exact_and_monotone 3600 (by decide) 2
  exact ⟨(hexact 3).1.trans (by decide), hmono 3 40 (by decide)⟩

end Schedule

end GmragApi.Word
