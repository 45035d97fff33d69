import Mathlib.Order.MinMax
import Mathlib.Data.Int.Order.Basic
import Mathlib.Algebra.Ring.Int.Defs

/-! Saturating and checked operations on fixed-width signed words, and the integers they stand
for. -/

namespace SaturatingWord

section Clamp

theorem toInt_ofIntClamp32 (x : Int) :
    (Int32.ofIntClamp x).toInt = max (-2 ^ 31) (min x (2 ^ 31 - 1)) := by
  unfold Int32.ofIntClamp
  have hmin := Int32.toInt_minValue
  have hmax := Int32.toInt_maxValue
  split
  next hl =>
    split
    next hr =>
      rw [Int32.toInt_ofIntLE]
      omega
    next hr => omega
  next hl => omega

theorem toInt_ofIntClamp64 (x : Int) :
    (Int64.ofIntClamp x).toInt = max (-2 ^ 63) (min x (2 ^ 63 - 1)) := by
  unfold Int64.ofIntClamp
  have hmin := Int64.toInt_minValue
  have hmax := Int64.toInt_maxValue
  split
  next hl =>
    split
    next hr =>
      rw [Int64.toInt_ofIntLE]
      omega
    next hr => omega
  next hl => omega

end Clamp

section Order

theorem toInt_max32 (x y : Int32) : (max x y).toInt = max x.toInt y.toInt := by
  change (if x ≤ y then y else x).toInt = _
  split
  next h => exact (max_eq_right (Int32.le_iff_toInt_le.mp h)).symm
  next h =>
    rw [Int32.le_iff_toInt_le] at h
    exact (max_eq_left (by omega)).symm

theorem toInt_min32 (x y : Int32) : (min x y).toInt = min x.toInt y.toInt := by
  change (if x ≤ y then x else y).toInt = _
  split
  next h => exact (min_eq_left (Int32.le_iff_toInt_le.mp h)).symm
  next h =>
    rw [Int32.le_iff_toInt_le] at h
    exact (min_eq_right (by omega)).symm

theorem toInt_max64 (x y : Int64) : (max x y).toInt = max x.toInt y.toInt := by
  change (if x ≤ y then y else x).toInt = _
  split
  next h => exact (max_eq_right (Int64.le_iff_toInt_le.mp h)).symm
  next h =>
    rw [Int64.le_iff_toInt_le] at h
    exact (max_eq_left (by omega)).symm

theorem toInt_min64 (x y : Int64) : (min x y).toInt = min x.toInt y.toInt := by
  change (if x ≤ y then x else y).toInt = _
  split
  next h => exact (min_eq_left (Int64.le_iff_toInt_le.mp h)).symm
  next h =>
    rw [Int64.le_iff_toInt_le] at h
    exact (min_eq_right (by omega)).symm

end Order

def saturatingAdd (x y : Int32) : Int32 := .ofIntClamp (x.toInt + y.toInt)

def saturatingSub (x y : Int32) : Int32 := .ofIntClamp (x.toInt - y.toInt)

def saturatingMul (x y : Int64) : Int64 := .ofIntClamp (x.toInt * y.toInt)

/-- The bits shifted out are lost; only a shift by the width or more is refused. -/
def checkedShl (x : Int64) (bits : UInt32) : Option Int64 :=
  if bits.toNat < 64 then some (x <<< Int64.ofNat bits.toNat) else none

/-- A one stays clear of the sign bit below the last shift. -/
theorem checkedShl_one {bits : UInt32} (h : bits.toNat < 63) :
    ∃ m, checkedShl 1 bits = some m ∧ m.toInt = 2 ^ bits.toNat := by
  have hpow : ∀ k < 63, ((1 : Int64) <<< Int64.ofNat k).toInt = 2 ^ k := by decide
  exact ⟨_, if_pos (by omega), hpow _ h⟩

/-- The cast of a value that is not negative keeps it. -/
theorem toNat_toUInt32 {x : Int32} (h : 0 ≤ x.toInt) : x.toUInt32.toNat = x.toInt.toNat :=
  Int32.toNat_toUInt32_of_le (Int32.le_iff_toInt_le.mpr h)

end SaturatingWord
