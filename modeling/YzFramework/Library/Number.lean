import YzFramework.Library.Double

/-! Numbers of a language whose only numbers are doubles, and what it computes
with them. A finite value is meant to be a double; zero has two signs. -/
namespace YzFramework.Library
open Double

inductive Number
  | nan
  | infinity (negative : Bool)
  | negativeZero
  | finite (value : ℚ)
deriving DecidableEq

namespace Number

def ofInt (n : ℤ) : Number := finite (double n)

def value : Number → ℚ
  | finite value => value
  | _ => 0

def neg : Number → Number
  | nan => nan
  | infinity negative => infinity (!negative)
  | negativeZero => finite 0
  | finite value => if value = 0 then negativeZero else finite (-value)

def sub : Number → Number → Number
  | nan,_ => nan
  | _,nan => nan
  | infinity first,infinity second => if first = second then nan else infinity first
  | infinity first,_ => infinity first
  | _,infinity second => infinity (!second)
  | negativeZero,negativeZero => finite 0
  | negativeZero,finite value => if value = 0 then negativeZero else finite (-value)
  | finite value,negativeZero => finite value
  | finite first,finite second => finite (double (first-second))

def lt : Number → Number → Bool
  | nan,_ => false
  | _,nan => false
  | infinity first,infinity second => first && !second
  | infinity first,_ => first
  | _,infinity second => !second
  | first,second => first.value < second.value

def le : Number → Number → Bool
  | nan,_ => false
  | _,nan => false
  | infinity first,infinity second => first || !second
  | infinity first,_ => first
  | _,infinity second => !second
  | first,second => first.value ≤ second.value

theorem ofInt_small (n : ℤ) (small : |n| ≤ 2^53) : ofInt n = finite n := by
  rw [ofInt,double_int n small]

theorem neg_int {n : ℤ} (nonzero : n ≠ 0) : neg (finite n) = finite ((-n : ℤ) : ℚ) := by
  have moved : (n : ℚ) ≠ 0 := Int.cast_ne_zero.mpr nonzero
  simp [neg,moved]

theorem sub_int {m n : ℤ} (small : |m-n| ≤ 2^53) : sub (finite m) (finite n) =
    finite ((m-n : ℤ) : ℚ) := by
  rw [← double_int _ small,Int.cast_sub]
  rfl

theorem le_sub (first second : ℚ) : le (finite 0) (sub (finite first) (finite second)) =
    decide (second ≤ first) := by
  have sign : (0 ≤ double (first-second)) ↔ second ≤ first := double_nonneg.trans sub_nonneg
  exact decide_eq_decide.mpr sign

theorem lt_zero_ofInt (n : ℤ) : lt (finite 0) (ofInt n) = decide (0 < n) := by
  have sign : 0 < double (n : ℚ) ↔ 0 < n := by
    have reflected := not_congr (double_nonneg (q := -(n : ℚ)))
    rw [double_neg,not_le,not_le,neg_lt_zero,neg_lt_zero] at reflected
    exact reflected.trans Int.cast_pos
  exact decide_eq_decide.mpr sign

theorem le_double_int {m n : ℤ} (nonneg : 0 ≤ n) (small : n ≤ 2^53) : (n : ℚ) ≤ double m ↔ n ≤ m := by
  constructor
  · intro below
    have counted : 0 ≤ m := by
      have := (Int.cast_nonneg (R := ℚ) nonneg).trans below
      exact_mod_cast double_nonneg.mp this
    by_contra above
    rw [double_int m (abs_le.mpr ⟨by omega,by omega⟩)] at below
    exact above (Int.cast_le.mp below)
  · intro above
    rw [← double_int n (abs_le.mpr ⟨by omega,small⟩)]
    exact double_mono (Int.cast_le.mpr above)

end Number
end YzFramework.Library
