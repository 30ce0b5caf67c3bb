import Mathlib.Data.Int.Log
import Mathlib.Data.Rat.Floor
import Mathlib.Algebra.Order.Field.Rat
import Mathlib.Tactic.Linarith
import Mathlib.Tactic.Positivity
import Mathlib.Tactic.FieldSimp
import Mathlib.Tactic.NormNum

/-! Rounding of rationals to doubles: 53 bits, to nearest, ties to even. The exponent
is not bounded here: a double too large for the format is still a number, and none is
too small. -/
namespace YzFramework.Library.Double

/-- The nearest integer, the even one of two. -/
def roundEven (q : ℚ) : ℤ :=
  let below := ⌊q⌋
  if q-below < 1/2 then below
  else if 1/2 < q-below then below+1
  else if below % 2 = 0 then below
  else below+1

def ulp (q : ℚ) : ℚ := (2 : ℚ)^(Int.log 2 q-52)

def magnitude (q : ℚ) : ℚ := roundEven (q/ulp q)*ulp q

def double (q : ℚ) : ℚ := if 0 ≤ q then magnitude q else -magnitude (-q)

theorem floor_le_roundEven (q : ℚ) : ⌊q⌋ ≤ roundEven q := by
  unfold roundEven
  dsimp only
  split
  · exact le_rfl
  · split
    · omega
    · split <;> omega

theorem roundEven_le (q : ℚ) : roundEven q ≤ ⌊q⌋+1 := by
  unfold roundEven
  dsimp only
  split
  · omega
  · split
    · exact le_rfl
    · split <;> omega

theorem roundEven_int (n : ℤ) : roundEven n = n := by simp [roundEven]

theorem roundEven_mono {p q : ℚ} (le : p ≤ q) : roundEven p ≤ roundEven q := by
  rcases (Int.floor_le_floor le).lt_or_eq with below | same
  · have upper := roundEven_le p
    have lower := floor_le_roundEven q
    omega
  · unfold roundEven
    dsimp only
    rw [← same]
    have nearer : p-⌊p⌋ ≤ q-⌊p⌋ := by linarith
    split
    next => split <;> [exact le_rfl; split <;> [omega; split <;> omega]]
    next high =>
      have half : ¬ q-⌊p⌋ < 1/2 := fun low => high (lt_of_le_of_lt nearer low)
      rw [if_neg half]
      split
      next above => rw [if_pos (lt_of_lt_of_le above nearer)]
      next =>
        split
        next => split <;> [omega; exact le_rfl]
        next odd => split <;> [exact le_rfl; exact le_rfl]

theorem ulp_pos (q : ℚ) : 0 < ulp q := zpow_pos (by norm_num) _

theorem scaled_ulp (q : ℚ) (k : ℕ) : (2 : ℚ)^k*ulp q = (2 : ℚ)^(Int.log 2 q+(k-52)) := by
  rw [ulp,← zpow_natCast,← zpow_add₀ (by norm_num)]
  congr 1
  omega

theorem le_scaled {q : ℚ} (positive : 0 < q) : (2 : ℚ)^52 ≤ q/ulp q := by
  have bottom := Int.zpow_log_le_self (b := 2) (by norm_num) positive
  rw [le_div_iff₀ (ulp_pos q),scaled_ulp]
  simpa using bottom

theorem scaled_le (q : ℚ) : q/ulp q ≤ (2 : ℚ)^53 := by
  have top := (Int.lt_zpow_succ_log_self (b := 2) (by norm_num) q).le
  rw [div_le_iff₀ (ulp_pos q),scaled_ulp]
  norm_num at top ⊢
  exact top

theorem magnitude_zero : magnitude 0 = 0 := by simp [magnitude,roundEven]

theorem binade_magnitude {q : ℚ} (positive : 0 < q) :
    (2 : ℚ)^Int.log 2 q ≤ magnitude q ∧ magnitude q ≤ (2 : ℚ)^(Int.log 2 q+1) := by
  have low : (2 : ℚ)^52 ≤ roundEven (q/ulp q) := by
    have rounded := roundEven_mono (p := ((2^52 : ℤ) : ℚ)) (by exact_mod_cast le_scaled positive)
    rw [roundEven_int] at rounded
    exact_mod_cast rounded
  have high : (roundEven (q/ulp q) : ℚ) ≤ (2 : ℚ)^53 := by
    have rounded := roundEven_mono (q := ((2^53 : ℤ) : ℚ)) (by exact_mod_cast scaled_le q)
    rw [roundEven_int] at rounded
    exact_mod_cast rounded
  constructor
  · calc (2 : ℚ)^Int.log 2 q
      _ = 2^52*ulp q := by rw [scaled_ulp]; simp
      _ ≤ magnitude q := mul_le_mul_of_nonneg_right low (ulp_pos q).le
  · calc magnitude q
      _ ≤ 2^53*ulp q := mul_le_mul_of_nonneg_right high (ulp_pos q).le
      _ = (2 : ℚ)^(Int.log 2 q+1) := by rw [scaled_ulp]; norm_num

theorem magnitude_pos {q : ℚ} (positive : 0 < q) : 0 < magnitude q :=
  lt_of_lt_of_le (zpow_pos (by norm_num) _) (binade_magnitude positive).1

theorem magnitude_mono {p q : ℚ} (nonneg : 0 ≤ p) (le : p ≤ q) : magnitude p ≤ magnitude q := by
  rcases nonneg.eq_or_lt with rfl | positive
  · rw [magnitude_zero]
    rcases le.eq_or_lt with rfl | larger
    · exact magnitude_zero.ge
    · exact (magnitude_pos larger).le
  · rcases (Int.log_mono_right (b := 2) positive le).eq_or_lt with same | below
    · have steps : ulp p = ulp q := by rw [ulp,ulp,same]
      have rounded : (roundEven (p/ulp q) : ℚ) ≤ roundEven (q/ulp q) := by
        exact_mod_cast roundEven_mono (div_le_div_of_nonneg_right le (ulp_pos q).le)
      rw [magnitude,magnitude,steps]
      exact mul_le_mul_of_nonneg_right rounded (ulp_pos q).le
    · calc magnitude p
        _ ≤ (2 : ℚ)^(Int.log 2 p+1) := (binade_magnitude positive).2
        _ ≤ (2 : ℚ)^Int.log 2 q := zpow_le_zpow_right₀ (by norm_num) below
        _ ≤ magnitude q := (binade_magnitude (lt_of_lt_of_le positive le)).1

theorem double_nonneg {q : ℚ} : 0 ≤ double q ↔ 0 ≤ q := by
  unfold double
  split
  next nonneg =>
    refine iff_of_true ?_ nonneg
    rw [← magnitude_zero]
    exact magnitude_mono le_rfl nonneg
  next negative =>
    refine iff_of_false (fun above => ?_) negative
    have := magnitude_pos (neg_pos.mpr (not_le.mp negative))
    linarith

theorem double_mono {p q : ℚ} (le : p ≤ q) : double p ≤ double q := by
  by_cases sign : 0 ≤ p
  · rw [double,double,if_pos sign,if_pos (sign.trans le)]
    exact magnitude_mono sign le
  · by_cases other : 0 ≤ q
    · have below : double p < 0 := not_le.mp (mt double_nonneg.mp sign)
      exact below.le.trans (double_nonneg.mpr other)
    · rw [double,double,if_neg sign,if_neg other]
      exact neg_le_neg (magnitude_mono (by linarith) (neg_le_neg le))

theorem double_neg (q : ℚ) : double (-q) = -double q := by
  rcases lt_trichotomy q 0 with negative | rfl | positive
  · rw [double,double,if_pos (by linarith),if_neg (by linarith),neg_neg]
  · simp [double,magnitude_zero]
  · rw [double,double,if_neg (by linarith),if_pos (by linarith),neg_neg]

theorem magnitude_exact {q : ℚ} {n : ℤ} (whole : q/ulp q = n) : magnitude q = q := by
  rw [magnitude,whole,roundEven_int,← whole,div_mul_cancel₀ _ (ulp_pos q).ne']

theorem double_int (n : ℤ) (small : |n| ≤ 2^53) : double n = n := by
  have natural : ∀ k : ℕ, k ≤ 2^53 → magnitude k = k := by
    intro k bounded
    rcases Nat.eq_zero_or_pos k with rfl | positive
    · simpa using magnitude_zero
    have size : Int.log 2 (k : ℚ) = Nat.log 2 k := Int.log_natCast 2 k
    rcases Nat.lt_or_ge k (2^53) with short | full
    · have place : Nat.log 2 k ≤ 52 := by
        have := Nat.log_lt_of_lt_pow (Nat.ne_of_gt positive) short
        omega
      -- in these binades the step divides 1
      have whole : (k : ℚ)/ulp k = ((k*2^(52-Nat.log 2 k) : ℕ) : ℤ) := by
        rw [div_eq_iff (ulp_pos _).ne',ulp,size]
        push_cast
        rw [mul_assoc,← zpow_natCast,← zpow_add₀ (by norm_num)]
        have none : ((52-Nat.log 2 k : ℕ) : ℤ)+((Nat.log 2 k : ℤ)-52) = 0 := by omega
        rw [none,zpow_zero,mul_one]
      exact magnitude_exact whole
    · have top : k = 2^53 := le_antisymm bounded full
      subst top
      have whole : ((2^53 : ℕ) : ℚ)/ulp ((2^53 : ℕ) : ℚ) = ((2^52 : ℤ) : ℚ) := by
        rw [div_eq_iff (ulp_pos _).ne',ulp,size,Nat.log_pow (by norm_num)]
        norm_num
      exact magnitude_exact whole
  have nonneg : ∀ k : ℕ, k ≤ 2^53 → double k = k := fun k bounded => by
    rw [double,if_pos (Nat.cast_nonneg k)]
    exact natural k bounded
  obtain ⟨k,rfl | rfl⟩ := Int.eq_nat_or_neg n
  · have bounded : k ≤ 2^53 := by
      rw [Nat.abs_cast] at small
      exact_mod_cast small
    exact_mod_cast nonneg k bounded
  · have bounded : k ≤ 2^53 := by
      rw [abs_neg,Nat.abs_cast] at small
      exact_mod_cast small
    rw [Int.cast_neg,Int.cast_natCast,double_neg,nonneg k bounded]

theorem roundEven_error (q : ℚ) : |q-roundEven q| ≤ 1/2 := by
  have low := Int.floor_le q
  have high := (Int.lt_floor_add_one q).le
  unfold roundEven
  dsimp only
  rw [abs_le]
  split
  · constructor <;> linarith
  · split
    · push_cast
      constructor <;> linarith
    · split
      · constructor <;> linarith
      · push_cast
        constructor <;> linarith

/-- Nothing else is nearer than a half. -/
theorem roundEven_near {q : ℚ} {n : ℤ} (near : |q-n| < 1/2) : roundEven q = n := by
  have error := roundEven_error q
  rw [abs_le] at error
  rw [abs_lt] at near
  have below : (roundEven q : ℚ) < (n+1 : ℤ) := by
    push_cast
    linarith
  have above : ((n-1 : ℤ) : ℚ) < roundEven q := by
    push_cast
    linarith
  have := Int.cast_lt.mp below
  have := Int.cast_lt.mp above
  omega

/-- The relative error of a double is at most half a unit in the last of its 53 bits. -/
theorem magnitude_error {q : ℚ} (nonneg : 0 ≤ q) : |q-magnitude q| ≤ q/2^53 := by
  rcases nonneg.eq_or_lt with rfl | positive
  · simp [magnitude_zero]
  have step := ulp_pos q
  have apart : q-magnitude q = (q/ulp q-roundEven (q/ulp q))*ulp q := by
    rw [magnitude,sub_mul,div_mul_cancel₀ _ step.ne']
  have unit : ulp q*2^52 ≤ q := by
    have scaled := le_scaled positive
    rw [le_div_iff₀ step] at scaled
    linarith
  rw [apart,abs_mul,abs_of_pos step]
  calc |q/ulp q-roundEven (q/ulp q)| * ulp q
    _ ≤ 1/2*ulp q := mul_le_mul_of_nonneg_right (roundEven_error _) step.le
    _ = ulp q*2^52/2^53 := by ring
    _ ≤ q/2^53 := div_le_div_of_nonneg_right unit (by positivity)

theorem magnitude_nonneg {q : ℚ} (nonneg : 0 ≤ q) : 0 ≤ magnitude q := by
  rcases nonneg.eq_or_lt with rfl | positive
  · rw [magnitude_zero]
  · exact (magnitude_pos positive).le

theorem magnitude_nat {n : ℕ} (small : n ≤ 2^53) : magnitude n = n := by
  have exact_ := double_int n (by rw [Nat.abs_cast]; exact_mod_cast small)
  rw [double,if_pos (by exact_mod_cast Nat.zero_le n)] at exact_
  exact_mod_cast exact_

end YzFramework.Library.Double
