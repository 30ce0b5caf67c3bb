import Mathlib.Tactic.Ring
import Mathlib.Data.Int.Basic
import Mathlib.Data.List.DropRight

/-! Numerals in base ten, on top of `Nat.toDigits` and `Nat.ofDigitChars`. -/
namespace YzFramework.Library.Decimal
open Nat (toDigits ofDigitChars)

def decimal (n : ℤ) : List Char :=
  if n < 0 then '-'::toDigits 10 n.natAbs else toDigits 10 n.natAbs

def padded (size n : ℕ) : List Char := List.replicate (size-(toDigits 10 n).length) '0' ++ toDigits 10 n

theorem decimal_natCast (n : ℕ) : decimal n = toDigits 10 n := by
  rw [decimal,if_neg (by omega),Int.natAbs_natCast]

theorem digit_ne {c other : Char} (digit : c.isDigit = true) (sign : other.isDigit = false) : c ≠ other := by
  rintro rfl
  exact absurd digit (by rw [sign]; decide)

theorem isDigit_digits {n : ℕ} {c : Char} (inside : c ∈ toDigits 10 n) : c.isDigit = true :=
  Nat.isDigit_of_mem_toDigits (by decide) (by decide) inside

theorem value_append (upper lower : List Char) :
    ofDigitChars 10 (upper ++ lower) 0 = ofDigitChars 10 upper 0*10^lower.length+ofDigitChars 10 lower 0 := by
  rw [Nat.ofDigitChars_append,Nat.ofDigitChars_eq_ofDigitChars_zero,Nat.mul_comm]

theorem isDigit_padded {size n : ℕ} {c : Char} (inside : c ∈ padded size n) : c.isDigit = true := by
  rw [padded,List.mem_append] at inside
  rcases inside with zero | digit
  · rw [List.eq_of_mem_replicate zero]
    rfl
  · exact isDigit_digits digit

theorem padded_length {size n : ℕ} (some : 0 < size) (small : n < 10^size) : (padded size n).length = size := by
  have short := (Nat.length_toDigits_le_iff (by decide) some).mpr small
  rw [padded,List.length_append,List.length_replicate]
  omega

theorem padded_value (size n : ℕ) : ofDigitChars 10 (padded size n) 0 = n := by
  rw [padded,Nat.ofDigitChars_append,Nat.ofDigitChars_replicate_zero,Nat.mul_zero]
  exact Nat.ofDigitChars_ten_toDigits

theorem digits_rdropWhile {n : ℕ} (positive : 0 < n) :
    ∃ m j, (toDigits 10 n).rdropWhile (· == '0') = toDigits 10 m ∧ n = m*10^j ∧ ¬ 10 ∣ m := by
  induction n using Nat.strong_induction_on with
  | _ n ih =>
    by_cases zero : n % 10 = 0
    · obtain ⟨m,j,dropped,whole,rest⟩ := ih (n/10) (by omega) (by omega)
      refine ⟨m,j+1,?_,?_,rest⟩
      · rw [Nat.toDigits_of_base_le (by decide) (by omega),zero,List.rdropWhile_concat_pos _ _ _ (by decide),dropped]
      · rw [Nat.pow_succ,← Nat.mul_assoc,← whole]
        omega
    · have last : ¬ ((n % 10).digitChar == '0') = true := by simpa using zero
      refine ⟨n,0,?_,(Nat.mul_one n).symm,fun divides => zero (Nat.mod_eq_zero_of_dvd divides)⟩
      by_cases small : n < 10
      · rw [Nat.mod_eq_of_lt small] at last
        rw [Nat.toDigits_of_lt_base small]
        exact List.rdropWhile_concat_neg _ [] _ last
      · rw [Nat.toDigits_of_base_le (by decide) (by omega)]
        exact List.rdropWhile_concat_neg (· == '0') _ _ last

theorem digits_last (n : ℕ) : (toDigits 10 n).getLast? = some (n % 10).digitChar := by
  rw [Nat.toDigits_eq_if (by decide)]
  split_ifs with small
  · rw [Nat.mod_eq_of_lt small]
    rfl
  · exact List.getLast?_concat

theorem digits_last_zero {n : ℕ} : (toDigits 10 n).getLast? = some '0' ↔ 10 ∣ n := by
  rw [digits_last,Option.some_inj,Nat.digitChar_eq_zero]
  exact ⟨Nat.dvd_of_mod_eq_zero,Nat.mod_eq_zero_of_dvd⟩

theorem value_zeros (text : List Char) (k : ℕ) :
    ofDigitChars 10 (text ++ List.replicate k '0') 0 = 10^k*ofDigitChars 10 text 0 := by
  rw [Nat.ofDigitChars_append,Nat.ofDigitChars_replicate_zero]

end YzFramework.Library.Decimal
