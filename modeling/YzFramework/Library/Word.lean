import Mathlib.Algebra.Order.Ring.Int
import Mathlib.Algebra.Order.Ring.Nat
import Mathlib.Tactic.Ring

/-! Fields of a machine word put together by shifts and disjunction.
A disjunction with a field below the alignment of the other operand is a sum;
a shift and a mask read the field back. Then unsigned numerals in any base, on top of
`Nat.toDigits`. -/
namespace YzFramework.Library.Word

abbrev Long := BitVec 64

variable {w : Nat}

theorem shifted_toNat (value : BitVec w) (k : Nat) (fits : value.toNat * 2^k < 2^w) :
    (value <<< k).toNat = value.toNat * 2^k := by
  rw [BitVec.toNat_shiftLeft,Nat.shiftLeft_eq,Nat.mod_eq_of_lt fits]

theorem or_aligned_toNat (high low : BitVec w) (k : Nat) (aligned : 2^k ∣ high.toNat)
    (small : low.toNat < 2^k) : (high ||| low).toNat = high.toNat + low.toNat := by
  obtain ⟨factor,eq⟩ := aligned
  rw [BitVec.toNat_or,eq,← Nat.two_pow_add_eq_or_of_lt small]

theorem masked_toNat (value mask : BitVec w) (k : Nat) (ones : mask.toNat = 2^k-1) :
    (value &&& mask).toNat = value.toNat % 2^k := by
  rw [BitVec.toNat_and,ones,Nat.and_two_pow_sub_one_eq_mod]

theorem shifted_right_toNat (value : BitVec w) (k : Nat) :
    (value >>> k).toNat = value.toNat / 2^k := by
  rw [BitVec.toNat_ushiftRight,Nat.shiftRight_eq_div_pow]

theorem toInt_of_small (value : BitVec w) (small : 2 * value.toNat < 2^w) :
    value.toInt = value.toNat := BitVec.toInt_eq_toNat_of_lt small

theorem distance_toNat (later earlier : Long) (ordered : earlier.toInt ≤ later.toInt) :
    ((later - earlier).toNat : ℤ) = later.toInt - earlier.toInt := by
  have lowLater := later.isLt
  have lowEarlier := earlier.isLt
  rw [BitVec.toNat_sub]
  rw [BitVec.toInt_eq_toNat_cond,BitVec.toInt_eq_toNat_cond] at ordered ⊢
  split at ordered <;> split <;> simp_all <;> omega

theorem not_slt {left right : Long} : ¬ left.slt right = true ↔ right.toInt ≤ left.toInt := by
  rw [BitVec.slt_iff_toInt_lt,not_lt]

end YzFramework.Library.Word

namespace YzFramework.Library
open Nat (toDigits digitChar)

/-- `Character.digit` in a base: a table of digits that may know more of them than are written. -/
structure Digits (radix : ℕ) where
  digit : Char → Option ℕ
  reads : ∀ n, n < radix → digit (digitChar n) = some n

namespace Digits

variable {radix : ℕ} (digits : Digits radix)

def push (read : ℕ) (c : Char) : Option ℕ := (digits.digit c).map (radix*read+·)

def unsigned : List Char → Option ℕ
  | [] => none
  | text => text.foldlM digits.push 0

theorem push_digitChar (read : ℕ) {n : ℕ} (small : n < radix) :
    digits.push read (digitChar n) = some (radix*read+n) := by
  rw [push,digits.reads n small]
  rfl

theorem foldlM_toDigits (base : 1 < radix) (n : ℕ) : (toDigits radix n).foldlM digits.push 0 = some n := by
  induction n using Nat.strong_induction_on with
  | _ n ih =>
    by_cases small : n < radix
    · rw [Nat.toDigits_of_lt_base small,List.foldlM_cons,digits.push_digitChar 0 small,Nat.mul_zero,Nat.zero_add]
      rfl
    · have last : n % radix < radix := Nat.mod_lt n (by omega)
      rw [Nat.toDigits_of_base_le base (by omega),List.foldlM_append,
        ih (n/radix) (Nat.div_lt_self (by omega) base)]
      change List.foldlM digits.push (n/radix) [digitChar (n % radix)] = some n
      rw [List.foldlM_cons,digits.push_digitChar _ last,Nat.div_add_mod]
      rfl

theorem unsigned_toDigits (base : 1 < radix) (n : ℕ) : digits.unsigned (toDigits radix n) = some n := by
  unfold unsigned
  split
  next none => exact absurd none Nat.toDigits_ne_nil
  next => exact digits.foldlM_toDigits base n

/-- The digits that are written in base 16. -/
def hex : Digits 16 where
  digit c := (List.range 16).find? fun n => digitChar n == c
  reads := by decide

end Digits

end YzFramework.Library
