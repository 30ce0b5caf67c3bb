import YzFramework.Library.Word
import Mathlib.Data.BitVec
import Mathlib.Algebra.Order.Ring.Nat

/-! `CommonUtil`: whole numbers in the bases 16, 8 and 2. `none` is an index outside an
array; an int is widened to a long by its sign. -/
namespace YzFramework.Util.CommonUtil
open Library Library.Word
open Nat (toDigits digitChar)

def CHAR_ARRAY : List Char := ['0','1','2','3','4','5','6','7','8','9','A','B','C','D','E','F']

/-- The loop from a position of the buffer down, with the mask for one digit. -/
def writeDigits (shifts : ℕ) (value : BitVec 32) : ℕ → Long → List Char → Option (ℕ × List Char)
  | 0,_,_ => none
  | charPosition+1,tmpNums,chs => do
    let digit ← CHAR_ARRAY[((tmpNums &&& value.signExtend 64).setWidth 32).toNat]?
    let chs := chs.set charPosition digit
    let tmpNums := tmpNums >>> shifts
    if (0#64).slt tmpNums then writeDigits shifts value charPosition tmpNums chs else some (charPosition,chs)

def toUnsignedString (nums : Long) (shifts : ℕ) : Option (List Char) := do
  let radix := 1#32 <<< shifts
  let (charPosition,chs) ← writeDigits shifts (radix-1) 64 nums (List.replicate 64 '\x00')
  some ((chs.drop charPosition).take (64-charPosition))

def toHexString (nums : Long) : Option (List Char) := toUnsignedString nums 4
def toOctalString (nums : Long) : Option (List Char) := toUnsignedString nums 3
def toBinaryString (nums : Long) : Option (List Char) := toUnsignedString nums 1

def toHexStringInt (nums : BitVec 32) : Option (List Char) := toUnsignedString (nums.signExtend 64) 4
def toOctalStringInt (nums : BitVec 32) : Option (List Char) := toUnsignedString (nums.signExtend 64) 3
def toBinaryStringInt (nums : BitVec 32) : Option (List Char) := toUnsignedString (nums.signExtend 64) 1

/-- The numeral of a number, with capitals for the digits above nine. -/
def numeral (radix n : ℕ) : List Char := (toDigits radix n).map Char.toUpper

theorem numeral_length_le_iff {radix k : ℕ} (base : 2 ≤ radix) (positive : 0 < k) (n : ℕ) :
    (numeral radix n).length ≤ k ↔ n < radix^k := by
  rw [numeral,List.length_map]
  exact Nat.length_toDigits_le_iff base positive

private theorem charArray_digit {d : ℕ} (small : d < 16) : CHAR_ARRAY[d]? = some (digitChar d).toUpper := by
  revert d
  decide

theorem numeral_small {radix n : ℕ} (small : n < radix) : numeral radix n = [(digitChar n).toUpper] := by
  rw [numeral,Nat.toDigits_of_lt_base small]
  rfl

theorem numeral_step {radix n : ℕ} (base : 2 ≤ radix) (large : radix ≤ n) :
    numeral radix n = numeral radix (n/radix) ++ [(digitChar (n % radix)).toUpper] := by
  rw [numeral,Nat.toDigits_of_base_le base large,List.map_append]
  rfl

/-- The mask for the digits of a base that is a power of two. -/
structure Mask (shifts : ℕ) (value : BitVec 32) : Prop where
  some : 1 ≤ shifts
  small : shifts ≤ 4
  ones : value.toNat = 2^shifts-1

theorem Mask.digit {shifts : ℕ} {value : BitVec 32} (mask : Mask shifts value) (nums : Long) :
    CHAR_ARRAY[((nums &&& value.signExtend 64).setWidth 32).toNat]? =
      Option.some (digitChar (nums.toNat % 2^shifts)).toUpper := by
  have bound : 2^shifts ≤ 2^4 := Nat.pow_le_pow_right (by decide) mask.small
  have small : nums.toNat % 2^shifts < 2^shifts := Nat.mod_lt _ (Nat.two_pow_pos _)
  have positive : value.msb = false := by
    rw [BitVec.msb_eq_false_iff_two_mul_lt,mask.ones]
    omega
  have ones : (value.signExtend 64).toNat = 2^shifts-1 := by
    rw [BitVec.signExtend_eq_setWidth_of_msb_false positive,BitVec.toNat_setWidth,mask.ones]
    omega
  rw [BitVec.toNat_setWidth,masked_toNat nums _ shifts ones,Nat.mod_eq_of_lt (by omega)]
  exact charArray_digit (by omega)

/-- What is left after a digit is positive as a long until nothing is left. -/
theorem positive_iff {shifts : ℕ} (some : 1 ≤ shifts) (nums : Long) :
    (0#64).slt (nums >>> shifts) = true ↔ 2^shifts ≤ nums.toNat := by
  have rest : (nums >>> shifts).toNat = nums.toNat/2^shifts := shifted_right_toNat nums shifts
  have half : 2^1 ≤ 2^shifts := Nat.pow_le_pow_right (by decide) some
  have less : nums.toNat/2^shifts ≤ nums.toNat/2 := Nat.div_le_div_left half (by decide)
  have whole := nums.isLt
  rw [BitVec.slt_iff_toInt_lt,BitVec.toInt_zero,toInt_of_small _ (by omega),rest,Int.natCast_pos,
    Nat.div_pos_iff]
  have positive := Nat.two_pow_pos shifts
  omega

theorem writeDigits_eq {shifts : ℕ} {value : BitVec 32} (mask : Mask shifts value) {charPosition : ℕ}
    (nums : Long) (chs : List Char) (room : 0 < charPosition) (fits : nums.toNat < (2^shifts)^charPosition)
    (size : charPosition ≤ chs.length) :
    ∃ first after, writeDigits shifts value charPosition nums chs = some (first,after) ∧
      after.length = chs.length ∧ after.drop first = numeral (2^shifts) nums.toNat ++ chs.drop charPosition := by
  induction charPosition generalizing nums chs with
  | zero => contradiction
  | succ charPosition ih =>
    have base : 2 ≤ 2^shifts := Nat.le_self_pow (Nat.one_le_iff_ne_zero.mp mask.some) 2
    have rest : (nums >>> shifts).toNat = nums.toNat/2^shifts := shifted_right_toNat nums shifts
    obtain ⟨buffer,written⟩ : ∃ buffer, buffer = chs.set charPosition (digitChar (nums.toNat % 2^shifts)).toUpper :=
      ⟨_,rfl⟩
    have length : buffer.length = chs.length := by rw [written,List.length_set]
    have ends : buffer.drop charPosition =
        (digitChar (nums.toNat % 2^shifts)).toUpper::chs.drop (charPosition+1) := by
      rw [written,List.drop_eq_getElem_cons (by rw [List.length_set]; omega),List.getElem_set_self,
        List.drop_set_of_lt (Nat.lt_succ_self _)]
    rw [writeDigits,mask.digit]
    by_cases more : 2^shifts ≤ nums.toNat
    · have below : nums.toNat/2^shifts < (2^shifts)^charPosition := by
        rw [Nat.div_lt_iff_lt_mul (Nat.two_pow_pos _),← Nat.pow_succ]
        exact fits
      have above : 0 < charPosition := by
        rcases Nat.eq_zero_or_pos charPosition with rfl | positive
        · rw [Nat.zero_add,Nat.pow_one] at fits
          omega
        · exact positive
      obtain ⟨first,after,done,same,tail⟩ := ih (nums >>> shifts) buffer above (rest ▸ below)
        (by omega)
      refine ⟨first,after,?_,same.trans length,?_⟩
      · rw [Option.bind_eq_bind,Option.bind_some,← written,if_pos ((positive_iff mask.some nums).mpr more),done]
      · rw [tail,ends,rest,numeral_step base more,List.append_assoc]
        rfl
    · refine ⟨charPosition,buffer,?_,length,?_⟩
      · rw [Option.bind_eq_bind,Option.bind_some,← written,if_neg (mt (positive_iff mask.some nums).mp more)]
      · rw [ends,numeral_small (by omega),Nat.mod_eq_of_lt (by omega)]
        rfl

theorem toUnsignedString_eq {shifts : ℕ} (mask : Mask shifts (1#32 <<< shifts-1)) (nums : Long) :
    toUnsignedString nums shifts = some (numeral (2^shifts) nums.toNat) := by
  have wide : 2^64 ≤ (2^shifts)^64 := Nat.pow_le_pow_left (Nat.le_self_pow (Nat.one_le_iff_ne_zero.mp mask.some) 2) 64
  obtain ⟨first,after,done,length,tail⟩ := writeDigits_eq mask nums (List.replicate 64 '\x00') (by decide)
    (Nat.lt_of_lt_of_le nums.isLt wide) (by rw [List.length_replicate])
  rw [List.length_replicate] at length
  rw [List.drop_replicate,Nat.sub_self,List.replicate_zero,List.append_nil] at tail
  have size : (after.drop first).length = 64-first := by rw [List.length_drop,length]
  rw [toUnsignedString]
  dsimp only
  rw [done,Option.bind_eq_bind,Option.bind_some]
  dsimp only
  rw [← size,List.take_length,tail]

theorem toHexString_eq (nums : Long) : toHexString nums = some (numeral 16 nums.toNat) :=
  toUnsignedString_eq ⟨by decide,by decide,by decide⟩ nums

theorem toOctalString_eq (nums : Long) : toOctalString nums = some (numeral 8 nums.toNat) :=
  toUnsignedString_eq ⟨by decide,by decide,by decide⟩ nums

theorem toBinaryString_eq (nums : Long) : toBinaryString nums = some (numeral 2 nums.toNat) :=
  toUnsignedString_eq ⟨by decide,by decide,by decide⟩ nums

/-- The numeral of a widened int is its own unless the sign was spread. -/
theorem widened_iff (radix k : ℕ) (base : 2 ≤ radix) (low : 2^32 ≤ radix^k) (high : radix^k ≤ 2^63) (nums : BitVec 32) :
    some (numeral radix (nums.signExtend 64).toNat) = some (numeral radix nums.toNat) ↔ 0 ≤ nums.toInt := by
  have short := nums.isLt
  have positive : 0 < k := by
    rcases Nat.eq_zero_or_pos k with rfl | positive
    · rw [Nat.pow_zero] at low
      omega
    · exact positive
  by_cases negative : nums.msb = true
  · have below : nums.toInt < 0 := BitVec.toInt_neg_of_msb_true negative
    have above : 2^63 ≤ (nums.signExtend 64).toNat := by
      rw [BitVec.toNat_signExtend,if_pos negative,BitVec.toNat_setWidth]
      omega
    refine ⟨fun same => ?_,fun nonneg => absurd nonneg (not_le.mpr below)⟩
    have fits := (numeral_length_le_iff base positive nums.toNat).mpr (by omega)
    rw [← Option.some.inj same,numeral_length_le_iff base positive] at fits
    omega
  · rw [Bool.not_eq_true] at negative
    have whole : (nums.signExtend 64).toNat = nums.toNat := by
      rw [BitVec.signExtend_eq_setWidth_of_msb_false negative,BitVec.toNat_setWidth]
      omega
    rw [whole]
    exact ⟨fun _ => by rw [BitVec.toInt_eq_toNat_of_msb negative]; exact Int.natCast_nonneg _,fun _ => rfl⟩

/-- Longs are converted as unsigned numbers; ints are so only where they are not negative. -/
theorem unsigned_digits (long : Long) (int : BitVec 32) :
    (toHexString long = some (numeral 16 long.toNat) ∧ toOctalString long = some (numeral 8 long.toNat) ∧
      toBinaryString long = some (numeral 2 long.toNat)) ∧
    (toHexStringInt int = some (numeral 16 int.toNat) ↔ 0 ≤ int.toInt) ∧
    (toOctalStringInt int = some (numeral 8 int.toNat) ↔ 0 ≤ int.toInt) ∧
    (toBinaryStringInt int = some (numeral 2 int.toNat) ↔ 0 ≤ int.toInt) := by
  refine ⟨⟨toHexString_eq long,toOctalString_eq long,toBinaryString_eq long⟩,?_,?_,?_⟩
  · rw [← widened_iff 16 8 (by decide) (by decide) (by decide) int]
    exact Eq.congr_left (toHexString_eq _)
  · rw [← widened_iff 8 11 (by decide) (by decide) (by decide) int]
    exact Eq.congr_left (toOctalString_eq _)
  · rw [← widened_iff 2 32 (by decide) (by decide) (by decide) int]
    exact Eq.congr_left (toBinaryString_eq _)

/-- The sign of -1 is spread over sixteen digits. -/
theorem toHexStringInt_fails : ¬ ∀ nums : BitVec 32, toHexStringInt nums = some (numeral 16 nums.toNat) := by
  intro all
  have spread : toHexStringInt (-1) = some (List.replicate 16 'F') := by decide +kernel
  have digits := Option.some.inj (spread.symm.trans (all (-1)))
  exact absurd digits (by decide +kernel)

end YzFramework.Util.CommonUtil
