import Mathlib.Data.Int.Basic
import YzFramework.Library.ByteStream

/-! The readers of a whole file in `FileUtil`. A file that is missing is `none`; each
read of its streams may give less than it asks for. -/
namespace YzFramework.Util.FileReaders
open Library Library.ByteStream

inductive Reading
  | returned (bytes : List UInt8)
  | null
  | thrown
deriving DecidableEq

def MAX_VALUE : ℕ := 2147483647

/-- A file length as an `int`. -/
def toInt (length : ℕ) : ℤ :=
  if length % 4294967296 < 2147483648 then ((length % 4294967296 : ℕ) : ℤ)
  else ((length % 4294967296 : ℕ) : ℤ)-4294967296

variable (file : Option (List UInt8)) (willing : ℕ → ℕ)

def getContent : Reading :=
  match file with
  | none => .thrown
  | some bytes =>
    if MAX_VALUE < bytes.length then .null
    else
      let (offset,buffer) := fill ⟨bytes,willing,0⟩ 0 (List.replicate bytes.length 0)
      if offset ≠ buffer.length then .thrown else .returned buffer

/-- The output starts with room for the length as an `int`. -/
def toByteArray : Reading :=
  match file with
  | none => .thrown
  | some bytes =>
    if toInt bytes.length < 0 then .thrown
    else
      let out := copy ⟨bytes,willing,0⟩ 1024 kilobyte_pos (List.replicate 1024 0) []
      if MAX_VALUE < out.length then .thrown else .returned out

/-- The loop that would read is a comment. -/
def toByteArray2 : Reading :=
  match file with
  | none => .thrown
  | some bytes =>
    if toInt bytes.length < 0 then .thrown
    else .returned (List.replicate (toInt bytes.length).toNat 0)

def toByteArray3 : Reading :=
  match file with
  | none => .thrown
  | some bytes =>
    if MAX_VALUE < bytes.length then .thrown
    else
      let result := List.replicate (toInt bytes.length).toNat 0
      .returned (if 0 < bytes.length then store result 0 bytes else result)

variable {file willing} {bytes : List UInt8}

theorem toInt_small (small : bytes.length < 2147483648) : toInt bytes.length = bytes.length := by
  rw [toInt,Nat.mod_eq_of_lt (by omega),if_pos small]

theorem getContent_eq (willing : ℕ → ℕ) (small : bytes.length < 2147483648) :
    getContent (some bytes) willing = .returned bytes := by
  have filled := fill_eq (⟨bytes,willing,0⟩ : ByteStream UInt8) 0 (List.replicate bytes.length 0) (by simp)
  rw [List.take_zero,List.nil_append,List.length_replicate] at filled
  rw [getContent,if_neg (by rw [MAX_VALUE]; omega),filled]
  exact if_neg (not_not.mpr rfl)

theorem toByteArray_eq (willing : ℕ → ℕ) (small : bytes.length < 2147483648) :
    toByteArray (some bytes) willing = .returned bytes := by
  have copied := copy_eq (⟨bytes,willing,0⟩ : ByteStream UInt8) 1024 kilobyte_pos
    (List.length_replicate (a := 0)) []
  rw [List.nil_append] at copied
  rw [toByteArray,toInt_small small,if_neg (by omega),copied]
  have fits : ¬ MAX_VALUE < bytes.length := by
    rw [MAX_VALUE]
    omega
  exact if_neg fits

theorem toByteArray2_eq (small : bytes.length < 2147483648) :
    toByteArray2 (some bytes) = .returned (List.replicate bytes.length 0) := by
  rw [toByteArray2,toInt_small small,if_neg (by omega),Int.toNat_natCast]

theorem toByteArray3_eq (small : bytes.length < 2147483648) :
    toByteArray3 (some bytes) = .returned bytes := by
  rw [toByteArray3,toInt_small small,if_neg (by rw [MAX_VALUE]; omega),Int.toNat_natCast]
  cases bytes with
  | nil => rfl
  | cons first rest =>
    have stored := @store_take _ (List.replicate (first::rest).length 0) (first::rest) 0 (by simp)
    have whole := @store_length _ (List.replicate (first::rest).length 0) (first::rest) 0 (by simp)
    rw [Nat.zero_add,List.take_zero,List.nil_append,List.take_of_length_le (by rw [whole]; simp)] at stored
    exact congrArg Reading.returned ((if_pos (by simp)).trans stored)

def Agree (bytes : List UInt8) (first second : ℕ → ℕ) : Prop :=
  getContent (some bytes) first = .returned bytes ∧ toByteArray (some bytes) second = .returned bytes ∧
    toByteArray2 (some bytes) = .returned bytes ∧ toByteArray3 (some bytes) = .returned bytes

theorem readers_agree_iff (bytes : List UInt8) (small : bytes.length < 2147483648) (first second : ℕ → ℕ) :
    Agree bytes first second ↔ ∀ byte ∈ bytes, byte = 0 := by
  rw [Agree,getContent_eq first small,toByteArray_eq second small,toByteArray2_eq small,toByteArray3_eq small]
  constructor
  · rintro ⟨_,_,zeros,_⟩
    exact (List.eq_replicate_iff.mp (Reading.returned.inj zeros).symm).2
  · intro zeros
    rw [← List.eq_replicate_iff.mpr ⟨rfl,zeros⟩]
    exact ⟨rfl,rfl,rfl,rfl⟩

theorem readers_agree_iff_zeros : Agree [0,0] (fun _ => 1) (fun _ => 1) ↔ ∀ byte ∈ ([0,0] : List UInt8), byte = 0 :=
  readers_agree_iff [0,0] (by decide) _ _

theorem agree_fails : ¬ Agree [1] (fun _ => 1) (fun _ => 1) := by
  rintro ⟨_,_,second,_⟩
  exact absurd second (by decide)

end YzFramework.Util.FileReaders
