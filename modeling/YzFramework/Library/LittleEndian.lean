import Mathlib.Data.BitVec

/-! The bytes of machine words, least significant first: how shifts, masks and widening
conversions take a word apart and put it together. -/
namespace YzFramework.Library.LittleEndian

abbrev Byte := BitVec 8

variable {w : ℕ}

/-- The byte that begins at bit `s`. -/
def byteAt (s : ℕ) (v : BitVec w) : Byte := v.extractLsb' s 8

theorem getLsbD_byteAt (s : ℕ) (v : BitVec w) {i : ℕ} (inside : i < 8) :
    (byteAt s v).getLsbD i = v.getLsbD (s+i) := by
  rw [byteAt,BitVec.getLsbD_extractLsb',decide_eq_true inside,Bool.true_and]

theorem byte_ext {first second : Byte} (bits : ∀ i < 8, first.getLsbD i = second.getLsbD i) : first = second :=
  BitVec.eq_of_getLsbD_eq bits

theorem eq_of_bytes {n : ℕ} (width : w = 8*n) {u v : BitVec w}
    (same : ∀ k < n, byteAt (8*k) u = byteAt (8*k) v) : u = v := by
  apply BitVec.eq_of_getLsbD_eq
  intro i inside
  have small : i % 8 < 8 := Nat.mod_lt _ (by decide)
  have byte := congrArg (·.getLsbD (i % 8)) (same (i/8) (by omega))
  rw [getLsbD_byteAt _ _ small,getLsbD_byteAt _ _ small,Nat.div_add_mod] at byte
  exact byte

theorem byteAt_signExtend (s : ℕ) (v : BitVec w) {wide : ℕ} (low : s+8 ≤ w) (fits : w ≤ wide) :
    byteAt s (v.signExtend wide) = byteAt s v := by
  apply byte_ext
  intro i inside
  rw [getLsbD_byteAt _ _ inside,getLsbD_byteAt _ _ inside,BitVec.getLsbD_signExtend,decide_eq_true (by omega),
    if_pos (by omega),Bool.true_and]

theorem byteAt_setWidth (s : ℕ) (v : BitVec w) {other : ℕ} (low : s+8 ≤ other) :
    byteAt s (v.setWidth other) = byteAt s v := by
  apply byte_ext
  intro i inside
  rw [getLsbD_byteAt _ _ inside,getLsbD_byteAt _ _ inside,BitVec.getLsbD_setWidth,decide_eq_true (by omega),
    Bool.true_and]

theorem byteAt_or (s : ℕ) (u v : BitVec w) : byteAt s (u ||| v) = byteAt s u ||| byteAt s v := by
  apply byte_ext
  intro i inside
  rw [BitVec.getLsbD_or,getLsbD_byteAt _ _ inside,getLsbD_byteAt _ _ inside,getLsbD_byteAt _ _ inside,
    BitVec.getLsbD_or]

theorem setWidth_eq_byteAt (v : BitVec w) : v.setWidth 8 = byteAt 0 v := by
  apply byte_ext
  intro i inside
  rw [getLsbD_byteAt _ _ inside,BitVec.getLsbD_setWidth,decide_eq_true inside,Nat.zero_add,Bool.true_and]

theorem byteAt_sshiftRight (v : BitVec w) {s : ℕ} (low : s+8 ≤ w) : byteAt 0 (v.sshiftRight s) = byteAt s v := by
  apply byte_ext
  intro i inside
  rw [getLsbD_byteAt _ _ inside,getLsbD_byteAt _ _ inside,BitVec.getLsbD_sshiftRight,Nat.zero_add,
    decide_eq_false (by omega),if_pos (by omega)]
  rfl

/-- The mask keeps the byte, and may keep more. -/
def Keeps (mask : BitVec w) (s : ℕ) : Prop := ∀ i < 8, mask.getLsbD (s+i) = true

instance (mask : BitVec w) (s : ℕ) : Decidable (Keeps mask s) := by
  unfold Keeps
  infer_instance

theorem byteAt_and (v mask : BitVec w) {s : ℕ} (keeps : Keeps mask s) : byteAt s (v &&& mask) = byteAt s v := by
  apply byte_ext
  intro i inside
  rw [getLsbD_byteAt _ _ inside,getLsbD_byteAt _ _ inside,BitVec.getLsbD_and,keeps i inside,Bool.and_true]

/-- What the mask keeps of a widened byte in its place is that byte, whatever its sign. -/
theorem byteAt_placed (byte : Byte) (mask : BitVec w) {s : ℕ} (low : s+8 ≤ w) (keeps : Keeps mask s) :
    byteAt s (mask &&& byte.signExtend w <<< s) = byte := by
  apply byte_ext
  intro i inside
  rw [getLsbD_byteAt _ _ inside,BitVec.getLsbD_and,keeps i inside,Bool.true_and,BitVec.getLsbD_shiftLeft,
    decide_eq_true (by omega),decide_eq_false (by omega),Nat.add_sub_cancel_left,BitVec.getLsbD_signExtend,
    decide_eq_true (by omega),if_pos inside]
  rfl

theorem byteAt_unshifted (byte : Byte) (mask : BitVec w) (low : 8 ≤ w) (keeps : Keeps mask 0) :
    byteAt 0 (mask &&& byte.signExtend w) = byte := by
  have placed := byteAt_placed byte mask (s := 0) (by omega) keeps
  rwa [BitVec.shiftLeft_zero] at placed

/-- The mask has no bit of the byte. -/
def Clears (mask : BitVec w) (s : ℕ) : Prop := ∀ i < 8, mask.getLsbD (s+i) = false

instance (mask : BitVec w) (s : ℕ) : Decidable (Clears mask s) := by
  unfold Clears
  infer_instance

theorem byteAt_cleared (v mask : BitVec w) {s : ℕ} (clears : Clears mask s) : byteAt s (mask &&& v) = 0#8 := by
  apply byte_ext
  intro i inside
  rw [getLsbD_byteAt _ _ inside,BitVec.getLsbD_and,clears i inside,Bool.false_and]
  exact BitVec.getLsbD_zero.symm

def toBytes (n : ℕ) (v : BitVec w) : List Byte := (List.range n).map fun k => byteAt (8*k) v

/-- The two directions of a codec for words of `n` bytes. -/
structure Inverse (n : ℕ) (encode : BitVec w → List Byte) (decode : List Byte → Option (BitVec w)) : Prop where
  bytes : ∀ v, encode v = toBytes n v
  decoded : ∀ v, decode (encode v) = some v
  encoded : ∀ bytes : List Byte, bytes.length = n → ∃ v, decode bytes = some v ∧ encode v = bytes

theorem inverse_of_bytes {n : ℕ} (width : w = 8*n) {encode : BitVec w → List Byte}
    {decode : List Byte → Option (BitVec w)} (bytes : ∀ v, encode v = toBytes n v)
    (reads : ∀ bytes : List Byte, bytes.length = n → ∃ v, decode bytes = some v ∧ toBytes n v = bytes) :
    Inverse n encode decode where
  bytes := bytes
  decoded v := by
    obtain ⟨u,read,same⟩ := reads (encode v) (by rw [bytes,toBytes,List.length_map,List.length_range])
    have whole : u = v := by
      apply eq_of_bytes width
      intro k inside
      rw [bytes v] at same
      exact List.map_inj_left.mp same k (List.mem_range.mpr inside)
    rw [read,whole]
  encoded list size := by
    obtain ⟨v,read,same⟩ := reads list size
    exact ⟨v,read,(bytes v).trans same⟩

end YzFramework.Library.LittleEndian
