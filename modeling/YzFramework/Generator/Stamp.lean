import YzFramework.Library.Word

/-! The common layout of snowflake identifiers: 41 bits of elapsed milliseconds,
10 bits of node and 12 bits of sequence. The abstract identifier is the integer
that orders first by time and then by sequence. -/
namespace YzFramework.Generator
open Library.Word

def InRange (epoch reading : Long) : Prop :=
  epoch.toInt ≤ reading.toInt ∧ reading.toInt < epoch.toInt + 2^41

/-- The number a time, a node and a sequence stand for. -/
def mark (elapsed : ℤ) (node sequence : ℕ) : ℤ := elapsed * 2^22 + node * 2^12 + sequence

theorem mark_later {elapsed later : ℤ} (node : ℕ) {sequence : ℕ} (next : ℕ)
    (small : sequence < 2^12) (passed : elapsed < later) :
    mark elapsed node sequence < mark later node next := by
  unfold mark
  omega

theorem mark_next (elapsed : ℤ) (node : ℕ) {sequence next : ℕ} (raised : sequence < next) :
    mark elapsed node sequence < mark elapsed node next := by
  unfold mark
  omega

theorem elapsed_toNat {epoch reading : Long} (inRange : InRange epoch reading) :
    ((reading - epoch).toNat : ℤ) = reading.toInt - epoch.toInt ∧ (reading - epoch).toNat < 2^41 := by
  have exact := distance_toNat reading epoch inRange.1
  have below := inRange.2
  exact ⟨exact,by omega⟩

theorem elapsed_field {epoch reading : Long} (inRange : InRange epoch reading) :
    ((reading - epoch) <<< 22).toNat = (reading - epoch).toNat * 2^22 := by
  have small := (elapsed_toNat inRange).2
  exact shifted_toNat _ 22 (by omega)

theorem fields_toNat {epoch reading sequence : Long} (node : Long) (inRange : InRange epoch reading)
    (nodeFits : node.toNat < 2^22) (nodeAligned : 2^12 ∣ node.toNat)
    (sequenceFits : sequence.toNat < 2^12) :
    ((reading - epoch) <<< 22 ||| node ||| sequence).toNat =
      (reading - epoch).toNat * 2^22 + node.toNat + sequence.toNat := by
  have upper : ((reading - epoch) <<< 22 ||| node).toNat =
      (reading - epoch).toNat * 2^22 + node.toNat := by
    rw [or_aligned_toNat _ _ 22 (by rw [elapsed_field inRange]; exact Nat.dvd_mul_left _ _) nodeFits,
      elapsed_field inRange]
  have aligned : 2^12 ∣ ((reading - epoch) <<< 22 ||| node).toNat := by
    rw [upper]
    exact Nat.dvd_add (Dvd.dvd.mul_left (by decide) _) nodeAligned
  rw [or_aligned_toNat _ _ 12 aligned sequenceFits,upper]

theorem toInt_of_fields {epoch reading id : Long} {node sequence : ℕ}
    (inRange : InRange epoch reading) (nodeFits : node < 2^10) (sequenceFits : sequence < 2^12)
    (layout : id.toNat = (reading - epoch).toNat * 2^22 + node * 2^12 + sequence) :
    id.toInt = mark (reading.toInt - epoch.toInt) node sequence := by
  obtain ⟨exact,small⟩ := elapsed_toNat inRange
  rw [toInt_of_small id (by omega),layout,mark,← exact]
  push_cast
  ring

theorem counted_masked (sequence : Long) {mask : Long} (ones : mask.toNat = 2^12-1) :
    ((sequence + 1) &&& mask).toNat = (sequence.toNat + 1) % 2^12 := by
  rw [masked_toNat _ _ 12 ones,BitVec.toNat_add]
  simp only [show (1 : Long).toNat = 1 by decide]
  omega

theorem five_bits {value : Long} (accepted : ¬ ((31 : Long).slt value || value.slt 0) = true) :
    value.toNat < 2^5 := by
  rw [Bool.or_eq_true,not_or,not_slt,not_slt,BitVec.toInt_eq_toNat_cond] at accepted
  have := value.isLt
  have low : (31 : Long).toInt = 31 := by decide
  have zero : (0 : Long).toInt = 0 := by decide
  split at accepted <;> omega

/-- For any time: the elapsed milliseconds count by their lowest 42 bits, read as signed. -/
theorem fields_toInt (elapsed : Long) {node sequence : Long} (nodeFits : node.toNat < 2^22)
    (nodeAligned : 2^12 ∣ node.toNat) (sequenceFits : sequence.toNat < 2^12) :
    (elapsed <<< 22 ||| node ||| sequence).toInt =
      (elapsed.setWidth 42).toInt * 2^22 + node.toNat + sequence.toNat := by
  have high : (elapsed <<< 22).toNat = elapsed.toNat % 2^42 * 2^22 := by
    rw [BitVec.toNat_shiftLeft,Nat.shiftLeft_eq,show 2^64 = 2^42 * 2^22 by decide,
      Nat.mul_mod_mul_right]
  have upper : (elapsed <<< 22 ||| node).toNat = elapsed.toNat % 2^42 * 2^22 + node.toNat := by
    rw [or_aligned_toNat _ _ 22 (by rw [high]; exact Nat.dvd_mul_left _ _) nodeFits,high]
  have aligned : 2^12 ∣ (elapsed <<< 22 ||| node).toNat := by
    rw [upper]
    exact Nat.dvd_add (Dvd.dvd.mul_left (by decide) _) nodeAligned
  have layout := or_aligned_toNat (elapsed <<< 22 ||| node) sequence 12 aligned sequenceFits
  have small : elapsed.toNat % 2^42 < 2^42 := Nat.mod_lt _ (by decide)
  have room : node.toNat + sequence.toNat < 2^22 := by
    obtain ⟨factor,exact⟩ := nodeAligned
    omega
  rw [BitVec.toInt_eq_toNat_cond,BitVec.toInt_eq_toNat_cond,BitVec.toNat_setWidth,layout,upper]
  split <;> split <;> omega

end YzFramework.Generator
