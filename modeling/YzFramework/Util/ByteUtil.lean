import YzFramework.Library.LittleEndian

/-! `ByteUtil`: numbers as bytes. Shorts, chars and bytes are widened to ints, a char by
zeros and the others by their sign; a byte that is not there is an exception. -/
namespace YzFramework.Util.ByteUtil
open Library.LittleEndian

def getBytesShort (data : BitVec 16) : List Byte :=
  let data := data.signExtend 32
  [(data &&& 0xff#32).setWidth 8,((data &&& 0xff00#32).sshiftRight 8).setWidth 8]

def getBytesChar (data : BitVec 16) : List Byte :=
  let data := data.setWidth 32
  [data.setWidth 8,(data.sshiftRight 8).setWidth 8]

def getBytesInt (data : BitVec 32) : List Byte :=
  [(data &&& 0xff#32).setWidth 8,
    ((data &&& 0xff00#32).sshiftRight 8).setWidth 8,
    ((data &&& 0xff0000#32).sshiftRight 16).setWidth 8,
    ((data &&& 0xff000000#32).sshiftRight 24).setWidth 8]

def getBytesLong (data : BitVec 64) : List Byte :=
  [(data &&& 0xff#64).setWidth 8,
    (data.sshiftRight 8 &&& 0xff#64).setWidth 8,
    (data.sshiftRight 16 &&& 0xff#64).setWidth 8,
    (data.sshiftRight 24 &&& 0xff#64).setWidth 8,
    (data.sshiftRight 32 &&& 0xff#64).setWidth 8,
    (data.sshiftRight 40 &&& 0xff#64).setWidth 8,
    (data.sshiftRight 48 &&& 0xff#64).setWidth 8,
    (data.sshiftRight 56 &&& 0xff#64).setWidth 8]

def getShort (bytes : List Byte) : Option (BitVec 16) := do
  let b0 ← bytes[0]?
  let b1 ← bytes[1]?
  some (((0xff#32 &&& b0.signExtend 32) ||| (0xff00#32 &&& b1.signExtend 32 <<< 8)).setWidth 16)

def getChar (bytes : List Byte) : Option (BitVec 16) := do
  let b0 ← bytes[0]?
  let b1 ← bytes[1]?
  some (((0xff#32 &&& b0.signExtend 32) ||| (0xff00#32 &&& b1.signExtend 32 <<< 8)).setWidth 16)

def getInt (bytes : List Byte) : Option (BitVec 32) := do
  let b0 ← bytes[0]?
  let b1 ← bytes[1]?
  let b2 ← bytes[2]?
  let b3 ← bytes[3]?
  some ((0xff#32 &&& b0.signExtend 32) ||| (0xff00#32 &&& b1.signExtend 32 <<< 8) |||
    (0xff0000#32 &&& b2.signExtend 32 <<< 16) ||| (0xff000000#32 &&& b3.signExtend 32 <<< 24))

def getLong (bytes : List Byte) : Option (BitVec 64) := do
  let b0 ← bytes[0]?
  let b1 ← bytes[1]?
  let b2 ← bytes[2]?
  let b3 ← bytes[3]?
  let b4 ← bytes[4]?
  let b5 ← bytes[5]?
  let b6 ← bytes[6]?
  let b7 ← bytes[7]?
  some ((0xff#64 &&& b0.signExtend 64) ||| (0xff00#64 &&& b1.signExtend 64 <<< 8) |||
    (0xff0000#64 &&& b2.signExtend 64 <<< 16) ||| (0xff000000#64 &&& b3.signExtend 64 <<< 24) |||
    (0xff00000000#64 &&& b4.signExtend 64 <<< 32) ||| (0xff0000000000#64 &&& b5.signExtend 64 <<< 40) |||
    (0xff000000000000#64 &&& b6.signExtend 64 <<< 48) ||| (0xff00000000000000#64 &&& b7.signExtend 64 <<< 56))

theorem getBytesShort_eq (data : BitVec 16) : getBytesShort data = toBytes 2 data := by
  simp (disch := decide) only [getBytesShort,setWidth_eq_byteAt,byteAt_sshiftRight,byteAt_and,byteAt_signExtend]
  rfl

theorem getBytesChar_eq (data : BitVec 16) : getBytesChar data = toBytes 2 data := by
  simp (disch := decide) only [getBytesChar,setWidth_eq_byteAt,byteAt_sshiftRight,byteAt_setWidth]
  rfl

theorem getBytesInt_eq (data : BitVec 32) : getBytesInt data = toBytes 4 data := by
  simp (disch := decide) only [getBytesInt,setWidth_eq_byteAt,byteAt_sshiftRight,byteAt_and]
  rfl

theorem getBytesLong_eq (data : BitVec 64) : getBytesLong data = toBytes 8 data := by
  simp (disch := decide) only [getBytesLong,setWidth_eq_byteAt,byteAt_sshiftRight,byteAt_and]
  rfl

theorem getShort_bytes (b0 b1 : Byte) : ∃ v, getShort [b0,b1] = some v ∧ toBytes 2 v = [b0,b1] := by
  refine ⟨_,rfl,?_⟩
  change [byteAt 0 _,byteAt 8 _] = _
  simp (disch := decide) only [byteAt_setWidth,byteAt_or,byteAt_unshifted,byteAt_placed,byteAt_cleared,
    BitVec.or_zero,BitVec.zero_or]

theorem getInt_bytes (b0 b1 b2 b3 : Byte) :
    ∃ v, getInt [b0,b1,b2,b3] = some v ∧ toBytes 4 v = [b0,b1,b2,b3] := by
  refine ⟨_,rfl,?_⟩
  change [byteAt 0 _,byteAt 8 _,byteAt 16 _,byteAt 24 _] = _
  simp (disch := decide) only [byteAt_or,byteAt_unshifted,byteAt_placed,byteAt_cleared,BitVec.or_zero,BitVec.zero_or]

theorem getLong_bytes (b0 b1 b2 b3 b4 b5 b6 b7 : Byte) :
    ∃ v, getLong [b0,b1,b2,b3,b4,b5,b6,b7] = some v ∧ toBytes 8 v = [b0,b1,b2,b3,b4,b5,b6,b7] := by
  refine ⟨_,rfl,?_⟩
  change [byteAt 0 _,byteAt 8 _,byteAt 16 _,byteAt 24 _,byteAt 32 _,byteAt 40 _,byteAt 48 _,byteAt 56 _] = _
  simp (disch := decide) only [byteAt_or,byteAt_unshifted,byteAt_placed,byteAt_cleared,BitVec.or_zero,BitVec.zero_or]

private theorem inverse_short : Inverse 2 getBytesShort getShort := by
  apply inverse_of_bytes rfl getBytesShort_eq
  intro bytes size
  match bytes, size with
  | [b0,b1],_ => exact getShort_bytes b0 b1

/-- A char is read as a short is. -/
theorem inverse_char : Inverse 2 getBytesChar getChar := by
  apply inverse_of_bytes rfl getBytesChar_eq
  intro bytes size
  match bytes, size with
  | [b0,b1],_ => exact getShort_bytes b0 b1

private theorem inverse_int : Inverse 4 getBytesInt getInt := by
  apply inverse_of_bytes rfl getBytesInt_eq
  intro bytes size
  match bytes, size with
  | [b0,b1,b2,b3],_ => exact getInt_bytes b0 b1 b2 b3

private theorem inverse_long : Inverse 8 getBytesLong getLong := by
  apply inverse_of_bytes rfl getBytesLong_eq
  intro bytes size
  match bytes, size with
  | [b0,b1,b2,b3,b4,b5,b6,b7],_ => exact getLong_bytes b0 b1 b2 b3 b4 b5 b6 b7

/-- Each number comes back from its bytes, and all bytes from their number. -/
theorem codecs_inverse : Inverse 2 getBytesShort getShort ∧ Inverse 2 getBytesChar getChar ∧
    Inverse 4 getBytesInt getInt ∧ Inverse 8 getBytesLong getLong :=
  ⟨inverse_short,inverse_char,inverse_int,inverse_long⟩

end YzFramework.Util.ByteUtil
