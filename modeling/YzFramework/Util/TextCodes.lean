import Mathlib.Data.BitVec
import YzFramework.Library.Code
import YzFramework.Library.Properties
import YzFramework.Library.Word

/-! Texts that stand for others: `StringUtil.string2Json`, which makes a text fit between
the quotes of a JSON string, and the digits of bytes by `CommonUtil.bytesToHexString`,
`Encodes.bytes2String` and `Encodes.decodeHex`. -/
namespace YzFramework.Util.TextCodes
open Library Library.Code Library.Properties

/-- What `string2Json` appends for a character. -/
def appended (c : UInt16) : Text :=
  if c = unit '"' then [backslash,unit '"']
  else if c = backslash then [backslash,backslash]
  else if c = unit '/' then [backslash,unit '/']
  else if c = 0x08 then [backslash,unit 'b']
  else if c = 0x0C then [backslash,unit 'f']
  else if c = unit '\n' then [backslash,unit 'n']
  else if c = unit '\r' then [backslash,unit 'r']
  else if c = unit '\t' then [backslash,unit 't']
  else [c]

def string2Json (s : Text) : Text := s.flatMap appended

/-- The character that a letter stands for behind a backslash, in JSON. -/
def escaped (v : UInt16) : Option UInt16 :=
  if v = unit '"' ∨ v = backslash ∨ v = unit '/' then some v
  else if v = unit 'b' then some 0x08
  else if v = unit 'f' then some 0x0C
  else if v = unit 'n' then some (unit '\n')
  else if v = unit 'r' then some (unit '\r')
  else if v = unit 't' then some (unit '\t')
  else none

/-- The next character of a JSON string; a control character does not stand for itself. -/
def nextCharacter : Text → Option (UInt16 × Text)
  | [] => none
  | u::rest =>
    if u = unit '"' then none
    else if u = backslash then
      match rest with
      | [] => none
      | v::others =>
        if v = unit 'u' then
          match others with
          | a::b::c::d::more => (hexadecimal [a,b,c,d]).map fun code => (code,more)
          | _ => none
        else (escaped v).map fun character => (character,others)
    else if u < 0x20 then none
    else some (u,rest)

/-- A JSON string from behind its first quote, with what follows its last one. -/
def readString (text : Text) : Option (Text × Text) :=
  match read nextCharacter text with
  | (_,[]) => none
  | (characters,u::rest) => if u = unit '"' then some (characters,rest) else none

/-- No control character but those that have a letter of their own. -/
def Written (c : UInt16) : Prop := 0x20 ≤ c ∨ c = 0x08 ∨ c = 0x0C ∨ c = unit '\n' ∨ c = unit '\r' ∨ c = unit '\t'

instance (c : UInt16) : Decidable (Written c) := inferInstanceAs (Decidable (_ ∨ _))

private theorem not_written {c : UInt16} (control : ¬ Written c) :
    c < 0x20 ∧ c ≠ 0x08 ∧ c ≠ 0x0C ∧ c ≠ unit '\n' ∧ c ≠ unit '\r' ∧ c ≠ unit '\t' := by
  simpa only [Written,not_or,UInt16.not_le] using control

theorem nextCharacter_self {c : UInt16} (quote : c ≠ unit '"') (plain : c ≠ backslash) (rest : Text) :
    nextCharacter (c::rest) = if c < 0x20 then none else some (c,rest) := by
  rw [nextCharacter.eq_def]
  simp only [if_neg quote,if_neg plain]

theorem nextCharacter_appended {c : UInt16} (written : Written c) (rest : Text) :
    nextCharacter (appended c++rest) = some (c,rest) := by
  unfold appended
  split
  · next same => subst same; rfl
  split
  · next same => subst same; rfl
  split
  · next same => subst same; rfl
  split
  · next same => subst same; rfl
  split
  · next same => subst same; rfl
  split
  · next same => subst same; rfl
  split
  · next same => subst same; rfl
  split
  · next same => subst same; rfl
  next quote plain slash backspace formFeed newline carriageReturn tab =>
    have printable : ¬ c < 0x20 := by
      rcases written with printable | same | same | same | same | same
      · exact UInt16.not_lt.mpr printable
      · exact absurd same backspace
      · exact absurd same formFeed
      · exact absurd same newline
      · exact absurd same carriageReturn
      · exact absurd same tab
    rw [List.singleton_append,nextCharacter_self quote plain,if_neg printable]

theorem nextCharacter_control {c : UInt16} (control : ¬ Written c) (rest : Text) :
    nextCharacter (appended c++rest) = none ∧ appended c++rest = c::rest ∧ c ≠ unit '"' := by
  obtain ⟨low,backspace,formFeed,newline,carriageReturn,tab⟩ := not_written control
  have quote : c ≠ unit '"' := by
    rintro rfl
    exact absurd low (by decide)
  have plain : c ≠ backslash := by
    rintro rfl
    exact absurd low (by decide)
  have slash : c ≠ unit '/' := by
    rintro rfl
    exact absurd low (by decide)
  have alone : appended c++rest = c::rest := by
    simp only [appended,if_neg quote,if_neg plain,if_neg slash,if_neg backspace,if_neg formFeed,if_neg newline,
      if_neg carriageReturn,if_neg tab,List.singleton_append]
  refine ⟨?_,alone,quote⟩
  rw [alone,nextCharacter_self quote plain,if_pos low]

theorem readString_written {s : Text} (written : ∀ c ∈ s, Written c) (rest : Text) :
    readString (string2Json s++unit '"'::rest) = some (s,rest) := by
  have reads : read nextCharacter (string2Json s++unit '"'::rest) = (s,unit '"'::rest) :=
    read_encode (fun c inside => nextCharacter_appended (written c inside)) rfl
  rw [readString,reads]
  rfl

theorem readString_control {before : Text} (written : ∀ c ∈ before, Written c) {bad : UInt16}
    (control : ¬ Written bad) (after rest : Text) :
    readString (string2Json (before++bad::after)++rest) = none := by
  obtain ⟨stops,alone,quote⟩ := nextCharacter_control control (string2Json after++rest)
  have reads : read nextCharacter (string2Json (before++bad::after)++rest) = (before,bad::(string2Json after++rest)) := by
    rw [← alone,string2Json,List.flatMap_append,List.flatMap_cons,List.append_assoc,List.append_assoc]
    exact read_encode (fun c inside => nextCharacter_appended (written c inside)) stops
  rw [readString,reads]
  exact if_neg quote

/-- The text between quotes is read as what it was made of, up to the quote behind it and
whatever follows; with any other control character it is no JSON string. -/
theorem readString_string2Json (s rest : Text) :
    (readString (string2Json s++unit '"'::rest) = some (s,rest) ↔ ∀ c ∈ s, Written c) ∧
      (readString (string2Json s++unit '"'::rest) = none ↔ ∃ c ∈ s, ¬ Written c) := by
  rcases all_or_first s with written | ⟨before,bad,after,rfl,written,control⟩
  · rw [readString_written written]
    exact ⟨iff_of_true rfl written,iff_of_false (by simp) fun ⟨c,inside,fails⟩ => fails (written c inside)⟩
  · rw [readString_control written control]
    have inside : bad ∈ before++bad::after := by simp
    exact ⟨iff_of_false (by simp) fun all => control (all bad inside),iff_of_true rfl ⟨bad,inside,control⟩⟩

example : readString (string2Json (units "\\A1;\"/\n")++units "\",1]") = some (units "\\A1;\"/\n",units ",1]") := by
  decide

abbrev Byte := BitVec 8

/-- The text that `CommonUtil` appends for a byte, with `Integer.toHexString`. -/
def hexText (byitem : Byte) : List Char :=
  let thv := Nat.toDigits 16 (byitem.signExtend 32 &&& 0xFF).toNat
  if thv.length < 2 then '0'::thv else thv

/-- A null array gives the empty text here and in `bytes2String`. -/
def bytesToHexString (bytes : Option (List Byte)) : List Char := (bytes.getD []).flatMap hexText

def HEX_DIGEST : List Char := "0123456789abcdef".toList

/-- `none` is an index outside the digits. -/
def byte2String (b : Byte) : Option (List Char) := do
  let high ← HEX_DIGEST[((b.signExtend 32 >>> 4) &&& 0x0f).toNat]?
  let low ← HEX_DIGEST[(b.signExtend 32 &&& 0x0f).toNat]?
  some [high,low]

def bytes2String (bytes : Option (List Byte)) : Option (List Char) :=
  ((bytes.getD []).mapM byte2String).map List.flatten

/-- What is relied on of Commons Codec's `Hex.decodeHex`: two digits represent a byte. -/
structure HexCodec (hex : List Char → Option (List Byte)) : Prop where
  nil : hex [] = some []
  pair : ∀ high low, high < 16 → low < 16 → ∀ rest,
    hex (Nat.digitChar high::Nat.digitChar low::rest) = (hex rest).map (BitVec.ofNat 8 (16*high+low)::·)

/-- The exception of `Hex.decodeHex`, its `none`, is caught, and null given back. -/
def decodeHex (hex : List Char → Option (List Byte)) (input : List Char) : Option (List Byte) := hex input

theorem hexText_digits (b : Byte) :
    hexText b = [Nat.digitChar (b.toNat/16),Nat.digitChar (b.toNat%16)] ∧ byte2String b = some (hexText b) := by
  revert b
  decide +kernel

theorem bytes2String_eq (bytes : Option (List Byte)) : bytes2String bytes = some (bytesToHexString bytes) := by
  have each : ∀ bytes : List Byte, bytes.mapM byte2String = some (bytes.map hexText) := by
    intro bytes
    induction bytes with
    | nil => rfl
    | cons b bytes ih => rw [List.mapM_cons,(hexText_digits b).2,ih]; rfl
  rw [bytes2String,each,bytesToHexString,List.flatMap_def]
  rfl

theorem decodeHex_bytes {hex : List Char → Option (List Byte)} (codec : HexCodec hex) (bytes : List Byte) :
    decodeHex hex (bytes.flatMap hexText) = some bytes := by
  induction bytes with
  | nil => exact codec.nil
  | cons b bytes ih =>
    have small : b.toNat < 256 := b.isLt
    have value : BitVec.ofNat 8 (16*(b.toNat/16)+b.toNat%16) = b := by
      rw [Nat.div_add_mod]
      simp
    rw [List.flatMap_cons,(hexText_digits b).1,List.cons_append,List.cons_append,List.nil_append,decodeHex,
      codec.pair _ _ (by omega) (by omega)]
    rw [decodeHex] at ih
    rw [ih,value]
    rfl

/-- Both ways to write bytes in base 16 write the same text, two digits for each byte, and
it is read back as the bytes. -/
theorem hex_agree {hex : List Char → Option (List Byte)} (codec : HexCodec hex) (bytes : List Byte) :
    bytes2String (some bytes) = some (bytesToHexString (some bytes)) ∧
      decodeHex hex (bytesToHexString (some bytes)) = some bytes :=
  ⟨bytes2String_eq (some bytes),decodeHex_bytes codec bytes⟩

/-- A codec that knows the digits that are written. -/
def hexPairs : List Char → Option (List Byte)
  | [] => some []
  | [_] => none
  | high::low::rest => do
    let upper ← Digits.hex.digit high
    let lower ← Digits.hex.digit low
    (hexPairs rest).map (BitVec.ofNat 8 (16*upper+lower)::·)

theorem hexPairs_codec : HexCodec hexPairs where
  nil := rfl
  pair := by
    intro high low upper lower rest
    rw [hexPairs,Digits.hex.reads high upper,Digits.hex.reads low lower]
    rfl

theorem hex_agree_two : bytes2String (some [0x0A,0xFF]) = some "0aff".toList ∧
    decodeHex hexPairs "0aff".toList = some [0x0A,0xFF] :=
  hex_agree hexPairs_codec [0x0A,0xFF]

end YzFramework.Util.TextCodes
