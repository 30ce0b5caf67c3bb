import Mathlib.Data.List.Basic
import Mathlib.Tactic.IntervalCases

/-! The codec of `application/x-www-form-urlencoded` texts: what its users rely on, and
the codec itself for UTF-8. -/
namespace YzFramework.Library

/-- `URLEncoder` and `URLDecoder`; a text that cannot be decoded has no result. -/
structure UrlCodec where
  encode : String → String
  decode : String → Option String
  inverts : ∀ text, decode (encode text) = some text
  empty : encode "" = ""
  clean : ∀ text, '&' ∉ (encode text).toList ∧ '=' ∉ (encode text).toList
  shrinks : ∀ text result, decode text = some result → result.length ≤ text.length

namespace UrlCodec

theorem encode_ne_empty (codec : UrlCodec) {text : String} (some : text ≠ "") : codec.encode text ≠ "" := by
  intro same
  have read := codec.inverts text
  rw [same,← codec.empty,codec.inverts,Option.some.injEq] at read
  exact some read.symm

/-- Bytes that stand for themselves: ASCII letters and digits, `-`, `.`, `*` and `_`. -/
def unreserved (b : UInt8) : Bool :=
  (48 ≤ b && b ≤ 57) || (65 ≤ b && b ≤ 90) || (97 ≤ b && b ≤ 122) || b == 45 || b == 46 || b == 42 || b == 95

def hexDigit (n : ℕ) : Char := Char.ofNat (if n < 10 then 48+n else 55+n)

def hexValue (c : Char) : Option ℕ :=
  if 48 ≤ c.toNat ∧ c.toNat ≤ 57 then some (c.toNat-48)
  else if 65 ≤ c.toNat ∧ c.toNat ≤ 70 then some (c.toNat-55)
  else if 97 ≤ c.toNat ∧ c.toNat ≤ 102 then some (c.toNat-87)
  else none

def encodeByte (b : UInt8) : List Char :=
  if unreserved b then [Char.ofNat b.toNat]
  else if b = 32 then ['+']
  else ['%',hexDigit (b.toNat/16),hexDigit (b.toNat%16)]

/-- The bytes a text stands for; a percent sign is followed by two digits. -/
def decodeBytes : List Char → Option (List UInt8)
  | [] => some []
  | c::rest =>
    if c = '%' then
      match rest with
      | high::low::rest => do
        let upper ← hexValue high
        let lower ← hexValue low
        (decodeBytes rest).map (UInt8.ofNat (16*upper+lower)::·)
      | _ => none
    else if c = '+' then (decodeBytes rest).map (32::·)
    else (decodeBytes rest).map (String.utf8EncodeChar c ++ ·)

theorem decodeBytes_plain {c : Char} (percent : c ≠ '%') (rest : List Char) :
    decodeBytes (c::rest) =
      if c = '+' then (decodeBytes rest).map (32::·)
      else (decodeBytes rest).map (String.utf8EncodeChar c ++ ·) := by
  rw [decodeBytes.eq_def]
  simp only [if_neg percent]

theorem decodeBytes_encodeByte (b : UInt8) (rest : List Char) :
    decodeBytes (encodeByte b ++ rest) = (decodeBytes rest).map (b::·) := by
  have plain : ∀ n : Fin 256, unreserved (UInt8.ofNat n) = true →
      Char.ofNat n ≠ '%' ∧ Char.ofNat n ≠ '+' ∧ String.utf8EncodeChar (Char.ofNat n) = [UInt8.ofNat n] := by
    decide +kernel
  have digits : ∀ n : Fin 256, hexValue (hexDigit (n/16)) = some (n/16 : ℕ) ∧
      hexValue (hexDigit (n%16)) = some (n%16 : ℕ) := by
    decide +kernel
  obtain ⟨n,rfl⟩ : ∃ n : Fin 256, b = UInt8.ofNat n := ⟨⟨b.toNat,b.toNat_lt⟩,by simp⟩
  have value : (UInt8.ofNat n).toNat = n := by simp
  unfold encodeByte
  rw [value]
  split
  next itself =>
    obtain ⟨percent,plus,bytes⟩ := plain n itself
    rw [List.cons_append,List.nil_append,decodeBytes_plain percent,if_neg plus,bytes]
    rfl
  next =>
    split
    next blank =>
      rw [blank,List.cons_append,List.nil_append,decodeBytes_plain (by decide),if_pos rfl]
    next =>
      rw [List.cons_append,List.cons_append,List.cons_append,List.nil_append,decodeBytes,if_pos rfl]
      simp only [(digits n).1,(digits n).2,Option.bind_eq_bind,Option.bind_some,Nat.div_add_mod]

theorem decodeBytes_encode (bytes : List UInt8) :
    decodeBytes (bytes.flatMap encodeByte) = some bytes := by
  induction bytes with
  | nil => rfl
  | cons b rest ih =>
    rw [List.flatMap_cons,decodeBytes_encodeByte,ih]
    rfl

theorem countP_utf8EncodeChar (c : Char) :
    (String.utf8EncodeChar c).countP (fun b => decide b.IsUTF8FirstByte) = 1 := by
  obtain ⟨first,rest,same⟩ := List.exists_cons_of_ne_nil (String.utf8EncodeChar_ne_nil (c := c))
  have begins : ∀ i (inside : i < (String.utf8EncodeChar c).length),
      (String.utf8EncodeChar c)[i].IsUTF8FirstByte ↔ i = 0 := fun i inside =>
    UInt8.isUTF8FirstByte_getElem_utf8EncodeChar
  simp only [same] at begins ⊢
  have later : rest.countP (fun b => decide b.IsUTF8FirstByte) = 0 := by
    rw [List.countP_eq_zero]
    intro b inside
    obtain ⟨i,bound,rfl⟩ := List.mem_iff_getElem.mp inside
    have not := begins (i+1) (by simpa using bound)
    rw [List.getElem_cons_succ] at not
    simp [not]
  have starts : first.IsUTF8FirstByte := (begins 0 (by simp)).mpr rfl
  rw [List.countP_cons,later,decide_eq_true starts]
  rfl

theorem countP_utf8 (text : List Char) :
    (text.flatMap String.utf8EncodeChar).countP (fun b => decide b.IsUTF8FirstByte) = text.length := by
  induction text with
  | nil => rfl
  | cons c rest ih =>
    rw [List.flatMap_cons,List.countP_append,countP_utf8EncodeChar,ih,List.length_cons,Nat.add_comm]

theorem countP_decodeBytes (text : List Char) {bytes : List UInt8} (read : decodeBytes text = some bytes) :
    bytes.countP (fun b => decide b.IsUTF8FirstByte) ≤ text.length := by
  induction text using decodeBytes.induct generalizing bytes with
  | case1 =>
    cases read
    rfl
  | case2 high low rest ih =>
    rw [decodeBytes,if_pos rfl] at read
    simp only [Option.bind_eq_bind,Option.bind_eq_some_iff,Option.map_eq_some_iff] at read
    obtain ⟨upper,_,lower,_,later,found,rfl⟩ := read
    have bound := ih found
    rw [List.countP_cons]
    simp only [List.length_cons]
    split <;> omega
  | case3 rest short =>
    rw [decodeBytes.eq_def] at read
    simp only [if_pos] at read
    cases read
  | case4 rest percent ih =>
    rw [decodeBytes_plain percent,if_pos rfl] at read
    obtain ⟨later,found,rfl⟩ := Option.map_eq_some_iff.mp read
    have bound := ih found
    rw [List.countP_cons]
    simp only [List.length_cons]
    split <;> omega
  | case5 c rest percent plus ih =>
    rw [decodeBytes_plain percent,if_neg plus] at read
    obtain ⟨later,found,rfl⟩ := Option.map_eq_some_iff.mp read
    have bound := ih found
    rw [List.countP_append,countP_utf8EncodeChar,List.length_cons]
    omega

theorem encodeByte_clean (b : UInt8) : '&' ∉ encodeByte b ∧ '=' ∉ encodeByte b := by
  have bytes : ∀ n : Fin 256, '&' ∉ encodeByte (UInt8.ofNat n) ∧ '=' ∉ encodeByte (UInt8.ofNat n) := by
    decide +kernel
  obtain ⟨n,rfl⟩ : ∃ n : Fin 256, b = UInt8.ofNat n := ⟨⟨b.toNat,b.toNat_lt⟩,by simp⟩
  exact bytes n

def utf8 : UrlCodec where
  encode text := String.ofList ((text.toList.flatMap String.utf8EncodeChar).flatMap encodeByte)
  decode text := (decodeBytes text.toList).bind fun bytes =>
    bytes.toByteArray.utf8Decode?.map fun characters => String.ofList characters.toList
  inverts text := by
    have whole : (text.toList.flatMap String.utf8EncodeChar).toByteArray = text.toList.utf8Encode := rfl
    rw [String.toList_ofList,decodeBytes_encode,Option.bind_some,whole,List.utf8Decode?_utf8Encode]
    simp
  empty := rfl
  clean text := by
    rw [String.toList_ofList,List.mem_flatMap,List.mem_flatMap]
    exact ⟨fun ⟨b,_,inside⟩ => (encodeByte_clean b).1 inside,
      fun ⟨b,_,inside⟩ => (encodeByte_clean b).2 inside⟩
  shrinks text result read := by
    obtain ⟨bytes,unescaped,read⟩ := Option.bind_eq_some_iff.mp read
    obtain ⟨characters,found,rfl⟩ := Option.map_eq_some_iff.mp read
    obtain ⟨list,same⟩ := ByteArray.isSome_utf8Decode?_iff.mp (Option.isSome_of_eq_some found)
    rw [same,List.utf8Decode?_utf8Encode,Option.some.injEq] at found
    have equal : bytes = list.flatMap String.utf8EncodeChar := by
      have data := congrArg (fun array => array.data.toList) same
      rwa [List.toList_data_toByteArray,List.utf8Encode,List.toList_data_toByteArray] at data
    have bound := countP_decodeBytes text.toList unescaped
    rw [equal,countP_utf8] at bound
    rw [String.length_toList] at bound
    rw [← found]
    simpa using bound

end UrlCodec
end YzFramework.Library
