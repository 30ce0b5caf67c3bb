import YzFramework.Library.Table
import YzFramework.Library.Text

/-! `ApiRequestDataHandler` with its default keys: signed requests written and read
back. The digest is a parameter. -/
namespace YzFramework.Security
open Library

structure ApiRequestDataHandler where
  md5KeyPre64 : String
  md5KeyBack64 : String

namespace ApiRequestDataHandler

def apiKey : String := "api"

def messageKey : String := "message"

def fromKey : String := "from"

def signKey : String := "sign"

variable (md5DigestAsHex : ByteArray → String)

/-- `substring` throws for a shorter key. -/
def init (md5Key : String) : Option ApiRequestDataHandler :=
  if 64 ≤ md5Key.toList.length then
    some ⟨String.ofList (md5Key.toList.take 64),String.ofList (md5Key.toList.drop 64)⟩
  else none

def toUpperCase (text : String) : String := String.ofList (text.toList.map Char.toUpper)

def equalsIgnoreCase (text other : String) : Bool := toUpperCase text == toUpperCase other

def generateSign (handler : ApiRequestDataHandler) (message : String) : String :=
  let a1 := md5DigestAsHex (message ++ handler.md5KeyPre64).toUTF8
  let a2 := a1 ++ handler.md5KeyBack64
  toUpperCase (md5DigestAsHex a2.toUTF8)

/-- The values go into the format as they are. -/
def getRequestData (handler : ApiRequestDataHandler) (api message origin : String) : String :=
  let sign := generateSign md5DigestAsHex handler message
  apiKey ++ "=" ++ api ++ "&" ++ messageKey ++ "=" ++ message ++ "&" ++
    fromKey ++ "=" ++ origin ++ "&" ++ signKey ++ "=" ++ sign

/-- `keyValue[0]` and `keyValue[1]`, which may be missing. -/
def putKeyValue (data : Table String String) (string : String) : Option (Table String String) :=
  match Text.split (· == '=') string with
  | key::value::_ => some (data.insert key value)
  | _ => none

def readRequestData (bodyRawData : String) : Option (Table String String) :=
  (Text.split (· == '&') bodyRawData).foldlM putKeyValue ∅

def isValidSign (handler : ApiRequestDataHandler) (message sign : String) : Bool :=
  equalsIgnoreCase (generateSign md5DigestAsHex handler message) sign

/-- What was written is read, with a valid sign. -/
def RoundTrip (handler : ApiRequestDataHandler) (api message origin : String) : Prop :=
  ∃ data parsedMessage sign,
    readRequestData (getRequestData md5DigestAsHex handler api message origin) = some data ∧
    data.lookup apiKey = some api ∧ data.lookup messageKey = some parsedMessage ∧
    data.lookup fromKey = some origin ∧ data.lookup signKey = some sign ∧
    parsedMessage = message ∧ sign = generateSign md5DigestAsHex handler message ∧
    isValidSign md5DigestAsHex handler parsedMessage sign = true

/-- A value that the separators leave whole. -/
def Plain (text : String) : Prop := text ≠ "" ∧ '&' ∉ text.toList ∧ '=' ∉ text.toList

instance (text : String) : Decidable (Plain text) := inferInstanceAs (Decidable (_ ∧ _))

def Hexadecimal (text : String) : Prop :=
  text.toList.length = 32 ∧ ∀ digit ∈ text.toList, digit ∈ "0123456789abcdef".toList

instance (text : String) : Decidable (Hexadecimal text) :=
  @instDecidableAnd _ _ _ (List.decidableBAll _ _)

def Separated (data : Table String String) : Prop :=
  ∀ key value, data.lookup key = some value → '&' ∉ value.toList ∧ '=' ∉ value.toList

theorem putKeyValue_separated {data after : Table String String} {string : String}
    (separated : Separated data) (single : '&' ∉ string.toList)
    (put : putKeyValue data string = some after) : Separated after := by
  unfold putKeyValue at put
  split at put
  next key value rest parts =>
    cases put
    intro other text found
    rw [Table.lookup_put] at found
    split at found
    · have member : text ∈ Text.split (· == '=') string := by
        rw [parts,← Option.some.inj found]
        exact List.mem_cons_of_mem _ List.mem_cons_self
      have plain := Text.split_plain member
      refine ⟨fun inside => single (plain _ inside).2,fun inside => ?_⟩
      exact absurd (plain _ inside).1 (by decide)
    · exact separated other text found
  next => cases put

theorem readRequestData_separated {body : String} {data : Table String String}
    (read : readRequestData body = some data) : Separated data := by
  have loop : ∀ strings : List String, (∀ string ∈ strings, '&' ∉ string.toList) →
      ∀ first : Table String String, Separated first →
        strings.foldlM putKeyValue first = some data → Separated data := by
    intro strings
    induction strings with
    | nil =>
      intro _ first separated ended
      cases ended
      exact separated
    | cons string rest ih =>
      intro single first separated ended
      rw [List.forall_mem_cons] at single
      rw [List.foldlM_cons] at ended
      obtain ⟨next,put,ended⟩ := Option.bind_eq_some_iff.mp ended
      exact ih single.2 next (putKeyValue_separated separated single.1 put) ended
  refine loop _ (fun string inside member => ?_) ∅ (fun key value found => ?_) read
  · exact absurd (Text.split_plain inside _ member).1 (by decide)
  · cases found

theorem putKeyValue_plain (data : Table String String) {key value : String} (named : key ≠ "")
    (single : '=' ∉ key.toList) (plain : '=' ∉ value.toList) :
    putKeyValue data (key ++ "=" ++ value) =
      if value = "" then none else some (data.insert key value) := by
  have text : (key ++ "=" ++ value).toList = key.toList ++ '='::value.toList := by
    simp [String.toList_append]
  by_cases empty : value = ""
  · rw [if_pos empty]
    subst empty
    rw [putKeyValue,Text.split_ended '=' named single text]
  · rw [if_neg empty,putKeyValue,
      Text.split_joined '=' [key] value empty (by simpa using single) plain (by simp [text])]
    rfl

private theorem foldlM_putKeyValue (pairs : List (String × String)) (data : Table String String)
    (plain : ∀ pair ∈ pairs, pair.1 ≠ "" ∧ '=' ∉ pair.1.toList ∧ '=' ∉ pair.2.toList) :
    (pairs.map fun pair => pair.1 ++ "=" ++ pair.2).foldlM putKeyValue data =
      if ∀ pair ∈ pairs, pair.2 ≠ "" then some (Table.putAll data pairs) else none := by
  induction pairs generalizing data with
  | nil => simp [Table.putAll]
  | cons pair rest ih =>
    rw [List.forall_mem_cons] at plain
    obtain ⟨⟨named,single,whole⟩,later⟩ := plain
    rw [List.map_cons,List.foldlM_cons,putKeyValue_plain data named single whole]
    by_cases empty : pair.2 = ""
    · rw [if_pos empty,if_neg fun all => all pair List.mem_cons_self empty]
      rfl
    · rw [if_neg empty]
      apply (ih _ later).trans
      simp only [List.forall_mem_cons,ne_eq,empty,not_false_iff,true_and]
      rfl

variable {md5DigestAsHex}

theorem generateSign_plain (digits : ∀ bytes, Hexadecimal (md5DigestAsHex bytes))
    (handler : ApiRequestDataHandler) (message : String) :
    Plain (generateSign md5DigestAsHex handler message) := by
  obtain ⟨length,members⟩ := digits
    (md5DigestAsHex (message ++ handler.md5KeyPre64).toUTF8 ++ handler.md5KeyBack64).toUTF8
  have upper : ∀ digit ∈ "0123456789abcdef".toList, digit.toUpper ≠ '&' ∧ digit.toUpper ≠ '=' :=
    @of_decide_eq_true _ (List.decidableBAll _ _) rfl
  simp only [generateSign,toUpperCase]
  set digest := md5DigestAsHex _
  refine ⟨fun empty => ?_,fun inside => ?_,fun inside => ?_⟩
  · have none : digest.toList.map Char.toUpper = [] := by
      simpa using congrArg String.toList empty
    rw [List.map_eq_nil_iff] at none
    simp [none] at length
  · rw [String.toList_ofList] at inside
    obtain ⟨digit,member,same⟩ := List.mem_map.mp inside
    exact (upper digit (members digit member)).1 same
  · rw [String.toList_ofList] at inside
    obtain ⟨digit,member,same⟩ := List.mem_map.mp inside
    exact (upper digit (members digit member)).2 same

section Written
variable (digits : ∀ bytes, Hexadecimal (md5DigestAsHex bytes)) (handler : ApiRequestDataHandler)
  {api message origin : String} (apiWhole : '&' ∉ api.toList ∧ '=' ∉ api.toList)
  (messageWhole : '&' ∉ message.toList ∧ '=' ∉ message.toList)
  (originWhole : '&' ∉ origin.toList ∧ '=' ∉ origin.toList)
include digits apiWhole messageWhole originWhole

theorem split_getRequestData :
    Text.split (· == '&') (getRequestData md5DigestAsHex handler api message origin) =
      [apiKey ++ "=" ++ api,messageKey ++ "=" ++ message,fromKey ++ "=" ++ origin,
        signKey ++ "=" ++ generateSign md5DigestAsHex handler message] := by
  have sign := generateSign_plain digits handler message
  refine Text.split_joined '&' [apiKey ++ "=" ++ api,messageKey ++ "=" ++ message,
    fromKey ++ "=" ++ origin] _ ?_ ?_ ?_ ?_
  · intro empty
    simpa [signKey] using congrArg String.toList empty
  · simp [String.toList_append,apiKey,messageKey,fromKey,apiWhole.1,messageWhole.1,originWhole.1]
  · simp [String.toList_append,signKey,sign.2.1]
  · simp [getRequestData,String.toList_append]

theorem read_written :
    readRequestData (getRequestData md5DigestAsHex handler api message origin) =
      if api ≠ "" ∧ message ≠ "" ∧ origin ≠ "" then
        some (Table.putAll ∅ [(apiKey,api),(messageKey,message),(fromKey,origin),
          (signKey,generateSign md5DigestAsHex handler message)])
      else none := by
  have sign := generateSign_plain digits handler message
  rw [readRequestData,split_getRequestData digits handler apiWhole messageWhole originWhole]
  refine (foldlM_putKeyValue [(apiKey,api),(messageKey,message),(fromKey,origin),
    (signKey,generateSign md5DigestAsHex handler message)] ∅ ?_).trans (if_congr ?_ rfl rfl)
  · simp only [List.forall_mem_cons,apiWhole.2,messageWhole.2,originWhole.2,sign.2.2]
    decide
  · simp [sign.1]

end Written

/-- Exactly values without separators, and none of them empty, come back. -/
theorem roundTrip_iff (digits : ∀ bytes, Hexadecimal (md5DigestAsHex bytes))
    (handler : ApiRequestDataHandler) (api message origin : String) :
    RoundTrip md5DigestAsHex handler api message origin ↔
      Plain api ∧ Plain message ∧ Plain origin := by
  constructor
  · rintro ⟨data,_,_,read,apiRead,messageRead,originRead,_,rfl,_,_⟩
    have separated := readRequestData_separated read
    have apiWhole := separated _ _ apiRead
    have messageWhole := separated _ _ messageRead
    have originWhole := separated _ _ originRead
    rw [read_written digits handler apiWhole messageWhole originWhole] at read
    split at read
    next some => exact ⟨⟨some.1,apiWhole⟩,⟨some.2.1,messageWhole⟩,some.2.2,originWhole⟩
    next => cases read
  · rintro ⟨⟨apiSome,apiWhole⟩,⟨messageSome,messageWhole⟩,originSome,originWhole⟩
    have read := read_written digits handler apiWhole messageWhole originWhole
    rw [if_pos ⟨apiSome,messageSome,originSome⟩] at read
    have put : ∀ key, (Table.putAll ∅ [(apiKey,api),(messageKey,message),(fromKey,origin),
        (signKey,generateSign md5DigestAsHex handler message)] : Table String String).lookup key =
        if key = signKey then some (generateSign md5DigestAsHex handler message)
        else if key = fromKey then some origin
        else if key = messageKey then some message
        else if key = apiKey then some api else none := by
      intro key
      simp only [Table.putAll,List.foldl_cons,List.foldl_nil,Table.lookup_put]
      rfl
    refine ⟨_,message,_,read,put apiKey,put messageKey,put fromKey,put signKey,rfl,rfl,?_⟩
    exact beq_self_eq_true _

/-- The digests of the samples below: of a message with the first half of the key, and of
that digest with the second half. -/
def sampleDigest (bytes : ByteArray) : String :=
  if bytes.data = ("hello" ++ String.ofList (List.replicate 64 'a')).toUTF8.data then
    "80b705e67516ceb62fdea03078197578"
  else if bytes.data = ("a=b" ++ String.ofList (List.replicate 64 'a')).toUTF8.data then
    "0ab779553fdc1c666d80f034b0e4e4f4"
  else if bytes.data = ("0ab779553fdc1c666d80f034b0e4e4f4" ++
      String.ofList (List.replicate 64 'b')).toUTF8.data then "f7fbc61e7b035af74755bdd7f30c16a0"
  else "010bdf5a0bf8ecfb67e62c70b241f74b"

def sampleHandler : ApiRequestDataHandler :=
  ⟨String.ofList (List.replicate 64 'a'),String.ofList (List.replicate 64 'b')⟩

theorem sampleDigest_digits (bytes : ByteArray) : Hexadecimal (sampleDigest bytes) := by
  unfold sampleDigest
  split
  · decide
  · split
    · decide
    · split
      · decide
      · decide

theorem roundTrip_iff_hello : RoundTrip sampleDigest sampleHandler "pay" "hello" "web" :=
  (roundTrip_iff sampleDigest_digits sampleHandler "pay" "hello" "web").mpr (by decide)

theorem equation_cut : ¬ RoundTrip sampleDigest sampleHandler "pay" "a=b" "web" := by
  rintro ⟨data,_,_,read,_,messageRead,_,_,rfl,_⟩
  exact (readRequestData_separated read _ _ messageRead).2 (by decide)

end ApiRequestDataHandler
end YzFramework.Security
