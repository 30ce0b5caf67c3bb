import Mathlib.Algebra.Order.Field.Rat
import Mathlib.Algebra.Order.Field.Power
import Mathlib.Tactic.FieldSimp
import YzFramework.Library.Decimal
import YzFramework.Library.Text

/-! Decimals of any precision, their text and what is read from a text. -/
namespace YzFramework.Library
open Decimal
open Nat (toDigits ofDigitChars)

structure BigDecimal where
  unscaled : ℤ
  scale : ℤ
  inRange : -2147483648 ≤ scale ∧ scale ≤ 2147483647
deriving DecidableEq

namespace BigDecimal

def value (v : BigDecimal) : ℚ := v.unscaled*(10 : ℚ)^(-v.scale)

def compareTo (first second : BigDecimal) : Ordering := compare first.value second.value

def coefficient (v : BigDecimal) : List Char := toDigits 10 v.unscaled.natAbs

def adjusted (v : BigDecimal) : ℤ := -v.scale+((v.coefficient.length : ℤ)-1)

def Scientific (v : BigDecimal) : Prop := v.scale < 0 ∨ v.adjusted < -6

instance (v : BigDecimal) : Decidable v.Scientific := inferInstanceAs (Decidable (_ ∨ _))

def signed (negative : Bool) (n : ℕ) : ℤ := if negative then -n else n

def sign (negative : Bool) : List Char := if negative then ['-'] else []

def point : List Char → List Char
  | [] => []
  | fraction => '.'::fraction

def exponent (e : ℤ) : List Char := 'E'::(if e < 0 then '-' else '+')::toDigits 10 e.natAbs

def toText (v : BigDecimal) : List Char :=
  sign (v.unscaled < 0) ++
    if v.Scientific then v.coefficient.take 1 ++ point (v.coefficient.drop 1) ++ exponent v.adjusted
    else
      let digits := padded (v.scale.toNat+1) v.unscaled.natAbs
      digits.take (digits.length-v.scale.toNat) ++ point (digits.drop (digits.length-v.scale.toNat))

def make (unscaled scale : ℤ) : Option BigDecimal :=
  if inRange : -2147483648 ≤ scale ∧ scale ≤ 2147483647 then some ⟨unscaled,scale,inRange⟩ else none

def isDigits (text : List Char) : Bool := text ≠ [] && text.all Char.isDigit

def readExponent (text : List Char) : Option ℤ :=
  let negative := text.head? == some '-'
  let digits := if negative || text.head? == some '+' then text.tail else text
  if isDigits digits && ofDigitChars 10 digits 0 ≤ 2147483647 then some (signed negative (ofDigitChars 10 digits 0))
  else none

def readPart : List Char → Option ℤ
  | [] => some 0
  | _::rest => readExponent rest

def letter (c : Char) : Bool := c == 'E' || c == 'e'

def ofBody (negative : Bool) (text : List Char) : Option BigDecimal :=
  let mantissa := text.takeWhile fun c => !letter c
  let whole := mantissa.takeWhile (· ≠ '.')
  let fraction := (mantissa.dropWhile (· ≠ '.')).tail
  if isDigits (whole ++ fraction) then
    (readPart (text.dropWhile fun c => !letter c)).bind fun e =>
      make (signed negative (ofDigitChars 10 (whole ++ fraction) 0)) (fraction.length-e)
  else none

def ofText (text : List Char) : Option BigDecimal :=
  let negative := text.head? == some '-'
  ofBody negative (if negative || text.head? == some '+' then text.tail else text)

theorem compareTo_eq {first second : BigDecimal} : compareTo first second = .eq ↔ first.value = second.value :=
  compare_eq_iff_eq

theorem isDigits_iff {text : List Char} : isDigits text = true ↔ text ≠ [] ∧ ∀ c ∈ text, c.isDigit = true := by
  rw [isDigits,Bool.and_eq_true,decide_eq_true_eq,List.all_eq_true]

theorem not_letter {c : Char} (digit : c.isDigit = true) : (!letter c) = true := by
  have upper : c ≠ 'E' := digit_ne digit (by decide)
  have lower : c ≠ 'e' := digit_ne digit (by decide)
  simp [letter,upper,lower]

theorem span_append {α : Type} {stays : α → Bool} {before after : List α} (inside : ∀ x ∈ before, stays x = true)
    (stops : ∀ x ∈ after.head?, stays x = false) :
    (before ++ after).takeWhile stays = before ∧ (before ++ after).dropWhile stays = after := by
  rw [List.takeWhile_append_of_pos inside,List.dropWhile_append_of_pos inside]
  cases after with
  | nil => simp
  | cons x rest => simp [stops x rfl]

theorem span_point (whole fraction : List Char) (digits : ∀ c ∈ whole, c.isDigit = true) :
    (whole ++ point fraction).takeWhile (· ≠ '.') = whole ∧
      ((whole ++ point fraction).dropWhile (· ≠ '.')).tail = fraction := by
  have inside : ∀ c ∈ whole, decide (c ≠ '.') = true := fun c member =>
    decide_eq_true (digit_ne (digits c member) (by decide))
  have stops : ∀ c ∈ (point fraction).head?, decide (c ≠ '.') = false := by
    cases fraction with
    | nil => nofun
    | cons first rest =>
      rintro c ⟨⟩
      rfl
  obtain ⟨taken,dropped⟩ := span_append inside stops
  rw [taken,dropped]
  cases fraction <;> exact ⟨rfl,rfl⟩

theorem no_letters {whole fraction : List Char} (digits : ∀ c ∈ whole ++ fraction, c.isDigit = true) :
    ∀ c ∈ whole ++ point fraction, (!letter c) = true := by
  intro c member
  rw [List.mem_append] at member
  rcases member with member | member
  · exact not_letter (digits c (List.mem_append_left _ member))
  · cases fraction with
    | nil => cases member
    | cons first rest =>
      rcases List.mem_cons.mp member with rfl | member
      · decide
      · exact not_letter (digits c (List.mem_append_right _ member))

theorem ofText_written {whole fraction : List Char} (negative : Bool) (part : List Char) (some : whole ≠ [])
    (digits : ∀ c ∈ whole ++ fraction, c.isDigit = true) (begins : ∀ c ∈ part.head?, letter c = true) :
    ofText (sign negative ++ (whole ++ point fraction ++ part)) =
      (readPart part).bind fun e =>
        make (signed negative (ofDigitChars 10 (whole ++ fraction) 0)) (fraction.length-e) := by
  obtain ⟨c,rest,rfl⟩ := List.exists_cons_of_ne_nil some
  have first := digits c (by simp)
  have minus : c ≠ '-' := digit_ne first (by decide)
  have plus : c ≠ '+' := digit_ne first (by decide)
  have inside := no_letters digits
  have stops : ∀ x ∈ part.head?, (!letter x) = false := fun x member => by rw [begins x member]; rfl
  obtain ⟨taken,dropped⟩ := span_append inside stops
  obtain ⟨before,after⟩ := span_point (c::rest) fraction fun x member =>
    digits x (List.mem_append_left _ member)
  have accepted : isDigits (c::rest ++ fraction) = true := isDigits_iff.mpr ⟨by simp,digits⟩
  have body : ofBody negative (c::rest ++ point fraction ++ part) = (readPart part).bind fun e =>
      make (signed negative (ofDigitChars 10 (c::rest ++ fraction) 0)) (fraction.length-e) := by
    rw [ofBody,taken,dropped,before,after,if_pos accepted]
  cases negative with
  | true => exact body
  | false =>
    have head : ((sign false ++ (c::rest ++ point fraction ++ part)).head? == Option.some '-') = false := by
      simpa [sign] using minus
    have other : ((sign false ++ (c::rest ++ point fraction ++ part)).head? == Option.some '+') = false := by
      simpa [sign] using plus
    rw [ofText,head,other]
    exact body

theorem signed_natAbs (n : ℤ) : signed (n < 0) n.natAbs = n := by
  rw [signed]
  split_ifs with negative
  · rw [decide_eq_true_eq] at negative
    omega
  · rw [decide_eq_true_eq] at negative
    omega

theorem signed_mul (negative : Bool) (n k : ℕ) : signed negative (n*k) = signed negative n*k := by
  cases negative <;> simp [signed]

theorem readExponent_digits (negative : Bool) {digits : List Char} (all : isDigits digits = true) :
    readExponent ((if negative then '-' else '+')::digits) =
      if ofDigitChars 10 digits 0 ≤ 2147483647 then some (signed negative (ofDigitChars 10 digits 0)) else none := by
  cases negative <;> simp [readExponent,all]

theorem readPart_exponent (e : ℤ) :
    readPart (exponent e) = if e.natAbs ≤ 2147483647 then some e else none := by
  have digits : isDigits (toDigits 10 e.natAbs) = true :=
    isDigits_iff.mpr ⟨Nat.toDigits_ne_nil,fun _ => isDigit_digits⟩
  have read := readExponent_digits (e < 0) digits
  rw [Nat.ofDigitChars_ten_toDigits,signed_natAbs] at read
  simp only [decide_eq_true_eq] at read
  exact read

theorem make_scale (v : BigDecimal) : make v.unscaled v.scale = some v := dif_pos v.inRange

theorem adjusted_lower (v : BigDecimal) : -2147483647 ≤ v.adjusted := by
  have positive : 0 < v.coefficient.length := Nat.length_toDigits_pos
  have bound := v.inRange.2
  rw [adjusted]
  omega

theorem toText_scientific {v : BigDecimal} (scientific : v.Scientific) :
    ∃ first rest, v.coefficient = first::rest ∧
      v.toText = sign (v.unscaled < 0) ++ ([first] ++ point rest ++ exponent v.adjusted) := by
  have some : v.coefficient ≠ [] := Nat.toDigits_ne_nil
  obtain ⟨first,rest,shown⟩ := List.exists_cons_of_ne_nil some
  refine ⟨first,rest,shown,?_⟩
  rw [toText,if_pos scientific,shown]
  rfl

theorem toText_plain {v : BigDecimal} (plain : ¬ v.Scientific) :
    ∃ whole fraction, whole ≠ [] ∧ (∀ c ∈ whole ++ fraction, c.isDigit = true) ∧
      ofDigitChars 10 (whole ++ fraction) 0 = v.unscaled.natAbs ∧ (fraction.length : ℤ) = v.scale ∧
      v.toText = sign (v.unscaled < 0) ++ (whole ++ point fraction) := by
  have natural : 0 ≤ v.scale := by
    rw [Scientific,not_or] at plain
    omega
  obtain ⟨digits,padding⟩ : ∃ digits, digits = padded (v.scale.toNat+1) v.unscaled.natAbs := ⟨_,rfl⟩
  have longer : v.scale.toNat < digits.length := by
    rw [padding,padded,List.length_append,List.length_replicate]
    omega
  refine ⟨digits.take (digits.length-v.scale.toNat),digits.drop (digits.length-v.scale.toNat),?_,?_,?_,?_,?_⟩
  · apply List.ne_nil_of_length_pos
    rw [List.length_take]
    omega
  · rw [List.take_append_drop,padding]
    exact fun _ => isDigit_padded
  · rw [List.take_append_drop,padding,padded_value]
  · rw [List.length_drop]
    omega
  · rw [toText,if_neg plain,padding]

theorem adjusted_ne_zero {v : BigDecimal} (scientific : v.Scientific) : v.adjusted ≠ 0 := by
  have positive : 0 < v.coefficient.length := Nat.length_toDigits_pos
  rcases scientific with upper | lower
  · rw [adjusted]
    omega
  · omega

theorem coefficient_value (v : BigDecimal) : ofDigitChars 10 v.coefficient 0 = v.unscaled.natAbs :=
  Nat.ofDigitChars_ten_toDigits

theorem ofText_exponent {v : BigDecimal} {first : Char} {rest : List Char} (shown : v.coefficient = first::rest)
    (e : ℤ) :
    ofText (sign (v.unscaled < 0) ++ ([first] ++ point rest ++ exponent e)) =
      if e.natAbs ≤ 2147483647 then make v.unscaled (v.scale+v.adjusted-e) else none := by
  have begins : ∀ c ∈ (exponent e).head?, letter c = true := by
    rintro c ⟨⟩
    rfl
  have digits : ∀ c ∈ [first] ++ rest, c.isDigit = true := by
    rw [List.singleton_append,← shown]
    exact fun _ => isDigit_digits
  have back : (rest.length : ℤ)-e = v.scale+v.adjusted-e := by
    rw [adjusted,shown,List.length_cons]
    omega
  rw [ofText_written _ _ (by simp) digits begins,readPart_exponent,List.singleton_append,← shown,coefficient_value,
    signed_natAbs,← back]
  split <;> rfl

/-- A decimal is read back from its text, up to an exponent that is out of range. -/
theorem ofText_toText (v : BigDecimal) :
    ofText v.toText = if v.Scientific ∧ 2147483647 < v.adjusted then none else some v := by
  have lower := adjusted_lower v
  by_cases scientific : v.Scientific
  · obtain ⟨first,rest,shown,text⟩ := toText_scientific scientific
    rw [text,ofText_exponent shown,add_sub_cancel_right,make_scale]
    by_cases large : 2147483647 < v.adjusted
    · rw [if_neg (by omega),if_pos ⟨scientific,large⟩]
    · rw [if_pos (by omega),if_neg fun both => large both.2]
  · obtain ⟨whole,fraction,some,digits,value,scale,text⟩ := toText_plain scientific
    have written := ofText_written (v.unscaled < 0) [] some digits nofun
    rw [List.append_nil] at written
    rw [text,written,if_neg fun both => scientific both.1,readPart,Option.bind_some,value,signed_natAbs,scale,
      Int.sub_zero,make_scale]

end BigDecimal

end YzFramework.Library
