import YzFramework.Library.BigDecimal
import YzFramework.Library.Double

/-! Doubles read from decimal text, and written with a fixed number of decimal places,
the value rounded half even. A double is its sign bit and its magnitude. -/
namespace YzFramework.Library
open Decimal Double

structure SignedDouble where
  negative : Bool
  magnitude : ℚ
deriving DecidableEq

namespace SignedDouble

/-- Blanks around the number are skipped. -/
def ofText (text : List Char) : Option SignedDouble :=
  (BigDecimal.ofText (Text.trim text)).map fun v => ⟨(Text.trim text).head? == some '-',Double.magnitude |v.value|⟩

def divide (x : SignedDouble) (divisor : ℚ) : SignedDouble :=
  {x with magnitude := Double.magnitude (x.magnitude/divisor)}

def multiply (x : SignedDouble) (factor : ℚ) : SignedDouble :=
  {x with magnitude := Double.magnitude (x.magnitude*factor)}

def format (places : ℕ) (x : SignedDouble) : List Char :=
  let digits := padded (places+1) (roundEven (x.magnitude*10^places)).toNat
  BigDecimal.sign x.negative ++
    (digits.take (digits.length-places) ++ BigDecimal.point (digits.drop (digits.length-places)))

end SignedDouble

/-- `n` units of the decimal place. -/
def BigDecimal.places (n : ℤ) (places : Fin 7) : BigDecimal := ⟨n,places,by omega⟩

namespace SignedDouble

variable {n : ℤ} {places : Fin 7}

theorem places_plain (n : ℤ) (places : Fin 7) : ¬ (BigDecimal.places n places).Scientific := by
  have positive : 0 < (BigDecimal.places n places).coefficient.length := Nat.length_toDigits_pos
  have few := places.isLt
  rw [BigDecimal.Scientific,BigDecimal.adjusted,not_or]
  change ¬ ((places : ℕ) : ℤ) < 0 ∧ ¬ -((places : ℕ) : ℤ)+_ < -6
  omega

theorem format_places {x : SignedDouble} (sign : x.negative = decide (n < 0))
    (near : |x.magnitude*10^(places : ℕ)-n.natAbs| < 1/2) :
    x.format places = (BigDecimal.places n places).toText := by
  have rounded : roundEven (x.magnitude*10^(places : ℕ)) = n.natAbs := roundEven_near near
  rw [format,rounded,Int.toNat_natCast,sign,BigDecimal.toText,if_neg (places_plain n places)]
  rfl

theorem places_text (n : ℤ) (places : Fin 7) : ∃ whole fraction, whole ≠ [] ∧
    (∀ c ∈ whole ++ fraction, c.isDigit = true) ∧
    (BigDecimal.places n places).toText = BigDecimal.sign (n < 0) ++ (whole ++ BigDecimal.point fraction) := by
  obtain ⟨whole,fraction,some,digits,_,_,text⟩ := BigDecimal.toText_plain (places_plain n places)
  exact ⟨whole,fraction,some,digits,text⟩

theorem places_shown (n : ℤ) (places : Fin 7) : (BigDecimal.places n places).toText ≠ [] ∧
    ∀ c ∈ (BigDecimal.places n places).toText, ¬ c ≤ ' ' := by
  obtain ⟨whole,fraction,some,digits,text⟩ := places_text n places
  have shown : ∀ c : Char, c.isDigit = true → ¬ c ≤ ' ' := by
    intro c digit blank
    rw [Char.isDigit,Bool.and_eq_true,decide_eq_true_eq,decide_eq_true_eq] at digit
    exact absurd (le_trans digit.1 (UInt32.le_iff_toNat_le.mp blank)) (by decide)
  rw [text]
  constructor
  · simp [some]
  · intro c inside
    rw [List.mem_append,List.mem_append] at inside
    rcases inside with sign | inside | inside
    · unfold BigDecimal.sign at sign
      split at sign
      · rw [List.mem_singleton.mp sign]
        decide
      · cases sign
    · exact shown c (digits c (List.mem_append_left _ inside))
    · cases fraction with
      | nil => cases inside
      | cons first rest =>
        rcases List.mem_cons.mp inside with rfl | inside
        · decide
        · exact shown c (digits c (List.mem_append_right _ inside))

theorem places_head (n : ℤ) (places : Fin 7) :
    ((BigDecimal.places n places).toText.head? == some '-') = decide (n < 0) := by
  obtain ⟨whole,fraction,some,digits,text⟩ := places_text n places
  obtain ⟨first,rest,rfl⟩ := List.exists_cons_of_ne_nil some
  rw [text]
  by_cases negative : n < 0
  · rw [decide_eq_true negative]
    rfl
  · rw [decide_eq_false negative]
    have differs : first ≠ '-' := digit_ne (digits first (by simp)) (by decide)
    simpa [BigDecimal.sign] using differs

/-- What is read from a decimal is the double next to it. -/
theorem ofText_places (n : ℤ) (places : Fin 7) : ofText (BigDecimal.places n places).toText =
    some ⟨decide (n < 0),Double.magnitude (n.natAbs/10^(places : ℕ))⟩ := by
  obtain ⟨some,shown⟩ := places_shown n places
  have trimmed := @Text.trim_padded [] _ [] some (by simp) shown
  rw [List.nil_append,List.append_nil] at trimmed
  have read := BigDecimal.ofText_toText (BigDecimal.places n places)
  rw [if_neg fun both => places_plain n places both.1] at read
  have amount : |(BigDecimal.places n places).value| = n.natAbs/10^(places : ℕ) := by
    change |(n : ℚ)*(10 : ℚ)^(-((places : ℕ) : ℤ))| = _
    rw [abs_mul,zpow_neg,zpow_natCast,abs_of_pos (show (0 : ℚ) < (10^(places : ℕ))⁻¹ by positivity),
      div_eq_mul_inv,Nat.cast_natAbs,Int.cast_abs]
  rw [ofText,trimmed,read,places_head,Option.map_some,amount]

end SignedDouble

end YzFramework.Library
