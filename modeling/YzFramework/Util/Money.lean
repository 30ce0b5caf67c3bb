import YzFramework.Library.DecimalFormat
import YzFramework.Util.StringUtil

/-! `StringUtil.fen2yuan` and `yuan2fen`, which compute with doubles, and `showMoney` on what
they give. -/
namespace YzFramework.Util.Money
open Library Library.Decimal Library.Double StringUtil

/-- What `new DecimalFormat()` takes from the default locale. -/
structure DecimalFormatSymbols where
  zeroDigit : Char
  decimalSeparator : Char
  minusSign : Char

def DecimalFormatSymbols.localize (symbols : DecimalFormatSymbols) (c : Char) : Char :=
  if c.isDigit then .ofNat (symbols.zeroDigit.toNat+(c.toNat - '0'.toNat))
  else if c = '.' then symbols.decimalSeparator
  else if c = '-' then symbols.minusSign
  else c

/-- The symbols of the English and the Chinese locales. -/
def DecimalFormatSymbols.plain : DecimalFormatSymbols := ⟨'0','.','-'⟩

def fen2yuan (symbols : DecimalFormatSymbols) (money : List Char) : Option (List Char) :=
  (SignedDouble.ofText money).map fun money => ((money.divide 100).format 2).map symbols.localize

def yuan2fen (symbols : DecimalFormatSymbols) (money : List Char) : Option (List Char) :=
  (SignedDouble.ofText money).map fun money => ((money.multiply 100).format 0).map symbols.localize

open DecimalFormatSymbols (plain)

theorem localize_plain (text : List Char) : text.map plain.localize = text := by
  have same (c : Char) : plain.localize c = c := by
    unfold DecimalFormatSymbols.localize
    split
    next digit =>
      rw [Char.isDigit,Bool.and_eq_true,decide_eq_true_eq,decide_eq_true_eq] at digit
      have above : '0'.toNat ≤ c.toNat := UInt32.le_iff_toNat_le.mp digit.1
      change Char.ofNat ('0'.toNat+(c.toNat - '0'.toNat)) = c
      rw [Nat.add_sub_cancel' above,Char.ofNat_toNat]
    next =>
      split
      next point => exact point.symm
      next =>
        split
        next minus => exact minus.symm
        next => rfl
  rw [List.map_congr_left fun c _ => same c]
  exact List.map_id text

/-- The amount of `n` fen in yuan. -/
def yuan (n : ℤ) : BigDecimal := .places n 2

theorem decimal_places (n : ℤ) : decimal n = (BigDecimal.places n 0).toText := by
  have size : padded 1 n.natAbs = Nat.toDigits 10 n.natAbs := by
    have some : 0 < (Nat.toDigits 10 n.natAbs).length := Nat.length_toDigits_pos
    rw [padded,Nat.sub_eq_zero_of_le some]
    rfl
  rw [BigDecimal.toText,if_neg (SignedDouble.places_plain n 0)]
  change _ = BigDecimal.sign (decide (n < 0)) ++ ((padded 1 n.natAbs).take ((padded 1 n.natAbs).length-0) ++
    BigDecimal.point ((padded 1 n.natAbs).drop ((padded 1 n.natAbs).length-0)))
  rw [size,Nat.sub_zero,List.take_length,List.drop_length,BigDecimal.point,List.append_nil,decimal,BigDecimal.sign]
  by_cases negative : n < 0
  · rw [if_pos negative,if_pos (decide_eq_true negative)]
    rfl
  · rw [if_neg negative,if_neg (by simpa using negative)]
    rfl

/-- The double next to a hundredth is off by less than half a fen. -/
theorem yuan_near (k : ℕ) : |magnitude ((k : ℚ)/100)*100-k| ≤ (k : ℚ)/2^53 := by
  have error := magnitude_error (q := (k : ℚ)/100) (by positivity)
  rw [abs_le] at error ⊢
  constructor <;> linarith

theorem fen2yuan_decimal {n : ℤ} (small : n.natAbs < 2^52) : fen2yuan plain (decimal n) = some (yuan n).toText := by
  have whole : magnitude ((n.natAbs : ℚ)/10^((0 : Fin 7) : ℕ)) = n.natAbs := by
    rw [Fin.val_zero,pow_zero,div_one,magnitude_nat (by omega)]
  rw [fen2yuan,decimal_places,SignedDouble.ofText_places,whole,Option.map_some,localize_plain]
  congr 1
  apply @SignedDouble.format_places _ 2
  · rfl
  change |magnitude ((n.natAbs : ℚ)/100)*100-n.natAbs| < 1/2
  apply lt_of_le_of_lt (yuan_near n.natAbs)
  have bound : (n.natAbs : ℚ) < 2^52 := by exact_mod_cast small
  rw [div_lt_iff₀ (by norm_num)]
  linarith

theorem yuan2fen_yuan {n : ℤ} (small : n.natAbs < 2^51) : yuan2fen plain (yuan n).toText = some (decimal n) := by
  have bound : (n.natAbs : ℚ) ≤ 2^51-1 := by
    have below : ((n.natAbs+1 : ℕ) : ℚ) ≤ ((2^51 : ℕ) : ℚ) := by exact_mod_cast small
    push_cast at below
    linarith
  rw [yuan2fen,yuan,SignedDouble.ofText_places,Option.map_some,localize_plain,decimal_places]
  congr 1
  apply @SignedDouble.format_places _ 0
  · rfl
  change |magnitude (magnitude ((n.natAbs : ℚ)/100)*100)*1-n.natAbs| < 1/2
  have first := yuan_near n.natAbs
  have nonneg : 0 ≤ magnitude ((n.natAbs : ℚ)/100)*100 :=
    mul_nonneg (magnitude_nonneg (by positivity)) (by norm_num)
  have second := magnitude_error nonneg
  rw [abs_le] at first second
  rw [mul_one,abs_lt]
  constructor <;> linarith

theorem places_tail (n : ℤ) (places : Fin 7) :
    (if (BigDecimal.places n places).toText.head? == some '-' then (BigDecimal.places n places).toText.tail
      else (BigDecimal.places n places).toText) = (BigDecimal.places n.natAbs places).toText := by
  have natural : ¬ ((n.natAbs : ℤ) < 0) := by omega
  have body : (BigDecimal.places n.natAbs places).toText =
      ((padded (places+1) n.natAbs).take ((padded (places+1) n.natAbs).length-places) ++
        BigDecimal.point ((padded (places+1) n.natAbs).drop ((padded (places+1) n.natAbs).length-places))) := by
    rw [BigDecimal.toText,if_neg (SignedDouble.places_plain n.natAbs places)]
    change BigDecimal.sign (decide ((n.natAbs : ℤ) < 0)) ++ _ = _
    rw [decide_eq_false natural]
    rfl
  have text : (BigDecimal.places n places).toText =
      BigDecimal.sign (decide (n < 0)) ++ (BigDecimal.places n.natAbs places).toText := by
    rw [body,BigDecimal.toText,if_neg (SignedDouble.places_plain n places)]
    rfl
  rw [SignedDouble.places_head,text]
  by_cases negative : n < 0
  · rw [decide_eq_true negative]
    rfl
  · rw [decide_eq_false negative]
    rfl

variable {digit : Char → Option ℕ}

/-- What is shown depends on the sign and on the number of fen only. -/
theorem showMoney_same {text shown : List Char} (some_ : text ≠ []) (more : shown ≠ [])
    (sign : (text.head? == some '-') = (shown.head? == some '-'))
    (converted : yuan2fen plain (if text.head? == some '-' then text.tail else text) =
      some (if shown.head? == some '-' then shown.tail else shown)) :
    showMoney digit (yuan2fen plain) MONEY_TYPE_YUAN (some text) =
      showMoney digit (yuan2fen plain) MONEY_TYPE_FEN (some shown) := by
  obtain ⟨_,_,rfl⟩ := List.exists_cons_of_ne_nil some_
  obtain ⟨_,_,rfl⟩ := List.exists_cons_of_ne_nil more
  have fen : ¬ MONEY_TYPE_FEN = MONEY_TYPE_YUAN := by decide
  have yuan : MONEY_TYPE_YUAN = MONEY_TYPE_YUAN := rfl
  unfold showMoney
  dsimp only
  rw [if_neg fen,if_pos yuan,converted,sign]

theorem showMoney_yuan {n : ℤ} (small : n.natAbs < 2^51) :
    showMoney digit (yuan2fen plain) MONEY_TYPE_YUAN (some (yuan n).toText) =
      showMoney digit (yuan2fen plain) MONEY_TYPE_FEN (some (decimal n)) := by
  rw [decimal_places]
  apply showMoney_same (SignedDouble.places_shown n 2).1 (SignedDouble.places_shown n 0).1
  · exact (SignedDouble.places_head n 2).trans (SignedDouble.places_head n 0).symm
  · rw [places_tail,places_tail,← decimal_places]
    exact yuan2fen_yuan (by rw [Int.natAbs_natCast]; exact small)

/-- Up to 2^51 fen, doubles do no harm: the text in yuan is the exact amount, it is read
back as the same number of fen, and both are shown as the same text, the amount with its
thousands apart. -/
theorem fen_round (known : ∀ c, c.isDigit = true → digit c = some (c.toNat-48)) {n : ℤ} (small : n.natAbs < 2^51) :
    fen2yuan plain (decimal n) = some (yuan n).toText ∧ yuan2fen plain (yuan n).toText = some (decimal n) ∧
    ∃ text, showMoney digit (yuan2fen plain) MONEY_TYPE_YUAN (fen2yuan plain (decimal n)) = some (some text) ∧
      showMoney digit (yuan2fen plain) MONEY_TYPE_FEN (some (decimal n)) = some (some text) ∧
      parseLong digit (StringUtil.plain text) = some n ∧ Grouped text := by
  have written : fen2yuan plain (decimal n) = some (yuan n).toText := fen2yuan_decimal (by omega)
  have amount : n.natAbs ≤ 9223372036854775807 := by omega
  obtain ⟨text,grouped,reads,shape⟩ := thousands_shown known n amount
  rw [← showMoney_decimal digit (yuan2fen plain) known n amount] at grouped
  refine ⟨written,yuan2fen_yuan small,text,?_,grouped,reads,shape⟩
  rw [written,showMoney_yuan small]
  exact grouped

theorem fen_round_owed :
    showMoney RegistryAddress.digit10 (yuan2fen plain) MONEY_TYPE_YUAN (fen2yuan plain (decimal (-100000500))) =
      some (some "-1,000,005.00".toList) := by
  have known (c : Char) (digit : c.isDigit = true) : RegistryAddress.digit10 c = some (c.toNat-48) := if_pos digit
  obtain ⟨_,_,text,yuan,fen,_⟩ := fen_round known (show (-100000500 : ℤ).natAbs < 2^51 by decide)
  have shown : showMoney RegistryAddress.digit10 (fun _ => none) MONEY_TYPE_FEN (some (decimal (-100000500))) =
      some (some "-1,000,005.00".toList) := by decide +kernel
  exact yuan.trans (fen.symm.trans shown)

end YzFramework.Util.Money
