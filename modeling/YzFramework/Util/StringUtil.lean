import YzFramework.Library.Decimal
import YzFramework.Util.RegistryAddress

/-! Money as text in `StringUtil`. `none` is an exception, or a call that does not
return; `digit` is `Character.digit` in base ten, `yuan2fen` the conversion by doubles. -/
namespace YzFramework.Util.StringUtil
open Library Library.Decimal RegistryAddress
open Nat (toDigits ofDigitChars)

def FILL_TYPE_LEFT : ℤ := 0
def FILL_TYPE_RIGHT : ℤ := 1
def FILL_TYPE_BOTH : ℤ := 2
def MONEY_TYPE_YUAN : ℤ := 1
def MONEY_TYPE_FEN : ℤ := 2

variable {C : Type*}

/-- One pass of the filling loop, on the counter and the text. The filling looks at no unit
of a text: they are UTF-16's, and the digits of an amount. -/
def fillOnce (fillStr : List C) (fillType : ℤ) (i : ℕ) (source : List C) : ℕ × List C :=
  if fillType = FILL_TYPE_LEFT then (i,fillStr ++ source)
  else if fillType = FILL_TYPE_BOTH then (i+1,if i % 2 = 0 then fillStr ++ source else source ++ fillStr)
  else (i,source ++ fillStr)

theorem fillOnce_length (fillStr : List C) (fillType : ℤ) (i : ℕ) (source : List C) :
    (fillOnce fillStr fillType i source).2.length = source.length+fillStr.length := by
  rw [fillOnce]
  split_ifs <;> simp [Nat.add_comm]

def fillLoop (fillStr : List C) (some : fillStr ≠ []) (length fillType : ℤ) (i : ℕ) (source : List C) :
    List C :=
  if source.length < length then
    have _ := fillOnce_length fillStr fillType i source
    have _ := List.length_pos_iff.mpr some
    fillLoop fillStr some length fillType (fillOnce fillStr fillType i source).1
      (fillOnce fillStr fillType i source).2
  else source
termination_by (length-source.length).toNat

def fillString (source fillStr : List C) (length fillType : ℤ) : Option (List C) :=
  if length ≤ source.length then
    if length < 0 then none
    else if fillType = FILL_TYPE_LEFT then some (source.drop (source.length-length.toNat))
    else some (source.take length.toNat)
  else if filled : fillStr = [] then none
  else
    let source := fillLoop fillStr filled length fillType 0 source
    if fillType = FILL_TYPE_RIGHT then some (source.take length.toNat)
    else some (source.drop (source.length-length.toNat))

/-- `Long.parseLong` -/
def parseLong (digit : Char → Option ℕ) (text : List Char) : Option ℤ :=
  let value : Option ℤ := match text with
    | '-'::rest => (unsigned digit rest).map fun read : ℕ => -(read : ℤ)
    | '+'::rest => (unsigned digit rest).map fun read : ℕ => (read : ℤ)
    | rest => (unsigned digit rest).map fun read : ℕ => (read : ℤ)
  value.filter fun value => -9223372036854775808 ≤ value ∧ value ≤ 9223372036854775807

/-- The loop over the thousands of `v1`, on the text behind them. -/
def thousands (v1 : ℤ) (result : List Char) : Option (List Char) :=
  if 1000 ≤ v1 then
    match fillString (decimal (Int.tmod (v1-1000) 1000)) ['0'] 3 FILL_TYPE_LEFT with
    | none => none
    | some group => thousands (Int.tdiv v1 1000) (','::(group ++ result))
  else some (decimal v1 ++ result)
termination_by v1.toNat
decreasing_by
  have less : Int.tdiv v1 1000 = v1/1000 := Int.tdiv_eq_ediv_of_nonneg (by omega)
  omega

def showMoney (digit : Char → Option ℕ) (yuan2fen : List Char → Option (List Char)) (moneyType : ℤ)
    (money : Option (List Char)) : Option (Option (List Char)) :=
  match money with
  | none => some none
  | some [] => some none
  | some money => do
    let negative := money.head? == some '-'
    let money := if negative then money.tail else money
    let money ← if moneyType = MONEY_TYPE_YUAN then yuan2fen money else some money
    let moneyInt ← parseLong digit (Text.trim money)
    let v2 := Int.tmod moneyInt 100
    let result := '.'::((if v2 < 10 then ['0'] else []) ++ decimal v2)
    let result ← thousands (Int.tdiv moneyInt 100) result
    some (some (if negative then '-'::result else result))

theorem fillLoop_left (c : C) (length : ℤ) (i : ℕ) (source : List C) :
    fillLoop [c] (by simp) length FILL_TYPE_LEFT i source =
      List.replicate (length-source.length).toNat c ++ source := by
  obtain ⟨gap,missing⟩ : ∃ gap : ℕ, gap = (length-source.length).toNat := ⟨_,rfl⟩
  induction gap generalizing source with
  | zero =>
    rw [fillLoop,if_neg (by omega),← missing]
    rfl
  | succ gap ih =>
    have grown : (c::source).length = source.length+1 := rfl
    have once : fillOnce [c] FILL_TYPE_LEFT i source = (i,c::source) := rfl
    rw [fillLoop,if_pos (by omega),once,ih (c::source) (by omega),← missing]
    have rest : (length-(c::source).length).toNat = gap := by omega
    rw [rest,List.replicate_succ',List.append_assoc]
    rfl

theorem fillString_zeros {size v : ℕ} (positive : 0 < size) (small : v < 10^size) :
    fillString (toDigits 10 v) ['0'] size FILL_TYPE_LEFT = some (padded size v) := by
  have short := (Nat.length_toDigits_le_iff (by decide) positive).mpr small
  have width := padded_length positive small
  by_cases full : (size : ℤ) ≤ (toDigits 10 v).length
  · have exactly : (toDigits 10 v).length = size := by omega
    rw [fillString,if_pos full,if_neg (by omega),if_pos rfl,Int.toNat_natCast,exactly,Nat.sub_self,
      List.drop_zero,padded,exactly,Nat.sub_self]
    rfl
  · have gap : ((size : ℤ)-(toDigits 10 v).length).toNat = size-(toDigits 10 v).length := by omega
    have filled : fillLoop ['0'] (by simp) size FILL_TYPE_LEFT 0 (toDigits 10 v) = padded size v := by
      rw [fillLoop_left,gap]
      rfl
    rw [fillString,if_neg full,dif_neg (by simp),if_neg (by decide),filled,width,Int.toNat_natCast,
      Nat.sub_self,List.drop_zero]

def tail (groups : List (List Char)) (cents : List Char) : List Char :=
  groups.flatMap (','::·) ++ '.'::cents

def Digits (size : ℕ) (text : List Char) : Prop := text.length = size ∧ ∀ c ∈ text, c.isDigit = true

theorem padded_digits {size n : ℕ} (positive : 0 < size) (small : n < 10^size) : Digits size (padded size n) :=
  ⟨padded_length positive small,fun _ => isDigit_padded⟩

private theorem groups_length {groups : List (List Char)} (each : ∀ group ∈ groups, Digits 3 group) :
    groups.flatten.length = 3*groups.length := by
  induction groups with
  | nil => rfl
  | cons group groups ih =>
    rw [List.forall_mem_cons] at each
    rw [List.flatten_cons,List.length_append,each.1.1,ih each.2,List.length_cons]
    omega

theorem thousands_grouped (v1 : ℕ) (groups : List (List Char)) {cents : List Char}
    (each : ∀ group ∈ groups, Digits 3 group) (two : Digits 2 cents) :
    ∃ first more, thousands v1 (tail groups cents) = some (first ++ tail more cents) ∧
      (∃ size, 1 ≤ size ∧ size ≤ 3 ∧ Digits size first) ∧ (∀ group ∈ more, Digits 3 group) ∧
      ofDigitChars 10 (first ++ more.flatten ++ cents) 0 =
        v1*10^(3*groups.length+2)+ofDigitChars 10 (groups.flatten ++ cents) 0 := by
  induction v1 using Nat.strong_induction_on generalizing groups with
  | _ v1 ih =>
    by_cases large : 1000 ≤ v1
    · have quotient : Int.tdiv v1 1000 = ((v1/1000 : ℕ) : ℤ) := rfl
      have remainder : decimal (Int.tmod ((v1 : ℤ)-1000) 1000) = toDigits 10 (v1 % 1000) := by
        have nonnegative : ((v1 : ℤ)-1000).tmod 1000 = ((v1 % 1000 : ℕ) : ℤ) := by
          rw [Int.tmod_eq_emod_of_nonneg (by omega)]
          omega
        rw [nonnegative,decimal_natCast]
      have small : v1 % 1000 < 10^3 := Nat.mod_lt _ (by decide)
      have next : ∀ group ∈ padded 3 (v1 % 1000)::groups, Digits 3 group := by
        rw [List.forall_mem_cons]
        exact ⟨padded_digits (by decide) small,each⟩
      obtain ⟨first,more,done,begins,all,value⟩ := ih (v1/1000) (by omega) _ next
      refine ⟨first,more,?_,begins,all,?_⟩
      · have filled : fillString (toDigits 10 (v1 % 1000)) ['0'] 3 FILL_TYPE_LEFT =
            some (padded 3 (v1 % 1000)) := fillString_zeros (by decide) small
        rw [thousands,if_pos (by omega),remainder,filled,quotient,← done]
        simp [tail]
      · have low : (groups.flatten ++ cents).length = 3*groups.length+2 := by
          rw [List.length_append,groups_length each,two.1]
        have power : 10^(3*(groups.length+1)+2) = 1000*10^(3*groups.length+2) := by
          rw [Nat.mul_add,Nat.add_right_comm,Nat.pow_add]
          exact Nat.mul_comm _ _
        have whole := Nat.div_add_mod v1 1000
        rw [value,List.flatten_cons,List.append_assoc,value_append (padded _ _),padded_value,low,
          List.length_cons,power,← Nat.add_assoc,← Nat.mul_assoc,← Nat.add_mul,Nat.mul_comm _ 1000,whole]
    · have short : (toDigits 10 v1).length ≤ 3 :=
        (Nat.length_toDigits_le_iff (by decide) (by decide)).mpr (by omega)
      refine ⟨toDigits 10 v1,groups,?_,⟨_,Nat.length_toDigits_pos,short,rfl,fun _ => isDigit_digits⟩,each,?_⟩
      · rw [thousands,if_neg (by omega),decimal_natCast]
      · rw [List.append_assoc,value_append,Nat.ofDigitChars_ten_toDigits,List.length_append,
          groups_length each,two.1]

theorem parsed_digits {digit : Char → Option ℕ} (known : ∀ c, c.isDigit = true → digit c = some (c.toNat-48))
    {text : List Char} (some : text ≠ []) (digits : ∀ c ∈ text, c.isDigit = true) :
    unsigned digit text = Option.some (ofDigitChars 10 text 0) := by
  have folded : ∀ (text : List Char) (read : ℕ), (∀ c ∈ text, c.isDigit = true) →
      text.foldlM (fun read c => (digit c).map (10*read+·)) read = Option.some (ofDigitChars 10 text read) := by
    intro text
    induction text with
    | nil =>
      intro read _
      rfl
    | cons c rest ih =>
      intro read digits
      rw [List.forall_mem_cons] at digits
      rw [List.foldlM_cons,known c digits.1,Nat.ofDigitChars_cons]
      exact ih _ digits.2
  obtain ⟨c,rest,rfl⟩ := List.exists_cons_of_ne_nil some
  exact folded (c::rest) 0 digits

theorem parseLong_signed {digit : Char → Option ℕ}
    (known : ∀ c, c.isDigit = true → digit c = some (c.toNat-48)) {text : List Char} (some : text ≠ [])
    (digits : ∀ c ∈ text, c.isDigit = true) (negative : Bool)
    (small : ofDigitChars 10 text 0 ≤ 9223372036854775807) :
    parseLong digit (if negative then '-'::text else text) =
      Option.some (if negative then -(ofDigitChars 10 text 0 : ℤ) else ofDigitChars 10 text 0) := by
  have read := parsed_digits known some digits
  cases negative with
  | true =>
    rw [if_pos rfl,if_pos rfl,parseLong,read,Option.map_some,Option.filter_some,if_pos]
    rw [decide_eq_true_eq]
    omega
  | false =>
    obtain ⟨c,rest,rfl⟩ := List.exists_cons_of_ne_nil some
    have first := digits c List.mem_cons_self
    have minus : ∀ others, c::rest = '-'::others → False := fun others same =>
      digit_ne first (by decide) (List.cons.inj same).1
    have plus : ∀ others, c::rest = '+'::others → False := fun others same =>
      digit_ne first (by decide) (List.cons.inj same).1
    rw [if_neg (by decide),if_neg (by decide),parseLong,read,Option.map_some,Option.filter_some,if_pos]
    · rw [decide_eq_true_eq]
      omega
    · exact minus
    · exact plus

def plain (text : List Char) : List Char := text.filter fun c => c ≠ ',' && c ≠ '.'

theorem plain_digits {text : List Char} (digits : ∀ c ∈ text, c.isDigit = true) : plain text = text := by
  rw [plain,List.filter_eq_self]
  intro c inside
  have digit := digits c inside
  rw [Bool.and_eq_true,decide_eq_true_eq,decide_eq_true_eq]
  exact ⟨digit_ne digit (by decide),digit_ne digit (by decide)⟩

theorem plain_tail {groups : List (List Char)} {cents : List Char}
    (each : ∀ group ∈ groups, Digits 3 group) (two : Digits 2 cents) :
    plain (tail groups cents) = groups.flatten ++ cents := by
  induction groups with
  | nil => exact (plain_digits two.2 : plain cents = cents)
  | cons group groups ih =>
    rw [List.forall_mem_cons] at each
    have cut : plain (tail (group::groups) cents) = plain group ++ plain (tail groups cents) := by
      simp [plain,tail]
    rw [cut,plain_digits each.1.2,ih each.2,List.flatten_cons,List.append_assoc]

/-- An amount with its thousands behind commas and two digits behind the point. -/
def Grouped (text : List Char) : Prop :=
  ∃ sign first groups cents, text = sign ++ first ++ tail groups cents ∧ (sign = [] ∨ sign = ['-']) ∧
    (∃ size, 1 ≤ size ∧ size ≤ 3 ∧ Digits size first) ∧ (∀ group ∈ groups, Digits 3 group) ∧ Digits 2 cents

variable (digit : Char → Option ℕ) (yuan2fen : List Char → Option (List Char))

theorem trim_digits {text : List Char} (some : text ≠ []) (digits : ∀ c ∈ text, c.isDigit = true) :
    Text.trim text = text := by
  have core := @Text.trim_padded [] text [] some (fun _ inside => absurd inside List.not_mem_nil)
  rw [List.nil_append,List.append_nil] at core
  apply core
  intro c inside blank
  have digit := digits c inside
  rw [Char.isDigit,Bool.and_eq_true,decide_eq_true_eq,decide_eq_true_eq] at digit
  exact absurd (le_trans digit.1 (UInt32.le_iff_toNat_le.mp blank)) (by decide)

private theorem cents_padded (v2 : ℕ) (small : v2 < 100) :
    (if (v2 : ℤ) < 10 then ['0'] else []) ++ decimal v2 = padded 2 v2 := by
  rw [decimal_natCast,padded]
  by_cases one : v2 < 10
  · rw [if_pos (by omega),Nat.toDigits_of_lt_base one]
    rfl
  · have long : ¬ (toDigits 10 v2).length ≤ 1 := by
      rw [Nat.length_toDigits_le_iff (by decide) (by decide)]
      exact one
    have none : 2-(toDigits 10 v2).length = 0 := by omega
    rw [if_neg (by omega),none]
    rfl

theorem showMoney_decimal (known : ∀ c, c.isDigit = true → digit c = some (c.toNat-48)) (n : ℤ)
    (bound : n.natAbs ≤ 9223372036854775807) :
    showMoney digit yuan2fen MONEY_TYPE_FEN (some (decimal n)) =
      (thousands (n.natAbs/100 : ℕ) (tail [] (padded 2 (n.natAbs % 100)))).map fun text =>
        some (if n < 0 then '-'::text else text) := by
  have nonempty : toDigits 10 n.natAbs ≠ [] := Nat.toDigits_ne_nil
  have digits : ∀ c ∈ toDigits 10 n.natAbs, c.isDigit = true := fun _ => isDigit_digits
  have value : ofDigitChars 10 (toDigits 10 n.natAbs) 0 = n.natAbs := Nat.ofDigitChars_ten_toDigits
  have parsed := parseLong_signed known nonempty digits false (by rw [value]; exact bound)
  rw [if_neg (by decide),if_neg (by decide),value] at parsed
  have quotient : Int.tdiv n.natAbs 100 = ((n.natAbs/100 : ℕ) : ℤ) := rfl
  have remainder : Int.tmod n.natAbs 100 = ((n.natAbs % 100 : ℕ) : ℤ) := rfl
  have cents := cents_padded (n.natAbs % 100) (Nat.mod_lt _ (by decide))
  have trimmed := trim_digits nonempty digits
  have fen : ¬ MONEY_TYPE_FEN = MONEY_TYPE_YUAN := by decide
  by_cases negative : n < 0
  · rw [decimal,if_pos negative]
    simp only [showMoney,List.head?_cons,beq_self_eq_true,if_pos,List.tail_cons,if_neg fen,trimmed,parsed,
      Option.bind_eq_bind,Option.bind_some,quotient,remainder,cents,negative]
    exact Option.map_eq_bind.symm
  · obtain ⟨c,rest,shown⟩ := List.exists_cons_of_ne_nil nonempty
    have sign : (some c == some '-') = false := by
      simpa using digit_ne (digits c (by rw [shown]; exact List.mem_cons_self)) (by decide)
    rw [shown] at trimmed parsed
    rw [decimal,if_neg negative,shown]
    simp only [showMoney,List.head?_cons,sign,if_neg fen,trimmed,parsed,Bool.false_eq_true,if_false,
      Option.bind_eq_bind,Option.bind_some,quotient,remainder,cents,negative]
    exact Option.map_eq_bind.symm

omit digit yuan2fen in
/-- The amount with commas is that of the digits, which read as the number. -/
theorem thousands_shown {digit : Char → Option ℕ} (known : ∀ c, c.isDigit = true → digit c = some (c.toNat-48)) (n : ℤ)
    (amount : n.natAbs ≤ 9223372036854775807) :
    ∃ text, ((thousands (n.natAbs/100 : ℕ) (tail [] (padded 2 (n.natAbs % 100)))).map fun text =>
        some (if n < 0 then '-'::text else text)) = some (some text) ∧
      parseLong digit (plain text) = some n ∧ Grouped text := by
  have two : Digits 2 (padded 2 (n.natAbs % 100)) := padded_digits (by decide) (Nat.mod_lt _ (by decide))
  obtain ⟨first,more,done,⟨size,low,high,begins⟩,each,value⟩ :=
    thousands_grouped (n.natAbs/100) [] nofun two
  obtain ⟨cents,end_⟩ : ∃ cents, cents = padded 2 (n.natAbs % 100) := ⟨_,rfl⟩
  have whole : ofDigitChars 10 (first ++ more.flatten ++ cents) 0 = n.natAbs := by
    rw [end_,value,List.flatten_nil,List.nil_append,padded_value]
    exact (Nat.mul_comm _ _) ▸ Nat.div_add_mod _ 100
  rw [← end_] at done two
  have digits : ∀ c ∈ first ++ more.flatten ++ cents, c.isDigit = true := by
    intro c inside
    rw [List.mem_append,List.mem_append,List.mem_flatten] at inside
    obtain (inside | ⟨group,member,inside⟩) | inside := inside
    · exact begins.2 c inside
    · exact (each group member).2 c inside
    · exact two.2 c inside
  have nonempty : first ++ more.flatten ++ cents ≠ [] := by
    intro empty
    rw [List.append_eq_nil_iff,List.append_eq_nil_iff] at empty
    have none := begins.1
    rw [empty.1.1,List.length_nil] at none
    omega
  have shown : plain (first ++ tail more cents) = first ++ more.flatten ++ cents := by
    rw [plain,List.filter_append,List.append_assoc]
    exact congrArg₂ _ (plain_digits begins.2) (plain_tail each two)
  have parsed := parseLong_signed known nonempty digits (decide (n < 0)) (by rw [whole]; exact amount)
  rw [← end_,done]
  refine ⟨_,rfl,?_,?_⟩
  · have sign : plain (if n < 0 then '-'::(first ++ tail more cents) else first ++ tail more cents) =
        if n < 0 then '-'::plain (first ++ tail more cents) else plain (first ++ tail more cents) := by
      split <;> rfl
    rw [sign,shown]
    simp only [decide_eq_true_eq,whole] at parsed
    rw [parsed]
    split_ifs <;> congr 1 <;> omega
  · refine ⟨if n < 0 then ['-'] else [],first,more,cents,?_,?_,⟨size,low,high,begins⟩,each,two⟩
    · split_ifs <;> simp
    · split_ifs <;> simp

theorem showMoney_fen (known : ∀ c, c.isDigit = true → digit c = some (c.toNat-48)) (n : ℤ)
    (bound : |n| ≤ 9223372036854775807) :
    ∃ text, showMoney digit yuan2fen MONEY_TYPE_FEN (some (decimal n)) = some (some text) ∧
      parseLong digit (plain text) = some n ∧ Grouped text := by
  rw [Int.abs_eq_natAbs] at bound
  have amount : n.natAbs ≤ 9223372036854775807 := by omega
  rw [showMoney_decimal digit yuan2fen known n amount]
  exact thousands_shown known n amount

theorem showMoney_fen_owed :
    ∃ text, showMoney digit10 (fun _ => none) MONEY_TYPE_FEN (some (decimal (-100000500))) = some (some text) ∧
      parseLong digit10 (plain text) = some (-100000500) ∧ Grouped text :=
  showMoney_fen digit10 (fun _ => none) (fun c digit => if_pos digit) (-100000500) (by decide)

end YzFramework.Util.StringUtil
