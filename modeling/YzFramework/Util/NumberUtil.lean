import YzFramework.Library.BigDecimal

/-! The text of a decimal without its zeros at the end, as `NumberUtil` writes it. -/
namespace YzFramework.Util.NumberUtil
open Library Library.BigDecimal Library.Decimal
open Nat (toDigits ofDigitChars)

/-- `replaceAll("[.]$", "")` -/
def withoutPoint (s : List Char) : List Char := if s.getLast? = some '.' then s.dropLast else s

def stripTrailingZeros : Option BigDecimal → List Char
  | none => []
  | some value =>
    let s := value.toText
    if (s.idxOf? '.').any (0 < ·) then withoutPoint (s.rdropWhile (· == '0')) else s

/-- The text reads back as a decimal that compares equal. -/
def Faithful (v : BigDecimal) (text : List Char) : Prop := ∃ w, ofText text = some w ∧ compareTo w v = .eq

def mantissa (text : List Char) : List Char := text.takeWhile fun c => !letter c

/-- No zero at the end behind a point, and no point at the end. -/
def Tidy (text : List Char) : Prop := ('.' ∈ text → text.getLast? ≠ some '0') ∧ text.getLast? ≠ some '.'

/-- The exponent's digit at the end decides the value. -/
def KeepsExponent (v : BigDecimal) : Prop :=
  v.Scientific → v.adjusted ≤ 2147483647 ∧ (10 ≤ v.unscaled.natAbs → ¬ 10 ∣ v.adjusted)

def KeepsZeros (v : BigDecimal) : Prop := v.Scientific → 10 ≤ v.unscaled.natAbs → ¬ 10 ∣ v.unscaled

private theorem pointed {c : Char} {rest : List Char} (other : c ≠ '.') :
    ((c::rest).idxOf? '.').any (0 < ·) = decide ('.' ∈ c::rest) := by
  rw [List.idxOf?_cons,if_neg (by simpa using other),Option.any_map]
  by_cases inside : '.' ∈ rest
  · obtain ⟨i,found⟩ := Option.isSome_iff_exists.mp (List.isSome_idxOf?.mpr inside)
    simp [found,inside]
  · rw [List.idxOf?_eq_none_iff.mpr inside]
    simp [inside,other.symm]

private theorem strip_eq {v : BigDecimal} {whole rest : List Char} (some : whole ≠ [])
    (digits : ∀ c ∈ whole, c.isDigit = true) (text : v.toText = sign (v.unscaled < 0) ++ (whole ++ rest)) :
    stripTrailingZeros (Option.some v) =
      if '.' ∈ v.toText then withoutPoint (v.toText.rdropWhile (· == '0')) else v.toText := by
  obtain ⟨c,more,shown,other⟩ : ∃ c more, v.toText = c::more ∧ c ≠ '.' := by
    obtain ⟨first,others,rfl⟩ := List.exists_cons_of_ne_nil some
    rw [text,sign]
    split_ifs
    · exact ⟨'-',_,rfl,by decide⟩
    · exact ⟨first,_,rfl,digit_ne (digits first List.mem_cons_self) (by decide)⟩
  rw [stripTrailingZeros,shown,pointed other]
  simp only [decide_eq_true_eq]

theorem not_mem_digits {text : List Char} (digits : ∀ c ∈ text, c.isDigit = true) : '.' ∉ text := fun inside =>
  absurd (digits '.' inside) (by decide)

theorem not_mem_sign (negative : Bool) : '.' ∉ sign negative := by cases negative <;> decide

private theorem not_mem_exponent (e : ℤ) : '.' ∉ exponent e := by
  have digits : '.' ∉ toDigits 10 e.natAbs := not_mem_digits fun _ => isDigit_digits
  rw [exponent]
  split_ifs <;> simp [digits]

theorem exponent_last (e : ℤ) : (exponent e).getLast? = some (e.natAbs % 10).digitChar := by
  have written : exponent e = ['E',if e < 0 then '-' else '+'] ++ toDigits 10 e.natAbs := rfl
  rw [written,List.getLast?_append_of_ne_nil _ Nat.toDigits_ne_nil,digits_last]

theorem getLast?_digits (before : List Char) {text : List Char} (some : text ≠ []) (digits : ∀ c ∈ text, c.isDigit = true) :
    (before ++ text).getLast? ≠ Option.some '.' := by
  rw [List.getLast?_append_of_ne_nil _ some]
  intro last
  exact not_mem_digits digits (List.mem_of_getLast? last)

private theorem strip_plain {v : BigDecimal} {whole fraction : List Char} (some : whole ≠ [])
    (digits : ∀ c ∈ whole ++ fraction, c.isDigit = true)
    (text : v.toText = sign (v.unscaled < 0) ++ (whole ++ point fraction)) :
    stripTrailingZeros (Option.some v) =
      sign (v.unscaled < 0) ++ (whole ++ point (fraction.rdropWhile (· == '0'))) := by
  have wholes : ∀ c ∈ whole, c.isDigit = true := fun c inside => digits c (List.mem_append_left _ inside)
  rw [strip_eq some wholes text,text]
  cases fraction with
  | nil =>
    have none : '.' ∉ sign (v.unscaled < 0) ++ (whole ++ point []) := by
      simp [point,not_mem_sign,not_mem_digits wholes]
    rw [if_neg none]
    rfl
  | cons first rest =>
    have joined : sign (v.unscaled < 0) ++ (whole ++ point (first::rest)) =
        sign (v.unscaled < 0) ++ whole ++ '.'::first::rest := by simp [point]
    rw [if_pos (by simp [point]),joined,Text.rdropWhile_append _ (by decide)]
    cases kept : (first::rest).rdropWhile (· == '0') with
    | nil => simp [withoutPoint,point]
    | cons next more =>
      have part : ∀ c ∈ next::more, c.isDigit = true := by
        intro c inside
        rw [← kept] at inside
        exact digits c (List.mem_append_right _ ((List.rdropWhile_prefix _ _).subset inside))
      have last := getLast?_digits (sign (v.unscaled < 0) ++ whole ++ ['.']) (by simp) part
      rw [List.append_assoc _ ['.'],List.singleton_append] at last
      rw [withoutPoint,if_neg last,List.append_assoc]
      rfl

theorem kept_zeros (fraction : List Char) :
    ∃ k, fraction = fraction.rdropWhile (· == '0') ++ List.replicate k '0' := by
  refine ⟨(fraction.rtakeWhile (· == '0')).length,?_⟩
  have zeros : fraction.rtakeWhile (· == '0') = List.replicate (fraction.rtakeWhile (· == '0')).length '0' :=
    List.eq_replicate_iff.mpr ⟨rfl,fun c inside => by simpa using List.mem_rtakeWhile_imp inside⟩
  rw [← zeros,List.rdropWhile_append_rtakeWhile]

theorem plain_faithful {v : BigDecimal} (plain : ¬ v.Scientific) :
    Faithful v (stripTrailingZeros (some v)) := by
  obtain ⟨whole,fraction,nonempty,digits,value,scale,text⟩ := toText_plain plain
  obtain ⟨k,zeros⟩ := kept_zeros fraction
  rw [strip_plain nonempty digits text]
  obtain ⟨kept,named⟩ : ∃ kept, kept = fraction.rdropWhile (· == '0') := ⟨_,rfl⟩
  rw [← named] at zeros ⊢
  have length : fraction.length = kept.length+k := by
    rw [zeros,List.length_append,List.length_replicate]
  have few : ∀ c ∈ whole ++ kept, c.isDigit = true := by
    intro c inside
    apply digits c
    rw [zeros,← List.append_assoc]
    exact List.mem_append_left _ inside
  have written := ofText_written (v.unscaled < 0) [] nonempty few nofun
  have bound := v.inRange
  have inRange : -2147483648 ≤ (kept.length : ℤ)-0 ∧ (kept.length : ℤ)-0 ≤ 2147483647 := by omega
  rw [List.append_nil,readPart,Option.bind_some,make,dif_pos inRange] at written
  refine ⟨_,written,compareTo_eq.mpr ?_⟩
  rw [zeros,← List.append_assoc,value_zeros] at value
  have unscaled : v.unscaled = signed (v.unscaled < 0) (ofDigitChars 10 (whole ++ kept) 0)*10^k := by
    conv_lhs => rw [← signed_natAbs v.unscaled,← value,Nat.mul_comm,signed_mul]
    rw [Nat.cast_pow]
    rfl
  have power : (10 : ℚ)^(-(kept.length : ℤ)) = 10^k*10^(-v.scale) := by
    rw [← scale,length,← zpow_natCast,← zpow_add₀ (by decide)]
    congr 1
    omega
  change (signed (v.unscaled < 0) (ofDigitChars 10 (whole ++ kept) 0) : ℚ)*10^(-((kept.length : ℤ)-0)) =
    v.unscaled*10^(-v.scale)
  rw [Int.sub_zero,power]
  conv_rhs => rw [unscaled]
  push_cast
  rw [mul_assoc]

private theorem strip_exponent {e : ℤ} (nonzero : e ≠ 0) :
    ∃ e' j, (exponent e).rdropWhile (· == '0') = exponent e' ∧ e = e'*10^j ∧ ¬ 10 ∣ e' := by
  obtain ⟨m,j,dropped,whole,last⟩ := digits_rdropWhile (Int.natAbs_pos.mpr nonzero)
  have size : (signed (e < 0) m).natAbs = m := by cases decide (e < 0) <;> simp [signed]
  have positive : m ≠ 0 := by
    rintro rfl
    exact last (dvd_zero 10)
  have sign : signed (e < 0) m < 0 ↔ e < 0 := by
    by_cases negative : e < 0
    · simp [signed,negative]
      omega
    · simp [signed,negative]
  refine ⟨signed (e < 0) m,j,?_,?_,?_⟩
  · have cut := @Text.rdropWhile_append (· == '0') ['E'] (if e < 0 then '-' else '+') (by split_ifs <;> decide)
      (toDigits 10 e.natAbs)
    rw [dropped] at cut
    rw [exponent,exponent,size]
    simp only [sign]
    exact cut
  · conv_lhs => rw [← signed_natAbs e,whole,signed_mul]
    rw [Nat.cast_pow]
    rfl
  · rw [← Int.natAbs_dvd_natAbs,size]
    exact last

private theorem faithful_exponent {v : BigDecimal} {first : Char} {rest : List Char}
    (shown : v.coefficient = first::rest)
    {e : ℤ} (decided : v.unscaled ≠ 0 ∨ e = v.adjusted) :
    Faithful v (sign (v.unscaled < 0) ++ ([first] ++ point rest ++ exponent e)) ↔
      e = v.adjusted ∧ v.adjusted ≤ 2147483647 := by
  have lower := adjusted_lower v
  constructor
  · rintro ⟨w,read,same⟩
    rw [ofText_exponent shown] at read
    split_ifs at read with small
    have exactly : e = v.adjusted := by
      rcases decided with nonzero | exactly
      · rw [make] at read
        split_ifs at read with inRange
        cases read
        have equal := compareTo_eq.mp same
        have powers : (10 : ℚ)^(-(v.scale+v.adjusted-e)) = 10^(-v.scale) :=
          mul_left_cancel₀ (Int.cast_ne_zero.mpr nonzero) equal
        have exponents := zpow_right_injective₀ (by norm_num : (0 : ℚ) < 10) (by norm_num) powers
        have moved : -(v.scale+v.adjusted-e) = -v.scale := exponents
        omega
      · exact exactly
    exact ⟨exactly,by omega⟩
  · rintro ⟨rfl,upper⟩
    refine ⟨v,?_,compareTo_eq.mpr rfl⟩
    rw [ofText_exponent shown,if_pos (by omega),add_sub_cancel_right,make_scale]

private theorem strip_scientific {v : BigDecimal} (scientific : v.Scientific) {first : Char} {rest : List Char}
    (shown : v.coefficient = first::rest) :
    ∃ e j, stripTrailingZeros (some v) = sign (v.unscaled < 0) ++ ([first] ++ point rest ++ exponent e) ∧
      (rest = [] ∧ e = v.adjusted ∨ rest ≠ [] ∧ v.adjusted = e*10^j ∧ ¬ 10 ∣ e) := by
  obtain ⟨_,_,same,text⟩ := toText_scientific scientific
  cases shown.symm.trans same
  have digits : ∀ c ∈ first::rest, c.isDigit = true := by
    rw [← shown]
    exact fun _ => isDigit_digits
  have one : ∀ c ∈ [first], c.isDigit = true := fun c inside => digits c (by simp_all)
  rw [List.append_assoc [first]] at text
  rw [strip_eq (by simp) one text,text]
  cases rest with
  | nil =>
    have other := (digit_ne (digits first List.mem_cons_self) (by decide) : first ≠ '.').symm
    have none : '.' ∉ sign (v.unscaled < 0) ++ ([first] ++ (point [] ++ exponent v.adjusted)) := by
      simp [point,not_mem_sign,other,not_mem_exponent]
    rw [if_neg none]
    exact ⟨v.adjusted,0,rfl,.inl ⟨rfl,rfl⟩⟩
  | cons next more =>
    obtain ⟨e,j,dropped,whole,last⟩ := strip_exponent (adjusted_ne_zero scientific)
    refine ⟨e,j,?_,.inr ⟨by simp,whole,last⟩⟩
    have inside : '.' ∈ sign (v.unscaled < 0) ++ ([first] ++ (point (next::more) ++ exponent v.adjusted)) := by
      simp [point]
    have front := @Text.rdropWhile_append (· == '0') (sign (v.unscaled < 0) ++ ([first] ++ point (next::more))) 'E'
      (by decide) (exponent v.adjusted).tail
    have back := @Text.rdropWhile_append (· == '0') [] 'E' (by decide) (exponent v.adjusted).tail
    have tail : 'E'::(exponent v.adjusted).tail = exponent v.adjusted := rfl
    rw [List.nil_append,List.nil_append,tail,dropped] at back
    rw [tail,← back] at front
    have joined : sign (v.unscaled < 0) ++ ([first] ++ (point (next::more) ++ exponent v.adjusted)) =
        sign (v.unscaled < 0) ++ ([first] ++ point (next::more)) ++ exponent v.adjusted := by simp
    have kept : (sign (v.unscaled < 0) ++ ([first] ++ point (next::more)) ++ exponent e).getLast? ≠ some '.' := by
      rw [List.getLast?_append_of_ne_nil _ (by simp [exponent]),exponent_last]
      intro same
      exact absurd (Option.some.inj same) (digit_ne (Nat.isDigit_digitChar.trans (by simp; omega)) (by decide))
    rw [if_pos inside,joined,front,withoutPoint,if_neg kept]
    simp

private theorem no_letters_signed (negative : Bool) {whole fraction : List Char}
    (digits : ∀ c ∈ whole ++ fraction, c.isDigit = true) :
    ∀ c ∈ sign negative ++ (whole ++ point fraction), (!letter c) = true := by
  intro c member
  rcases List.mem_append.mp member with minus | member
  · cases negative with
    | true =>
      rw [List.mem_singleton.mp minus]
      rfl
    | false => cases minus
  · exact no_letters digits c member

theorem mantissa_eq (negative : Bool) {whole fraction : List Char} (part : List Char)
    (digits : ∀ c ∈ whole ++ fraction, c.isDigit = true) (begins : ∀ c ∈ part.head?, letter c = true) :
    mantissa (sign negative ++ (whole ++ point fraction ++ part)) = sign negative ++ (whole ++ point fraction) := by
  have stops : ∀ c ∈ part.head?, (!letter c) = false := fun c inside => by rw [begins c inside]; rfl
  rw [mantissa,← List.append_assoc]
  exact (span_append (no_letters_signed negative digits) stops).1

private theorem tidy_point (negative : Bool) {whole fraction : List Char} (some : whole ≠ [])
    (digits : ∀ c ∈ whole ++ fraction, c.isDigit = true) :
    Tidy (sign negative ++ (whole ++ point fraction)) ↔ fraction.getLast? ≠ Option.some '0' := by
  have wholes : ∀ c ∈ whole, c.isDigit = true := fun c inside => digits c (List.mem_append_left _ inside)
  have parts : ∀ c ∈ fraction, c.isDigit = true := fun c inside => digits c (List.mem_append_right _ inside)
  cases fraction with
  | nil =>
    have none : '.' ∉ sign negative ++ (whole ++ point []) := by
      simp [point,not_mem_sign,not_mem_digits wholes]
    have last := getLast?_digits (sign negative) some wholes
    have bare : sign negative ++ whole = sign negative ++ (whole ++ point []) := by simp [point]
    rw [bare] at last
    exact ⟨fun _ => nofun,fun _ => ⟨fun inside => absurd inside none,last⟩⟩
  | cons next more =>
    have joined : sign negative ++ (whole ++ point (next::more)) = sign negative ++ whole ++ ['.'] ++ next::more := by
      simp [point]
    have last := getLast?_digits (sign negative ++ whole ++ ['.']) (by simp) parts
    have inside : '.' ∈ sign negative ++ whole ++ ['.'] ++ next::more := by simp
    rw [Tidy,joined]
    rw [List.getLast?_append_of_ne_nil _ (by simp)] at last ⊢
    exact ⟨fun tidy => tidy.1 inside,fun kept => ⟨fun _ => kept,last⟩⟩

private theorem tidy_exponent (negative : Bool) {first : Char} {rest : List Char}
    (digits : ∀ c ∈ [first] ++ rest, c.isDigit = true) {e : ℤ} (last : rest ≠ [] → ¬ 10 ∣ e) :
    Tidy (sign negative ++ ([first] ++ point rest ++ exponent e)) := by
  have ends : (sign negative ++ ([first] ++ point rest ++ exponent e)).getLast? =
      some (e.natAbs % 10).digitChar := by
    rw [← List.append_assoc,List.getLast?_append_of_ne_nil _ (by simp [exponent]),exponent_last]
  have digit : (e.natAbs % 10).digitChar.isDigit = true := by
    rw [Nat.isDigit_digitChar,decide_eq_true_eq]
    omega
  rw [Tidy,ends]
  constructor
  · intro inside zero
    rw [Option.some_inj,Nat.digitChar_eq_zero] at zero
    apply last
    · rintro rfl
      have other := (digit_ne (digits first List.mem_cons_self) (by decide) : first ≠ '.').symm
      simp [point,not_mem_sign,not_mem_exponent,other] at inside
    · omega
  · intro same
    exact digit_ne digit (by decide) (Option.some.inj same)

private theorem rest_nonempty {v : BigDecimal} {first : Char} {rest : List Char}
    (shown : v.coefficient = first::rest) :
    rest ≠ [] ↔ 10 ≤ v.unscaled.natAbs := by
  have one : v.coefficient.length ≤ 1 ↔ v.unscaled.natAbs < 10 :=
    Nat.length_toDigits_le_iff (by decide) Nat.one_pos
  rw [shown,List.length_cons] at one
  rw [← List.length_pos_iff]
  omega

private theorem rest_last {v : BigDecimal} {first : Char} {rest : List Char}
    (shown : v.coefficient = first::rest) :
    rest.getLast? ≠ some '0' ↔ (rest ≠ [] → ¬ 10 ∣ v.unscaled) := by
  have last : v.coefficient.getLast? = some '0' ↔ 10 ∣ v.unscaled.natAbs := digits_last_zero
  rw [shown,← Int.natCast_dvd] at last
  cases rest with
  | nil => exact ⟨fun _ empty => absurd rfl empty,fun _ => nofun⟩
  | cons next more =>
    rw [List.getLast?_cons_cons] at last
    rw [ne_eq,last]
    exact ⟨fun not _ => not,fun not => not (by simp)⟩

private theorem exact_scientific {v : BigDecimal} (scientific : v.Scientific) :
    (Faithful v (stripTrailingZeros (some v)) ∧ Tidy (mantissa (stripTrailingZeros (some v))) ↔
      KeepsExponent v ∧ KeepsZeros v) ∧
    (Faithful v (stripTrailingZeros (some v)) ∧ Tidy (stripTrailingZeros (some v)) ↔ KeepsExponent v) := by
  obtain ⟨first,rest,shown,_⟩ := toText_scientific scientific
  obtain ⟨e,j,stripped,kept⟩ := strip_scientific scientific shown
  have digits : ∀ c ∈ [first] ++ rest, c.isDigit = true := by
    rw [List.singleton_append,← shown]
    exact fun _ => isDigit_digits
  have begins : ∀ c ∈ (exponent e).head?, letter c = true := by
    rintro c ⟨⟩
    rfl
  have more := rest_nonempty shown
  have decided : v.unscaled ≠ 0 ∨ e = v.adjusted := by
    rcases kept with ⟨_,same⟩ | ⟨some,_⟩
    · exact .inr same
    · have large := more.mp some
      exact .inl (by omega)
  have own : e = v.adjusted ↔ (rest ≠ [] → ¬ 10 ∣ v.adjusted) := by
    rcases kept with ⟨none,same⟩ | ⟨some,whole,last⟩
    · exact ⟨fun _ some => absurd none some,fun _ => same⟩
    · constructor
      · rintro rfl _
        exact last
      · intro undivided
        cases j with
        | zero => rw [whole,Int.pow_zero,Int.mul_one]
        | succ j =>
          refine absurd ?_ (undivided some)
          rw [whole,Int.pow_succ,← Int.mul_assoc]
          exact Int.dvd_mul_left _ _
  have tidy : Tidy (sign (v.unscaled < 0) ++ ([first] ++ point rest ++ exponent e)) := by
    apply tidy_exponent _ digits
    intro some
    rcases kept with ⟨none,_⟩ | ⟨_,_,last⟩
    · exact absurd none some
    · exact last
  rw [stripped,mantissa_eq _ _ digits begins,tidy_point _ (by simp) digits,faithful_exponent shown decided,own,
    rest_last shown,more,KeepsExponent,KeepsZeros]
  constructor
  · constructor
    · rintro ⟨⟨exponents,upper⟩,zeros⟩
      exact ⟨fun _ => ⟨upper,exponents⟩,fun _ => zeros⟩
    · rintro ⟨exponents,zeros⟩
      exact ⟨⟨(exponents scientific).2,(exponents scientific).1⟩,zeros scientific⟩
  · constructor
    · rintro ⟨⟨exponents,upper⟩,_⟩ _
      exact ⟨upper,exponents⟩
    · intro exponents
      exact ⟨⟨(exponents scientific).2,(exponents scientific).1⟩,tidy⟩

private theorem exact_plain {v : BigDecimal} (scientific : ¬ v.Scientific) :
    Faithful v (stripTrailingZeros (some v)) ∧
    Tidy (stripTrailingZeros (some v)) ∧ mantissa (stripTrailingZeros (some v)) = stripTrailingZeros (some v) := by
  obtain ⟨whole,fraction,nonempty,digits,_,_,text⟩ := toText_plain scientific
  have faithful := plain_faithful scientific
  have stripped := strip_plain nonempty digits text
  obtain ⟨kept,named⟩ : ∃ kept, kept = fraction.rdropWhile (· == '0') := ⟨_,rfl⟩
  rw [← named] at stripped
  have few : ∀ c ∈ whole ++ kept, c.isDigit = true := by
    intro c inside
    apply digits c
    rw [named,List.mem_append] at inside
    exact List.mem_append.mpr (inside.imp_right fun part => (List.rdropWhile_prefix _ _).subset part)
  have last : kept.getLast? ≠ some '0' := by
    rw [named]
    intro zero
    obtain ⟨some,same⟩ := List.mem_getLast?_eq_getLast zero
    exact List.rdropWhile_last_not (· == '0') fraction some (by rw [← same]; rfl)
  have tidy : Tidy (stripTrailingZeros (some v)) := by
    rw [stripped,tidy_point _ nonempty few]
    exact last
  have whole : mantissa (stripTrailingZeros (some v)) = stripTrailingZeros (some v) := by
    have cut := mantissa_eq (v.unscaled < 0) [] few nofun
    rw [List.append_nil] at cut
    rw [stripped,cut]
  exact ⟨faithful,tidy,whole⟩

theorem stripTrailingZeros_exact (v : BigDecimal) :
    (Faithful v (stripTrailingZeros (some v)) ∧ Tidy (mantissa (stripTrailingZeros (some v))) ↔
      KeepsExponent v ∧ KeepsZeros v) ∧
    (Faithful v (stripTrailingZeros (some v)) ∧ Tidy (stripTrailingZeros (some v)) ↔ KeepsExponent v) := by
  by_cases scientific : v.Scientific
  · exact exact_scientific scientific
  · obtain ⟨faithful,tidy,whole⟩ := exact_plain scientific
    have exponents : KeepsExponent v := fun other => absurd other scientific
    have zeros : KeepsZeros v := fun other => absurd other scientific
    rw [whole]
    exact ⟨⟨fun _ => ⟨exponents,zeros⟩,fun _ => ⟨faithful,tidy⟩⟩,⟨fun _ => exponents,fun _ => ⟨faithful,tidy⟩⟩⟩

/-- 1.2E+10 loses the zero of its exponent. -/
theorem stripTrailingZeros_fails :
    let v : BigDecimal := ⟨12,-9,by decide⟩
    stripTrailingZeros (some v) = "1.2E+1".toList ∧ ¬ Faithful v (stripTrailingZeros (some v)) := by
  intro v
  have stripped : stripTrailingZeros (some v) = "1.2E+1".toList := by decide +kernel
  have read : ofText "1.2E+1".toList = some ⟨12,0,by decide⟩ := by decide +kernel
  rw [stripped]
  refine ⟨rfl,?_⟩
  rintro ⟨w,other,same⟩
  cases read.symm.trans other
  have equal : ((12 : ℤ) : ℚ)*10^(-0 : ℤ) = (12 : ℤ)*10^(9 : ℤ) := compareTo_eq.mp same
  exact absurd equal (by decide +kernel)

end YzFramework.Util.NumberUtil
