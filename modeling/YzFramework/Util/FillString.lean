import YzFramework.Library.Properties
import YzFramework.Util.StringUtil

/-! `StringUtil.fillString` with all its types of filling. -/
namespace YzFramework.Util.StringUtil
open Library.Properties (Text units)

variable {C : Type*}

def copies (n : ℕ) (fillStr : List C) : List C := (List.replicate n fillStr).flatten

/-- The source between copies of the filling. -/
def between (fillStr source : List C) (left right : ℕ) : List C :=
  copies left fillStr ++ source ++ copies right fillStr

/-- A result of the length that was asked for: the source with parts of copies beside it,
or as much of the source as fits. -/
structure Filled (source fillStr : List C) (length : ℕ) (fillType : ℤ) (result : List C) : Prop where
  size : result.length = length
  kept : source.length < length → ∃ left right, result = left ++ source ++ right ∧
    (∃ n, left <:+ copies n fillStr) ∧ (∃ n, right <+: copies n fillStr) ∧
    (fillType = FILL_TYPE_LEFT → right = []) ∧ (fillType = FILL_TYPE_RIGHT → left = [])
  cut : length ≤ source.length →
    (fillType = FILL_TYPE_LEFT → result <:+ source) ∧ (fillType ≠ FILL_TYPE_LEFT → result <+: source)

theorem copies_succ (n : ℕ) (fillStr : List C) : copies (n+1) fillStr = fillStr ++ copies n fillStr := by
  rw [copies,List.replicate_succ,List.flatten_cons,copies]

theorem copies_succ' (n : ℕ) (fillStr : List C) : copies (n+1) fillStr = copies n fillStr ++ fillStr := by
  rw [copies,List.replicate_succ',List.flatten_append,List.flatten_singleton,copies]

theorem fillOnce_left (fillStr source : List C) (left right i : ℕ) {fillType : ℤ}
    (front : fillType = FILL_TYPE_LEFT ∨ fillType = FILL_TYPE_BOTH ∧ i % 2 = 0) :
    (fillOnce fillStr fillType i (between fillStr source left right)).2 = between fillStr source (left+1) right := by
  have grown : between fillStr source (left+1) right = fillStr ++ between fillStr source left right := by
    rw [between,copies_succ,List.append_assoc,List.append_assoc,between,List.append_assoc]
  rw [grown,fillOnce]
  rcases front with rfl | ⟨rfl,even⟩
  · rw [if_pos rfl]
  · rw [if_neg (by decide),if_pos rfl,if_pos even]

theorem fillOnce_right (fillStr source : List C) (left right i : ℕ) {fillType : ℤ}
    (apart : fillType ≠ FILL_TYPE_LEFT) (back : fillType = FILL_TYPE_BOTH → i % 2 ≠ 0) :
    (fillOnce fillStr fillType i (between fillStr source left right)).2 = between fillStr source left (right+1) := by
  have grown : between fillStr source left (right+1) = between fillStr source left right ++ fillStr := by
    rw [between,copies_succ',between,List.append_assoc,List.append_assoc,List.append_assoc]
  rw [grown,fillOnce,if_neg apart]
  by_cases both : fillType = FILL_TYPE_BOTH
  · rw [if_pos both,if_neg (back both)]
  · rw [if_neg both]

/-- Where the loop ends: the text has the length, and the last copy did not fit. -/
structure Looped (fillStr source : List C) (length fillType : ℤ) (i left right : ℕ) (result : List C)
    (after later : ℕ) : Prop where
  shape : result = between fillStr source after later
  enough : length ≤ result.length
  tight : result.length < length+fillStr.length ∨ result.length = (between fillStr source left right).length
  front : left ≤ after
  first : fillType = FILL_TYPE_LEFT ∨ fillType = FILL_TYPE_BOTH ∧ i % 2 = 0 →
    (between fillStr source left right).length < length → left < after
  onlyLeft : fillType = FILL_TYPE_LEFT → later = right
  onlyRight : fillType = FILL_TYPE_RIGHT → after = left

theorem copies_length (n : ℕ) (fillStr : List C) : (copies n fillStr).length = n*fillStr.length := by
  rw [copies,List.length_flatten,List.map_replicate,List.sum_replicate_nat]

theorem fillLoop_looped (fillStr : List C) (some : fillStr ≠ []) (source : List C) (length fillType : ℤ)
    (i left right : ℕ) : ∃ after later, Looped fillStr source length fillType i left right
      (fillLoop fillStr some length fillType i (between fillStr source left right)) after later := by
  have grows := List.length_pos_of_ne_nil some
  obtain ⟨gap,missing⟩ : ∃ gap : ℕ, gap = (length-(between fillStr source left right).length).toNat := ⟨_,rfl⟩
  induction gap using Nat.strong_induction_on generalizing i left right with
  | _ gap ih =>
    rw [fillLoop]
    by_cases short : (between fillStr source left right).length < length
    · rw [if_pos short]
      have size := fillOnce_length fillStr fillType i (between fillStr source left right)
      by_cases front : fillType = FILL_TYPE_LEFT ∨ fillType = FILL_TYPE_BOTH ∧ i % 2 = 0
      · have once := fillOnce_left fillStr source left right i front
        rw [once] at size ⊢
        obtain ⟨after,later,ran⟩ := ih _ (by omega) (fillOnce fillStr fillType i (between fillStr source left right)).1
          (left+1) right rfl
        refine ⟨after,later,ran.shape,ran.enough,?_,Nat.le_of_succ_le ran.front,fun _ _ => ran.front,ran.onlyLeft,?_⟩
        · rcases ran.tight with tight | same <;> exact .inl (by omega)
        · rintro rfl
          rcases front with type | ⟨type,_⟩
          · exact absurd type (by decide)
          · exact absurd type (by decide)
      · rw [not_or,not_and] at front
        have once := fillOnce_right fillStr source left right i front.1 front.2
        rw [once] at size ⊢
        obtain ⟨after,later,ran⟩ := ih _ (by omega) (fillOnce fillStr fillType i (between fillStr source left right)).1
          left (right+1) rfl
        refine ⟨after,later,ran.shape,ran.enough,?_,ran.front,?_,fun type => absurd type front.1,ran.onlyRight⟩
        · rcases ran.tight with tight | same <;> exact .inl (by omega)
        · rintro (type | ⟨type,even⟩) _
          · exact absurd type front.1
          · exact absurd even (front.2 type)
    · rw [if_neg short]
      exact ⟨left,right,rfl,by omega,.inr rfl,le_rfl,fun _ more => absurd more short,fun _ => rfl,fun _ => rfl⟩

theorem fillString_cut (source fillStr : List C) {length : ℕ} (fillType : ℤ) (enough : length ≤ source.length) :
    ∃ result, fillString source fillStr length fillType = some result ∧
      Filled source fillStr length fillType result := by
  have large : (length : ℤ) ≤ source.length := Int.ofNat_le.mpr enough
  rw [fillString,if_pos large,if_neg (by omega),Int.toNat_natCast]
  by_cases left : fillType = FILL_TYPE_LEFT
  · rw [if_pos left]
    refine ⟨_,rfl,?_,fun short => absurd short (by omega),fun _ => ⟨fun _ => List.drop_suffix _ _,?_⟩⟩
    · rw [List.length_drop]
      omega
    · exact fun other => absurd left other
  · rw [if_neg left]
    refine ⟨_,rfl,?_,fun short => absurd short (by omega),fun _ => ⟨?_,fun _ => List.take_prefix _ _⟩⟩
    · rw [List.length_take]
      omega
    · exact fun type => absurd type left

theorem fillString_grown (source fillStr : List C) (some : fillStr ≠ []) {length : ℕ} {fillType : ℤ}
    (type : fillType ∈ [FILL_TYPE_LEFT,FILL_TYPE_RIGHT,FILL_TYPE_BOTH]) (short : source.length < length) :
    ∃ result, fillString source fillStr length fillType = Option.some result ∧
      Filled source fillStr length fillType result := by
  obtain ⟨after,later,ran⟩ := fillLoop_looped fillStr some source length fillType 0 0 0
  have start : between fillStr source 0 0 = source := List.append_nil source
  rw [start] at ran
  obtain ⟨shape,enough,tight,_,first,onlyLeft,onlyRight⟩ := ran
  rw [fillString,if_neg (by omega),dif_neg some]
  dsimp only
  rw [start] at tight first
  generalize fillLoop fillStr some length fillType 0 source = looped at shape enough tight ⊢
  have longer : looped.length < length+fillStr.length := by omega
  by_cases right : fillType = FILL_TYPE_RIGHT
  · have front := onlyRight right
    subst front
    have whole : looped = source ++ copies later fillStr := shape
    refine ⟨_,if_pos right,?_,fun _ => ?_,fun enough => absurd short (by omega)⟩
    · rw [Int.toNat_natCast,List.length_take]
      omega
    · refine ⟨[],(copies later fillStr).take (length-source.length),?_,⟨0,List.nil_suffix⟩,
        ⟨later,List.take_prefix _ _⟩,fun left => absurd (right.symm.trans left) (by decide),fun _ => rfl⟩
      rw [Int.toNat_natCast,whole,List.take_append,List.take_of_length_le (by omega)]
      rfl
  · have front : FILL_TYPE_LEFT = fillType ∨ FILL_TYPE_BOTH = fillType := by
      simpa [eq_comm,right] using type
    have positive : 0 < after :=
      first (front.imp Eq.symm fun both => ⟨both.symm,rfl⟩) (Int.ofNat_lt.mpr short)
    have room : looped.length-length ≤ (copies after fillStr).length := by
      rw [copies_length]
      have one := Nat.mul_le_mul_right fillStr.length positive
      omega
    refine ⟨_,if_neg right,?_,fun _ => ?_,fun enough => absurd short (by omega)⟩
    · rw [Int.toNat_natCast,List.length_drop]
      omega
    · refine ⟨(copies after fillStr).drop (looped.length-length),copies later fillStr,?_,⟨after,List.drop_suffix _ _⟩,
        ⟨later,List.prefix_rfl⟩,fun left => by rw [onlyLeft left]; rfl,fun type => absurd type right⟩
      rw [Int.toNat_natCast,List.append_assoc,← List.drop_append_of_le_length room]
      rw [shape,between,List.append_assoc]

/-- Filling gives exactly the length in UTF-16 units: it never cuts off a source that is shorter. -/
theorem fillString_filled (source fillStr : Text) (some : fillStr ≠ []) (length : ℕ) {fillType : ℤ}
    (type : fillType ∈ [FILL_TYPE_LEFT,FILL_TYPE_RIGHT,FILL_TYPE_BOTH]) :
    ∃ result, fillString source fillStr length fillType = Option.some result ∧
      Filled source fillStr length fillType result := by
  rcases Nat.lt_or_ge source.length length with short | enough
  · exact fillString_grown source fillStr some type short
  · exact fillString_cut source fillStr fillType enough

/-- A source of two units, a surrogate pair, filled on both sides to seven. -/
theorem fillString_filled_both :
    ∃ result, fillString [0xD83D,0xDE00] (units "xyz") 7 FILL_TYPE_BOTH = some result ∧
      Filled [0xD83D,0xDE00] (units "xyz") 7 FILL_TYPE_BOTH result :=
  fillString_filled [0xD83D,0xDE00] (units "xyz") (by decide) 7 (by decide)

end YzFramework.Util.StringUtil
