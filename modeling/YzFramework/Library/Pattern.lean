import YzFramework.Library.Search
import YzFramework.Library.Properties
import Mathlib.Data.List.DropRight

/-! Java texts in UTF-16 units and their regular expressions. A regular expression is
given by what compiles a text to it: `none` is a syntax error, else a text has the places,
from a start to an end, that are found in it one after the other. -/
namespace YzFramework.Library.Pattern
open Search
open Properties (Text unit)

abbrev Compile := Text → Option (Text → List (ℕ × ℕ))

def space : UInt16 := unit ' '

def opening : UInt16 := unit '<'

def closing : UInt16 := unit '>'

def trim (text : Text) : Text := (text.dropWhile (· ≤ space)).rdropWhile (· ≤ space)

def substring (text : Text) (start stop : ℕ) : Option Text :=
  if start ≤ stop ∧ stop ≤ text.length then some ((text.drop start).take (stop-start)) else none

/-- `String.replaceFirst` with a replacement in which nothing stands for a group. -/
def replaceFirst (compile : Compile) (regex replacement text : Text) : Option Text :=
  (compile regex).map fun find =>
    match find text with
    | [] => text
    | (start,stop)::_ => text.take start ++ replacement ++ text.drop stop

/-- The regular expression is read as the text itself: what is found first is its first
occurrence. -/
def Literal (compile : Compile) (pattern : Text) : Prop :=
  ∃ find, compile pattern = some find ∧
    ∀ text, (find text).head? = (indexOf pattern text).map fun start => (start,start+pattern.length)

def Blank (text : Text) : Prop := ∀ u ∈ text, u ≤ space

structure Trimmed (text : Text) : Prop where
  head : ∀ u ∈ text.head?, ¬ u ≤ space
  last : ∀ u ∈ text.getLast?, ¬ u ≤ space

theorem substring_some {text part : Text} {start stop : ℕ} (cut : substring text start stop = some part) :
    stop = start+part.length ∧ (text.drop start).take part.length = part := by
  rw [substring] at cut
  split at cut
  next room =>
    have shape := Option.some.inj cut
    have size : part.length = stop-start := by
      rw [← shape,List.length_take,List.length_drop]
      omega
    exact ⟨by omega,by rw [size,shape]⟩
  next => cases cut

theorem substring_eq {text part : Text} {start : ℕ} (room : start ≤ text.length)
    (kept : (text.drop start).take part.length = part) : substring text start (start+part.length) = some part := by
  have size := congrArg List.length kept
  rw [List.length_take,List.length_drop] at size
  rw [substring,if_pos ⟨by omega,by omega⟩,Nat.add_sub_cancel_left,kept]

theorem replaceFirst_head {compile : Compile} {find : Text → List (ℕ × ℕ)} {pattern before after : Text}
    (compiled : compile pattern = some find) (head : (find (before ++ pattern ++ after)).head? =
      some (before.length,before.length+pattern.length)) (replacement : Text) :
    replaceFirst compile pattern replacement (before ++ pattern ++ after) = some (before ++ replacement ++ after) := by
  obtain ⟨rest,places⟩ := List.head?_eq_some_iff.mp head
  rw [replaceFirst,compiled,Option.map_some,places]
  simp

theorem replaceFirst_literal {compile : Compile} {pattern : Text} (literal : Literal compile pattern)
    (replacement : Text) {before after : Text} (found : indexOf pattern (before ++ pattern ++ after) = some before.length) :
    replaceFirst compile pattern replacement (before ++ pattern ++ after) = some (before ++ replacement ++ after) := by
  obtain ⟨find,compiled,finds⟩ := literal
  have head := finds (before ++ pattern ++ after)
  rw [found,Option.map_some] at head
  exact replaceFirst_head compiled head replacement

theorem dropWhile_kept {c : UInt16} (kept : ¬ c ≤ space) (before after : Text) :
    (before ++ c::after).dropWhile (· ≤ space) = before.dropWhile (· ≤ space) ++ c::after := by
  rw [List.dropWhile_append]
  split
  next empty =>
    rw [List.isEmpty_iff.mp empty,List.nil_append,List.dropWhile_cons_of_neg (by simpa using kept)]
  next => rfl

theorem rdropWhile_kept {c : UInt16} (kept : ¬ c ≤ space) (before after : Text) :
    (before ++ c::after).rdropWhile (· ≤ space) = before ++ c::after.rdropWhile (· ≤ space) := by
  rw [List.rdropWhile,List.reverse_append,List.reverse_cons,List.append_assoc,List.singleton_append,
    dropWhile_kept kept,List.reverse_append,List.reverse_cons,List.reverse_reverse,List.append_assoc]
  rfl

theorem trim_around {middle : Text} (trimmed : Trimmed middle) (some : middle ≠ []) (front back : Text) :
    trim (front ++ middle ++ back) = front.dropWhile (· ≤ space) ++ middle ++ back.rdropWhile (· ≤ space) := by
  obtain ⟨first,others,shape⟩ := List.exists_cons_of_ne_nil some
  obtain ⟨start,last,final⟩ := List.eq_nil_or_concat' middle |>.resolve_left some
  have head : ¬ first ≤ space := trimmed.head first (by rw [shape]; rfl)
  have tail : ¬ last ≤ space := trimmed.last last (by rw [final,List.getLast?_concat]; rfl)
  have begun : (front ++ middle ++ back).dropWhile (· ≤ space) = front.dropWhile (· ≤ space) ++ middle ++ back := by
    rw [shape,List.append_assoc,List.cons_append,dropWhile_kept head,List.append_assoc,List.cons_append]
  rw [trim,begun,final,← List.append_assoc,List.append_assoc _ [last],List.singleton_append,rdropWhile_kept tail,
    List.append_cons]

theorem trim_nil {text : Text} : trim text = [] ↔ Blank text := by
  constructor
  · intro empty u inside
    rw [trim,List.rdropWhile_eq_nil_iff] at empty
    by_contra above
    obtain ⟨before,after,rfl⟩ := List.append_of_mem inside
    rw [dropWhile_kept above] at empty
    exact above (by simpa using empty u (List.mem_append_right _ List.mem_cons_self))
  · intro blank
    rw [trim,List.dropWhile_eq_nil_iff.mpr (by simpa [Blank] using blank)]
    rfl

theorem trim_shape (text : Text) : ∃ front back, text = front ++ trim text ++ back ∧
    Blank front ∧ Blank back ∧ Trimmed (trim text) := by
  refine ⟨text.takeWhile (· ≤ space),(text.dropWhile (· ≤ space)).rtakeWhile (· ≤ space),?_,?_,?_,?_,?_⟩
  · rw [List.append_assoc,trim,List.rdropWhile_append_rtakeWhile,List.takeWhile_append_dropWhile]
  · intro u inside
    simpa using List.mem_takeWhile_imp inside
  · intro u inside
    simpa using List.mem_rtakeWhile_imp inside
  · intro u begins
    have before : (trim text) <+: text.dropWhile (· ≤ space) := List.rdropWhile_prefix _ _
    obtain ⟨rest,shape⟩ := List.head?_eq_some_iff.mp begins
    rw [shape] at before
    obtain ⟨more,same⟩ := before
    have first := List.head?_dropWhile_not (fun v => decide (v ≤ space)) text
    rw [← same] at first
    simpa using first
  · intro u ends
    obtain ⟨start,final⟩ := List.getLast?_eq_some_iff.mp ends
    have some : (text.dropWhile (· ≤ space)).rdropWhile (· ≤ space) ≠ [] := fun empty => by
      rw [trim,empty] at final
      exact List.append_ne_nil_of_right_ne_nil _ (List.cons_ne_nil _ _) final.symm
    have last := List.rdropWhile_last_not _ _ some
    simp only [← trim.eq_def,final,List.getLast_concat] at last
    simpa using last

theorem blank_nil : Blank [] := fun _ inside => absurd inside List.not_mem_nil

theorem trim_blanks {front middle back : Text} (before : Blank front) (trimmed : Trimmed middle)
    (some : middle ≠ []) (behind : Blank back) : trim (front ++ middle ++ back) = middle := by
  have gone : front.dropWhile (· ≤ space) = [] := List.dropWhile_eq_nil_iff.mpr (by simpa [Blank] using before)
  have left : back.rdropWhile (· ≤ space) = [] := List.rdropWhile_eq_nil_iff.mpr (by simpa [Blank] using behind)
  rw [trim_around trimmed some,gone,left,List.nil_append,List.append_nil]

theorem trim_self {text : Text} (trimmed : Trimmed text) : trim text = text := by
  obtain rfl | some := eq_or_ne text []
  · rfl
  · simpa using trim_blanks blank_nil trimmed some blank_nil

theorem trim_append {before after : Text} (first : trim before ≠ []) (last : trim after ≠ []) :
    ∃ gap, trim (before ++ after) = trim before ++ gap ++ trim after := by
  obtain ⟨front,inner,shape,blank,_,trimmed⟩ := trim_shape before
  obtain ⟨outer,back,same,_,behind,ends⟩ := trim_shape after
  refine ⟨inner ++ outer,?_⟩
  have whole : before ++ after = front ++ (trim before ++ (inner ++ outer) ++ trim after) ++ back := by
    simpa using congrArg₂ (· ++ ·) shape same
  rw [whole]
  apply trim_blanks blank _ (List.append_ne_nil_of_right_ne_nil _ last) behind
  refine ⟨fun u begun => trimmed.head u ?_,fun u ended => ends.last u ?_⟩
  · rwa [List.append_assoc,List.head?_append_of_ne_nil _ first] at begun
  · rwa [List.getLast?_append_of_ne_nil _ last] at ended

theorem trim_last (before : Text) {after : Text} (last : trim after ≠ []) :
    (trim (before ++ after)).getLast? = (trim after).getLast? := by
  by_cases first : trim before = []
  · obtain ⟨front,back,shape,blank,behind,trimmed⟩ := trim_shape after
    have whole : before ++ after = (before ++ front) ++ trim after ++ back := by
      simpa using congrArg (before ++ ·) shape
    rw [whole,trim_blanks _ trimmed last behind]
    intro u inside
    exact (List.mem_append.mp inside).elim (trim_nil.mp first u) (blank u)
  · obtain ⟨gap,shape⟩ := trim_append first last
    rw [shape,List.getLast?_append_of_ne_nil _ last]

theorem trim_longer {before after : Text} (first : trim before ≠ []) (last : trim after ≠ []) :
    (trim before).length < (trim (before ++ after)).length ∧ (trim after).length < (trim (before ++ after)).length := by
  obtain ⟨gap,shape⟩ := trim_append first last
  have positive := List.length_pos_of_ne_nil first
  have other := List.length_pos_of_ne_nil last
  rw [shape,List.length_append,List.length_append]
  omega

end YzFramework.Library.Pattern
