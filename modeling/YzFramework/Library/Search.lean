import Mathlib.Data.List.Basic

/-! Searching for a part of a sequence: the first place it starts at, and its replacement
from left to right. -/
namespace YzFramework.Library.Search

variable {α : Type*} [DecidableEq α]

/-- `String.indexOf`. -/
def indexOf (pattern : List α) : List α → Option ℕ
  | [] => if pattern = [] then some 0 else none
  | c::rest => if pattern <+: c::rest then some 0 else (indexOf pattern rest).map (· + 1)

theorem indexOf_none {pattern text : List α} : indexOf pattern text = none ↔ ¬ pattern <:+: text := by
  induction text with
  | nil => simp [indexOf]
  | cons c rest ih =>
    rw [indexOf,List.infix_cons_iff]
    split
    next begun => simp [begun]
    next other => simp [other,ih]

theorem indexOf_some {pattern text : List α} {index : ℕ} (found : indexOf pattern text = some index) :
    ∃ after, text = text.take index ++ pattern ++ after := by
  induction text generalizing index with
  | nil =>
    rw [indexOf] at found
    split at found
    next empty => exact ⟨[],by simp [empty]⟩
    next => cases found
  | cons c rest ih =>
    rw [indexOf] at found
    split at found
    next begun =>
      cases found
      obtain ⟨after,same⟩ := begun
      exact ⟨after,by simp [same]⟩
    next =>
      obtain ⟨before,later,rfl⟩ := Option.map_eq_some_iff.mp found
      obtain ⟨after,same⟩ := ih later
      refine ⟨after,?_⟩
      rw [List.take_succ_cons,List.cons_append,List.cons_append,← same]

omit [DecidableEq α] in
theorem prefix_before {c : α} {pattern before : List α} (plain : c ∉ pattern) (after : List α) :
    pattern <+: before ++ c::after ↔ pattern <+: before := by
  induction pattern generalizing before with
  | nil => simp
  | cons first rest ih =>
    rw [List.mem_cons,not_or] at plain
    cases before with
    | nil => simp [Ne.symm plain.1]
    | cons other before =>
      rw [List.cons_append,List.cons_prefix_cons,List.cons_prefix_cons,ih plain.2]

theorem indexOf_append {first : α} {rest before : List α} (once : first ∉ rest)
    (absent : ¬ first::rest <:+: before) (after : List α) :
    indexOf (first::rest) (before ++ first::(rest ++ after)) = some before.length := by
  induction before with
  | nil => simp [indexOf]
  | cons c before ih =>
    rw [List.infix_cons_iff,not_or] at absent
    have apart : ¬ first::rest <+: c::(before ++ first::(rest ++ after)) := by
      rw [List.cons_prefix_cons,prefix_before once]
      exact fun begun => absent.1 (List.cons_prefix_cons.mpr begun)
    rw [List.cons_append,indexOf,if_neg apart,ih absent.2]
    rfl

theorem indexOf_first {pattern before after : List α} (first : ∀ front back,
      before ++ pattern ++ after = front ++ pattern ++ back → before.length ≤ front.length) :
    indexOf pattern (before ++ pattern ++ after) = some before.length := by
  induction before with
  | nil =>
    rw [List.nil_append]
    cases shape : pattern ++ after with
    | nil => rw [indexOf,if_pos (List.append_eq_nil_iff.mp shape).1,List.length_nil]
    | cons c rest => rw [indexOf,if_pos (shape ▸ List.prefix_append pattern after),List.length_nil]
  | cons c before ih =>
    have apart : ¬ pattern <+: c::(before ++ pattern ++ after) := by
      rintro ⟨back,same⟩
      exact absurd (first [] back same.symm) (by simp)
    have later := ih fun front back same =>
      Nat.le_of_succ_le_succ (first (c::front) back (congrArg (c::·) same))
    rw [List.cons_append,List.cons_append,indexOf,if_neg apart,later]
    rfl

/-- The places of a pattern that is not empty, each behind the one before. The numbers say
how much of the last one is still ahead, and where the text begins. -/
def occurrencesFrom (pattern : List α) : ℕ → ℕ → List α → List (ℕ × ℕ)
  | _, _, [] => []
  | ahead+1, index, _::rest => occurrencesFrom pattern ahead (index+1) rest
  | 0, index, c::rest =>
    if pattern <+: c::rest then
      (index,index+pattern.length)::occurrencesFrom pattern (pattern.length-1) (index+1) rest
    else occurrencesFrom pattern 0 (index+1) rest

def occurrences (pattern text : List α) : List (ℕ × ℕ) := occurrencesFrom pattern 0 0 text

theorem occurrencesFrom_head {pattern : List α} (some : pattern ≠ []) (text : List α) (index : ℕ) :
    (occurrencesFrom pattern 0 index text).head? =
      (indexOf pattern text).map fun start => (index+start,index+start+pattern.length) := by
  induction text generalizing index with
  | nil => rw [occurrencesFrom,indexOf,if_neg some]; rfl
  | cons c rest ih =>
    rw [occurrencesFrom,indexOf]
    split
    next => rfl
    next =>
      rw [ih,Option.map_map]
      apply Option.map_congr
      intro start _
      simp only [Function.comp_apply,Prod.mk.injEq]
      omega

theorem occurrences_none {pattern text : List α} (some : pattern ≠ []) (absent : ¬ pattern <:+: text) :
    occurrences pattern text = [] := by
  have head := occurrencesFrom_head some text 0
  rw [indexOf_none.mpr absent,Option.map_none,List.head?_eq_none_iff] at head
  exact head

theorem occurrencesFrom_length (pattern text : List α) (index : ℕ) :
    occurrencesFrom pattern text.length index text = [] := by
  induction text generalizing index with
  | nil => rfl
  | cons c rest ih => exact ih (index+1)

theorem occurrencesFrom_end {pattern before : List α} (some : pattern ≠ [])
    (found : indexOf pattern (before ++ pattern) = Option.some before.length) (index : ℕ) :
    occurrencesFrom pattern 0 index (before ++ pattern) =
      [(index+before.length,index+before.length+pattern.length)] := by
  induction before generalizing index with
  | nil =>
    obtain ⟨c,rest,rfl⟩ := List.exists_cons_of_ne_nil some
    rw [List.nil_append,occurrencesFrom,if_pos List.prefix_rfl,List.length_cons,Nat.add_sub_cancel,
      occurrencesFrom_length]
    rfl
  | cons c before ih =>
    rw [List.cons_append,indexOf] at found
    split at found
    next => cases found
    next apart =>
      obtain ⟨start,later,size⟩ := Option.map_eq_some_iff.mp found
      rw [List.length_cons,Nat.add_right_cancel_iff] at size
      rw [List.cons_append,occurrencesFrom,if_neg apart,ih (size ▸ later),List.length_cons,
        Nat.add_right_comm index 1]
      rfl

/-- `String.replace` for a target that is not empty: from left to right, going on behind
each part that was replaced. The number says how much of that part is still ahead. -/
def replaceFrom (target replacement : List α) : ℕ → List α → List α
  | _, [] => []
  | ahead+1, _::rest => replaceFrom target replacement ahead rest
  | 0, c::rest =>
    if target <+: c::rest then replacement ++ replaceFrom target replacement (target.length-1) rest
    else c::replaceFrom target replacement 0 rest

def replace (target replacement text : List α) : List α := replaceFrom target replacement 0 text

theorem replace_nil (target replacement : List α) : replace target replacement [] = [] := rfl

theorem replaceFrom_append {c : α} {target : List α} (some : target ≠ []) (plain : c ∉ target)
    (replacement before after : List α) (ahead : ℕ) (bound : ahead ≤ before.length) :
    replaceFrom target replacement ahead (before ++ c::after) =
      replaceFrom target replacement ahead before ++ c::replace target replacement after := by
  induction before generalizing ahead with
  | nil =>
    obtain rfl : ahead = 0 := Nat.le_zero.mp bound
    have apart : ¬ target <+: c::after := fun begun =>
      some (List.prefix_nil.mp ((prefix_before plain after).mp begun))
    simp only [List.nil_append,replaceFrom,if_neg apart]
    rfl
  | cons first rest ih =>
    cases ahead with
    | succ ahead => exact ih ahead (Nat.le_of_succ_le_succ bound)
    | zero =>
      have starts : target <+: first::rest ++ c::after ↔ target <+: first::rest :=
        prefix_before plain after
      rw [List.cons_append] at starts
      rw [List.cons_append,replaceFrom,replaceFrom]
      by_cases begun : target <+: first::rest
      · have size := begun.length_le
        rw [List.length_cons] at size
        rw [if_pos (starts.mpr begun),if_pos begun,ih _ (by omega),List.append_assoc]
      · rw [if_neg (begun ∘ starts.mp),if_neg begun,ih 0 (Nat.zero_le _),List.cons_append]

theorem replace_append {c : α} {target : List α} (some : target ≠ []) (plain : c ∉ target)
    (replacement before after : List α) : replace target replacement (before ++ c::after) =
      replace target replacement before ++ c::replace target replacement after :=
  replaceFrom_append some plain replacement before after 0 (Nat.zero_le _)

theorem replace_none {target text : List α} (absent : ¬ target <:+: text) (replacement : List α) :
    replace target replacement text = text := by
  induction text with
  | nil => rfl
  | cons c rest ih =>
    rw [List.infix_cons_iff,not_or] at absent
    rw [replace,replaceFrom,if_neg absent.1]
    exact congrArg (c::·) (ih absent.2)

theorem mem_replaceFrom {target replacement text : List α} {ahead : ℕ} {c : α}
    (inside : c ∈ replaceFrom target replacement ahead text) : c ∈ replacement ∨ c ∈ text := by
  induction text generalizing ahead with
  | nil => cases inside
  | cons first rest ih =>
    cases ahead with
    | succ ahead => exact (ih inside).imp_right (List.mem_cons_of_mem _)
    | zero =>
      rw [replaceFrom] at inside
      split at inside
      next =>
        rcases List.mem_append.mp inside with put | later
        · exact .inl put
        · exact (ih later).imp_right (List.mem_cons_of_mem _)
      next =>
        rcases List.mem_cons.mp inside with rfl | later
        · exact .inr List.mem_cons_self
        · exact (ih later).imp_right (List.mem_cons_of_mem _)

theorem replaceFrom_length (target replacement text : List α) :
    replaceFrom target replacement text.length text = [] := by
  induction text with
  | nil => rfl
  | cons c rest ih => exact ih

theorem replace_whole {target : List α} (some : target ≠ []) (replacement : List α) :
    replace target replacement target = replacement := by
  cases target with
  | nil => contradiction
  | cons c rest =>
    rw [replace,replaceFrom,if_pos (List.prefix_refl _),List.length_cons,Nat.add_sub_cancel,
      replaceFrom_length,List.append_nil]

theorem replaceFrom_self {target : List α} (some : target ≠ []) (text : List α) (ahead : ℕ) :
    replaceFrom target target ahead text = text.drop ahead := by
  induction text generalizing ahead with
  | nil => simp [replaceFrom]
  | cons c rest ih =>
    cases ahead with
    | succ ahead => exact ih ahead
    | zero =>
      rw [replaceFrom,List.drop_zero]
      split
      next begun =>
        obtain ⟨after,same⟩ := begun
        obtain ⟨first,others,rfl⟩ := List.exists_cons_of_ne_nil some
        rw [List.cons_append,List.cons.injEq] at same
        rw [ih,← same.1,← same.2]
        simp
      next => rw [ih,List.drop_zero]

theorem replace_self {target : List α} (some : target ≠ []) (text : List α) :
    replace target target text = text := replaceFrom_self some text 0

theorem replaceFrom_ahead (target replacement before after : List α) :
    replaceFrom target replacement before.length (before ++ after) = replace target replacement after := by
  induction before with
  | nil => rfl
  | cons c rest ih => exact ih

theorem replace_target {target : List α} (some : target ≠ []) (replacement after : List α) :
    replace target replacement (target ++ after) = replacement ++ replace target replacement after := by
  obtain ⟨c,rest,rfl⟩ := List.exists_cons_of_ne_nil some
  have begun : c::rest <+: c::(rest ++ after) := List.prefix_append (c::rest) after
  rw [List.cons_append,replace,replaceFrom,if_pos begun,List.length_cons,Nat.add_sub_cancel,replaceFrom_ahead]

theorem replace_kept {target before : List α} (replacement after : List α)
    (apart : ∀ left right, before = left ++ right → right ≠ [] → ¬ target <+: right ++ after) :
    replace target replacement (before ++ after) = before ++ replace target replacement after := by
  induction before with
  | nil => rfl
  | cons c rest ih =>
    have here := apart [] (c::rest) rfl (List.cons_ne_nil _ _)
    rw [List.cons_append] at here
    rw [List.cons_append,replace,replaceFrom,if_neg here,List.cons_append]
    exact congrArg (c::·) (ih fun left right same => apart (c::left) right (congrArg (c::·) same))

theorem replace_plain {first : α} {rest before : List α} (plain : first ∉ before) (replacement after : List α) :
    replace (first::rest) replacement (before ++ after) = before ++ replace (first::rest) replacement after := by
  apply replace_kept
  rintro left right rfl others ⟨more,same⟩
  obtain ⟨c,right,rfl⟩ := List.exists_cons_of_ne_nil others
  cases (List.cons.inj same).1
  exact plain (List.mem_append_right _ List.mem_cons_self)

/-- What stands before the first occurrence is kept. -/
theorem replace_before {first : α} {rest before : List α} (once : first ∉ rest)
    (absent : ¬ first::rest <:+: before) (replacement after : List α) :
    replace (first::rest) replacement (before ++ first::(rest ++ after)) =
      before ++ (replacement ++ replace (first::rest) replacement after) := by
  rw [replace_kept,← List.cons_append,replace_target (List.cons_ne_nil _ _)]
  rintro left right rfl others begun
  obtain ⟨c,right,rfl⟩ := List.exists_cons_of_ne_nil others
  rw [List.cons_append,List.cons_prefix_cons,prefix_before once] at begun
  obtain ⟨rfl,inside⟩ := begun
  exact absent (List.IsInfix.trans (List.IsPrefix.isInfix (List.cons_prefix_cons.mpr ⟨rfl,inside⟩))
    (List.suffix_append left (first::right)).isInfix)

omit [DecidableEq α] in
theorem first_occurrence {pattern text : List α} (some : pattern ≠ []) (inside : pattern <:+: text) :
    ∃ left right, text = left ++ pattern ++ right ∧ ¬ pattern <:+: left := by
  obtain ⟨left,right,shape⟩ := inside
  by_cases earlier : pattern <:+: left
  · have _ : left.length < text.length := by
      have positive := List.length_pos_of_ne_nil some
      rw [← shape,List.length_append,List.length_append]
      omega
    obtain ⟨before,after,split,absent⟩ := first_occurrence some earlier
    exact ⟨before,after ++ pattern ++ right,by rw [← shape,split]; simp,absent⟩
  · exact ⟨left,right,shape.symm,earlier⟩
termination_by text.length

def joined (target : List α) (parts : List (Option (List α))) : List α := parts.flatMap (·.getD target)

/-- The target occurs only where it was put. -/
def Only (target : List α) (parts : List (Option (List α))) : Prop :=
  ∀ before after, joined target parts = before ++ target ++ after →
    ∃ front back, parts = front ++ none::back ∧ joined target front = before

omit [DecidableEq α] in
theorem joined_cons (target : List α) (part : Option (List α)) (parts : List (Option (List α))) :
    joined target (part::parts) = part.getD target ++ joined target parts := List.flatMap_cons

omit [DecidableEq α] in
theorem only_tail {target : List α} (some : target ≠ []) {part : Option (List α)} {parts : List (Option (List α))}
    (only : Only target (part::parts)) : Only target parts := by
  intro before after same
  have whole : joined target (part::parts) = part.getD target ++ before ++ target ++ after := by
    rw [joined_cons,same,List.append_assoc,List.append_assoc,List.append_assoc]
  obtain ⟨front,back,split,ends⟩ := only _ _ whole
  cases front with
  | nil =>
    cases split
    exact absurd (List.append_eq_nil_iff.mp ends.symm).1 some
  | cons first front =>
    cases split
    rw [joined_cons,List.append_cancel_left_eq] at ends
    exact ⟨front,back,rfl,ends⟩

theorem replace_joined {target : List α} (some : target ≠ []) (replacement : List α) (parts : List (Option (List α)))
    (only : Only target parts) : replace target replacement (joined target parts) = joined replacement parts := by
  induction parts with
  | nil => rfl
  | cons part parts ih =>
    have later := ih (only_tail some only)
    rw [joined_cons,joined_cons]
    cases part with
    | none => rw [Option.getD_none,replace_target some,later,Option.getD_none]
    | some text =>
      rw [Option.getD_some,Option.getD_some,replace_kept,later]
      rintro left right rfl begun ⟨after,same⟩
      have whole : joined target (Option.some (left ++ right)::parts) = left ++ target ++ after := by
        rw [joined_cons,Option.getD_some,List.append_assoc,← same,List.append_assoc]
      obtain ⟨front,back,split,ends⟩ := only _ _ whole
      cases front with
      | nil => cases split
      | cons first front =>
        cases split
        have size := congrArg List.length ends
        rw [joined_cons,Option.getD_some,List.length_append,List.length_append] at size
        have positive := List.length_pos_of_ne_nil begun
        omega

omit [DecidableEq α] in
theorem infix_joined {target : List α} {parts : List (Option (List α))} (only : Only target parts) :
    target <:+: joined target parts ↔ none ∈ parts := by
  constructor
  · rintro ⟨before,after,same⟩
    obtain ⟨front,back,rfl,_⟩ := only before after same.symm
    exact List.mem_append_right _ List.mem_cons_self
  · intro inside
    obtain ⟨front,back,rfl⟩ := List.append_of_mem inside
    refine ⟨joined target front,joined target back,?_⟩
    rw [joined,joined,joined,List.flatMap_append,List.flatMap_cons,Option.getD_none,List.append_assoc]

omit [DecidableEq α] in
theorem append_before {c : α} {part rest before after : List α} (plain : c ∉ part)
    (same : part ++ rest = before ++ c::after) : ∃ more, before = part ++ more ∧ rest = more ++ c::after := by
  rcases List.append_eq_append_iff.mp same with ⟨more,split,later⟩ | ⟨more,split,later⟩
  · exact ⟨more,split,later⟩
  · cases more with
    | nil => exact ⟨[],by rw [split]; simp,by simpa using later.symm⟩
    | cons first more =>
      cases later
      exact absurd (split ▸ List.mem_append_right _ List.mem_cons_self) plain

omit [DecidableEq α] in
/-- A bracketed target occurs only where it was put if every bracket that opens in
another part closes there around something else. -/
theorem only_bracketed {first last : α} (differ : first ≠ last) {key : List α} (opens : first ∉ key) (closes : last ∉ key)
    (parts : List (Option (List α))) (apart : ∀ text, some text ∈ parts → first ∉ text ∨
      ∃ other, text = first::(other ++ [last]) ∧ other ≠ key ∧ first ∉ other ∧ last ∉ other) :
    Only (first::(key ++ [last])) parts := by
  have inner : ∀ {text : List α}, first ∉ text → first ∉ text ++ [last] := by
    intro text plain inside
    rcases List.mem_append.mp inside with early | late
    · exact plain early
    · exact differ (List.mem_singleton.mp late)
  induction parts with
  | nil =>
    intro before after same
    have sizes := congrArg List.length same
    simp [joined] at sizes
  | cons part parts ih =>
    have later := ih fun text inside => apart text (List.mem_cons_of_mem _ inside)
    intro before after same
    rw [joined_cons,List.append_assoc,List.cons_append] at same
    -- An occurrence behind the first part is one of the others.
    have behind : ∀ more, before = part.getD (first::(key ++ [last])) ++ more →
        joined (first::(key ++ [last])) parts = more ++ first::(key ++ [last] ++ after) →
        ∃ front back, part::parts = front ++ none::back ∧ joined (first::(key ++ [last])) front = before := by
      intro more split rest
      obtain ⟨front,back,shape,ends⟩ := later more after (rest.trans (by simp))
      exact ⟨part::front,back,by rw [shape,List.cons_append],by rw [joined_cons,ends,split]⟩
    cases part with
    | none =>
      cases before with
      | nil => exact ⟨[],parts,rfl,rfl⟩
      | cons c before =>
        cases (List.cons.inj same).1
        obtain ⟨more,split,rest⟩ := append_before (inner opens) (List.cons.inj same).2
        exact behind more (by rw [split]; rfl) rest
    | some text =>
      rcases apart text List.mem_cons_self with plain | ⟨other,rfl,unequal,open_,closed⟩
      · obtain ⟨more,split,rest⟩ := append_before plain same
        exact behind more split rest
      · cases before with
        | nil =>
          have bodies : other ++ last::joined (first::(key ++ [last])) parts = key ++ last::after := by
            simpa using same
          obtain ⟨more,split,rest⟩ := append_before closed bodies
          cases more with
          | nil => exact absurd (split.trans (List.append_nil _)).symm unequal
          | cons c more =>
            cases (List.cons.inj rest).1
            exact absurd (split ▸ List.mem_append_right _ List.mem_cons_self) closes
        | cons c before =>
          cases (List.cons.inj same).1
          obtain ⟨more,split,rest⟩ := append_before (inner open_) (List.cons.inj same).2
          exact behind more (by rw [split]; rfl) rest

end YzFramework.Library.Search
