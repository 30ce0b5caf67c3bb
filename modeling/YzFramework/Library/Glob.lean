import YzFramework.Library.Search
import Mathlib.Data.List.Infix

/-! Wildcard patterns, and the regular expressions that a wildcard pattern is translated
to: plain characters, escaped dots and `.*`. -/
namespace YzFramework.Library.Glob

def glob : List Char → List Char → Bool
  | [], text => text.isEmpty
  | c::pattern, text =>
    if c = '*' then text.tails.any (glob pattern)
    else text.head? == some c && glob pattern text.tail

inductive Token where
  | char (c : Char)
  | anyStar

def plain (c : Char) : Bool := c.isAlphanum

/-- The expression as a list of tokens, where it has no others. -/
def compile : List Char → Option (List Token)
  | [] => some []
  | [c] => if plain c then some [.char c] else none
  | c::d::rest =>
    if c = '\\' ∧ d = '.' then (compile rest).map (.char '.'::·)
    else if c = '.' ∧ d = '*' then (compile rest).map (.anyStar::·)
    else if plain c then (compile (d::rest)).map (.char c::·)
    else none

/-- A dot does not stand for these. -/
def terminator (c : Char) : Bool :=
  c == '\n' || c == '\r' || c == '\u0085' || c == '\u2028' || c == '\u2029'

/-- What may be left of a text when `.*` has taken its part. -/
def skips : List Char → List (List Char)
  | [] => [[]]
  | c::rest => (c::rest)::if terminator c then [] else skips rest

def begins : List Token → List Char → Bool
  | [], _ => true
  | .char c::tokens, text => text.head? == some c && begins tokens text.tail
  | .anyStar::tokens, text => (skips text).any (begins tokens)

/-- `Matcher.find`. -/
def find (tokens : List Token) (text : List Char) : Bool := text.tails.any (begins tokens)

def regex (pattern : List Char) : List Char :=
  Search.replace ['*'] ['.','*'] (Search.replace ['.'] ['\\','.'] pattern)

def tokens (pattern : List Char) : List Token :=
  pattern.map fun c => if c = '*' then .anyStar else .char c

theorem glob_star (pattern text : List Char) :
    glob ('*'::pattern) text = true ↔ ∃ ending, ending <:+ text ∧ glob pattern ending = true := by
  rw [glob,if_pos rfl,List.any_eq_true]
  simp only [List.mem_tails]

theorem glob_plain {pattern : List Char} (plain : '*' ∉ pattern) (text : List Char) :
    glob pattern text = true ↔ pattern = text := by
  induction pattern generalizing text with
  | nil => rw [glob,List.isEmpty_iff,eq_comm]
  | cons c rest ih =>
    rw [List.mem_cons,not_or] at plain
    rw [glob,if_neg (Ne.symm plain.1),Bool.and_eq_true,ih plain.2,beq_iff_eq]
    cases text with
    | nil => simp
    | cons d text => simp [eq_comm]

theorem regex_cons (c : Char) (rest : List Char) :
    regex (c::rest) =
      (if c = '.' then ['\\','.'] else if c = '*' then ['.','*'] else [c]) ++ regex rest := by
  have single : ∀ (replacement : List Char) (d c : Char) (rest : List Char),
      Search.replace [d] replacement (c::rest) =
        (if c = d then replacement else [c]) ++ Search.replace [d] replacement rest := by
    intro replacement d c rest
    rw [Search.replace,Search.replaceFrom]
    by_cases same : c = d
    · rw [if_pos (by simp [same]),if_pos same]
      rfl
    · rw [if_neg (by simp [Ne.symm same]),if_neg same]
      rfl
  rw [regex,single]
  by_cases dot : c = '.'
  · rw [if_pos dot,if_pos dot]
    exact (single _ _ _ _).trans (congrArg _ (single _ _ _ _))
  · rw [if_neg dot,if_neg dot]
    exact single _ _ _ _

theorem compile_regex (pattern : List Char)
    (simple : ∀ c ∈ pattern, plain c = true ∨ c = '.' ∨ c = '*') :
    compile (regex pattern) = some (tokens pattern) := by
  induction pattern with
  | nil => rfl
  | cons c rest ih =>
    rw [List.forall_mem_cons] at simple
    have later := ih simple.2
    rw [regex_cons]
    by_cases dot : c = '.'
    · subst dot
      rw [if_pos rfl,List.cons_append,List.cons_append,List.nil_append,compile,if_pos ⟨rfl,rfl⟩,later]
      rfl
    · by_cases star : c = '*'
      · subst star
        rw [if_neg dot,if_pos rfl,List.cons_append,List.cons_append,List.nil_append,compile,
          if_neg (by decide),if_pos ⟨rfl,rfl⟩,later]
        rfl
      · have itself : plain c = true := by simpa [dot,star] using simple.1
        have backslash : c ≠ '\\' := by
          rintro rfl
          exact absurd itself (by decide)
        rw [if_neg dot,if_neg star,List.cons_append,List.nil_append]
        have listed : tokens (c::rest) = .char c::tokens rest := by simp [tokens,star]
        rw [listed]
        cases more : regex rest with
        | nil =>
          rw [more,compile,Option.some.injEq] at later
          rw [compile,if_pos itself,← later]
        | cons d others =>
          rw [compile,if_neg fun both => backslash both.1,if_neg fun both => dot both.1,if_pos itself,
            ← more,later]
          rfl

theorem skips_eq_tails {text : List Char} (line : ∀ c ∈ text, terminator c = false) :
    skips text = text.tails := by
  induction text with
  | nil => rfl
  | cons c rest ih =>
    rw [List.forall_mem_cons] at line
    rw [skips,line.1,if_neg Bool.false_ne_true,ih line.2,List.tails]

theorem begins_tokens (pattern : List Char) {text : List Char}
    (line : ∀ c ∈ text, terminator c = false) :
    begins (tokens pattern) text = true ↔ ∃ part, part <+: text ∧ glob pattern part = true := by
  induction pattern generalizing text with
  | nil =>
    refine ⟨fun _ => ⟨[],List.nil_prefix,rfl⟩,fun _ => rfl⟩
  | cons c rest ih =>
    by_cases star : c = '*'
    · subst star
      change (skips text).any (begins (tokens rest)) = true ↔ _
      rw [skips_eq_tails line,List.any_eq_true]
      simp only [List.mem_tails,glob_star]
      constructor
      · rintro ⟨later,⟨before,rfl⟩,begun⟩
        obtain ⟨part,⟨after,rfl⟩,matched⟩ := (ih fun c inside => line c (List.mem_append_right _ inside)).mp begun
        exact ⟨before ++ part,⟨after,by simp⟩,part,⟨before,rfl⟩,matched⟩
      · rintro ⟨part,⟨after,rfl⟩,ending,⟨before,rfl⟩,matched⟩
        rw [List.append_assoc] at line ⊢
        refine ⟨ending ++ after,⟨before,rfl⟩,?_⟩
        exact (ih fun c inside => line c (List.mem_append_right _ inside)).mpr ⟨ending,⟨after,rfl⟩,matched⟩
    · have itself : tokens (c::rest) = .char c::tokens rest := by simp [tokens,star]
      rw [itself,begins,Bool.and_eq_true,beq_iff_eq]
      cases text with
      | nil => simp [glob,star]
      | cons d text =>
        rw [List.forall_mem_cons] at line
        rw [List.head?_cons,List.tail_cons,ih line.2,Option.some.injEq]
        constructor
        · rintro ⟨rfl,part,begun,matched⟩
          exact ⟨d::part,List.cons_prefix_cons.mpr ⟨rfl,begun⟩,by simp [glob,star,matched]⟩
        · rintro ⟨part,begun,matched⟩
          rw [glob,if_neg star,Bool.and_eq_true,beq_iff_eq] at matched
          cases part with
          | nil => cases matched.1
          | cons e part =>
            obtain ⟨rfl,later⟩ := List.cons_prefix_cons.mp begun
            exact ⟨Option.some.inj matched.1,part,later,matched.2⟩

/-- The translated expression is found where a part of the text matches the pattern. -/
theorem find_tokens (pattern : List Char) {text : List Char}
    (line : ∀ c ∈ text, terminator c = false) :
    find (tokens pattern) text = true ↔ ∃ part, part <:+: text ∧ glob pattern part = true := by
  rw [find,List.any_eq_true]
  constructor
  · rintro ⟨later,listed,begun⟩
    have ending := (List.mem_tails _ _).mp listed
    obtain ⟨part,begins,matched⟩ :=
      (begins_tokens pattern fun c inside => line c (ending.subset inside)).mp begun
    exact ⟨part,begins.isInfix.trans ending.isInfix,matched⟩
  · rintro ⟨part,inside,matched⟩
    obtain ⟨later,begins,ending⟩ := List.infix_iff_prefix_suffix.mp inside
    exact ⟨later,(List.mem_tails _ _).mpr ending,
      (begins_tokens pattern fun c inside => line c (ending.subset inside)).mpr ⟨part,begins,matched⟩⟩

end YzFramework.Library.Glob
