import Mathlib.Data.List.Basic

/-! Texts written letter by letter in code words, and a reader that takes one code word
at a time off the front. -/
namespace YzFramework.Library.Code

variable {Letter Symbol : Type*}

def decode (next : List Symbol → Option (Letter × List Symbol)) : ℕ → List Symbol → List Letter × List Symbol
  | 0,symbols => ([],symbols)
  | fuel+1,symbols =>
    match next symbols with
    | none => ([],symbols)
    | some (letter,rest) =>
      let (text,rest) := decode next fuel rest
      (letter::text,rest)

/-- The letters up to where no code word stands, and what is left. -/
def read (next : List Symbol → Option (Letter × List Symbol)) (symbols : List Symbol) : List Letter × List Symbol :=
  decode next symbols.length symbols

theorem decode_encode {code : Letter → List Symbol} {next : List Symbol → Option (Letter × List Symbol)}
    {text : List Letter} {stop : List Symbol} {fuel : ℕ}
    (reads : ∀ letter ∈ text, ∀ rest, next (code letter++rest) = some (letter,rest))
    (stops : next stop = none) (enough : text.length ≤ fuel) :
    decode next fuel (text.flatMap code++stop) = (text,stop) := by
  induction text generalizing fuel with
  | nil =>
    cases fuel with
    | zero => rfl
    | succ fuel => simp only [List.flatMap_nil,List.nil_append,decode,stops]
  | cons letter text ih =>
    cases fuel with
    | zero => simp at enough
    | succ fuel =>
      have inner := ih (fun other inside => reads other (List.mem_cons_of_mem _ inside))
        (Nat.le_of_succ_le_succ enough)
      rw [List.flatMap_cons,List.append_assoc,decode,reads letter List.mem_cons_self]
      simp only [inner]

theorem length_le {code : Letter → List Symbol} {text : List Letter} (proper : ∀ letter ∈ text, code letter ≠ []) :
    text.length ≤ (text.flatMap code).length := by
  induction text with
  | nil => exact Nat.zero_le _
  | cons letter text ih =>
    have word := List.length_pos_iff.mpr (proper letter List.mem_cons_self)
    have inner := ih fun other inside => proper other (List.mem_cons_of_mem _ inside)
    rw [List.flatMap_cons,List.length_append,List.length_cons]
    omega

/-- A reader that reads every code word, whatever follows, reads a text up to where none
follows; no code word can be empty then. -/
theorem read_encode {code : Letter → List Symbol} {next : List Symbol → Option (Letter × List Symbol)}
    {text : List Letter} {stop : List Symbol}
    (reads : ∀ letter ∈ text, ∀ rest, next (code letter++rest) = some (letter,rest)) (stops : next stop = none) :
    read next (text.flatMap code++stop) = (text,stop) := by
  refine decode_encode reads stops ?_
  rw [List.length_append]
  refine Nat.le_trans (length_le fun letter inside empty => ?_) (Nat.le_add_right _ _)
  have taken := reads letter inside stop
  rw [empty,List.nil_append,stops] at taken
  cases taken

theorem all_or_first {good : Letter → Prop} (text : List Letter) :
    (∀ letter ∈ text, good letter) ∨
      ∃ before bad after, text = before++bad::after ∧ (∀ letter ∈ before, good letter) ∧ ¬ good bad := by
  induction text with
  | nil => exact .inl (by simp)
  | cons letter text ih =>
    by_cases first : good letter
    · rcases ih with all | ⟨before,bad,after,rfl,all,fails⟩
      · exact .inl (List.forall_mem_cons.mpr ⟨first,all⟩)
      · exact .inr ⟨letter::before,bad,after,rfl,List.forall_mem_cons.mpr ⟨first,all⟩,fails⟩
    · exact .inr ⟨[],letter,text,rfl,by simp,first⟩

end YzFramework.Library.Code
