import YzFramework.Library.Search

/-! Templates: literal text, and holes whose names stand in brackets. The holes are filled
one name after the other, each by replacing its text everywhere; or all at once. -/
namespace YzFramework.Library.Template
open Search

variable {α : Type*}

inductive Piece (α : Type*)
  | literal (text : List α)
  | hole (name : List α)
deriving DecidableEq

/-- The bracket opens with `first` and `rest`, and closes with `last`. -/
structure Bracket (α : Type*) where
  first : α
  rest : List α
  last : α
  once : first ∉ rest
  differ : first ≠ last

namespace Bracket

variable (bracket : Bracket α)

def hole (name : List α) : List α := bracket.first::(bracket.rest ++ (name ++ [bracket.last]))

def Plain (name : List α) : Prop := bracket.first ∉ name ∧ bracket.last ∉ name

def part (fill : List α → Option (List α)) : Piece α → List α
  | .literal text => text
  | .hole name => (fill name).getD (bracket.hole name)

def render (fill : List α → Option (List α)) (parts : List (Piece α)) : List α :=
  parts.flatMap (bracket.part fill)

end Bracket

def Piece.Plain (bracket : Bracket α) : Piece α → Prop
  | literal text => bracket.first ∉ text
  | hole name => bracket.Plain name

variable {bracket : Bracket α} {fill : List α → Option (List α)} {parts : List (Piece α)} {key : List α}

theorem render_append (front back : List (Piece α)) :
    bracket.render fill (front ++ back) = bracket.render fill front ++ bracket.render fill back :=
  List.flatMap_append

theorem hole_tail {name : List α} (plain : bracket.Plain name) : bracket.first ∉ (bracket.hole name).tail := by
  change bracket.first ∉ bracket.rest ++ (name ++ [bracket.last])
  simp [bracket.once,plain.1,bracket.differ]

/-- A hole is known by where its bracket closes. -/
theorem hole_begins {name after : List α} (plain : bracket.Plain name) (known : bracket.Plain key) :
    bracket.hole key <+: bracket.hole name ++ after ↔ key = name := by
  constructor
  · intro begun
    rw [Bracket.hole,Bracket.hole,List.cons_append,List.cons_prefix_cons,List.append_assoc,
      List.prefix_append_right_inj,List.append_assoc] at begun
    obtain ⟨more,same⟩ := begun.2
    rw [List.append_assoc] at same
    obtain ⟨left,split,_⟩ := append_before plain.2 same.symm
    obtain ⟨right,other,_⟩ := append_before known.2 same
    rw [split,List.append_assoc] at other
    have none := List.self_eq_append_right.mp other
    rw [split,(List.append_eq_nil_iff.mp none).1,List.append_nil]
  · rintro rfl
    exact List.prefix_append _ _

variable [DecidableEq α]

instance (bracket : Bracket α) (name : List α) : Decidable (bracket.Plain name) :=
  inferInstanceAs (Decidable (_ ∧ _))

instance (bracket : Bracket α) : ∀ part : Piece α, Decidable (part.Plain bracket)
  | .literal text => inferInstanceAs (Decidable (bracket.first ∉ text))
  | .hole name => inferInstanceAs (Decidable (bracket.Plain name))

/-- The first value that a name gets stays. -/
def put (fill : List α → Option (List α)) (key value : List α) : List α → Option (List α) :=
  fun name => if name = key then some ((fill key).getD value) else fill name

theorem replace_render {value : List α} (known : bracket.Plain key) (texts : ∀ name text, fill name = some text →
    bracket.first ∉ text) (plain : ∀ part ∈ parts, part.Plain bracket) :
    replace (bracket.hole key) value (bracket.render fill parts) = bracket.render (put fill key value) parts := by
  induction parts with
  | nil => rfl
  | cons part parts ih =>
    obtain ⟨here,later⟩ := List.forall_mem_cons.mp plain
    have rest := ih later
    cases part with
    | literal text =>
      change replace _ _ (text ++ bracket.render fill parts) = text ++ bracket.render (put fill key value) parts
      rw [Bracket.hole,replace_plain here,← Bracket.hole,rest]
    | hole name =>
      change replace _ _ ((fill name).getD (bracket.hole name) ++ bracket.render fill parts) =
        (put fill key value name).getD (bracket.hole name) ++ bracket.render (put fill key value) parts
      rw [put]
      cases filled : fill name with
      | some text =>
        have kept : (if name = key then some ((fill key).getD value) else some text) = some text := by
          split
          next same => rw [← same,filled,Option.getD_some]
          next => rfl
        rw [kept,Option.getD_some,Bracket.hole,replace_plain (texts name text filled),← Bracket.hole,rest]
      | none =>
        by_cases same : name = key
        · rw [if_pos same,← same,filled,Option.getD_none,Option.getD_some,Option.getD_none,
            replace_target (show bracket.hole name ≠ [] from List.cons_ne_nil _ _),same,rest]
        · rw [if_neg same,Option.getD_none,replace_kept,rest]
          intro left right split some begun
          cases left with
          | nil =>
            rw [List.nil_append] at split
            exact same ((hole_begins here known).mp (split ▸ begun)).symm
          | cons c left =>
            obtain ⟨first,right,rfl⟩ := List.exists_cons_of_ne_nil some
            rw [Bracket.hole,List.cons_append,List.cons_prefix_cons] at begun
            have inside : bracket.first ∈ (bracket.hole name).tail := by
              rw [split,List.cons_append,List.tail_cons,begun.1]
              exact List.mem_append_right _ List.mem_cons_self
            exact hole_tail here inside

/-- Filling one name after the other fills all at once, as long as no value opens a
bracket: a name gets its first value, and the others stay. -/
theorem foldl_replace (values : List (List α × List α)) (known : ∀ value ∈ values, bracket.Plain value.1)
    (texts : ∀ name text, fill name = some text → bracket.first ∉ text)
    (plainValues : ∀ value ∈ values, bracket.first ∉ value.2) (plain : ∀ part ∈ parts, part.Plain bracket) :
    values.foldl (fun text value => replace (bracket.hole value.1) value.2 text) (bracket.render fill parts) =
      bracket.render (fun name => (fill name).or (values.lookup name)) parts := by
  induction values generalizing fill with
  | nil => simp
  | cons value values ih =>
    obtain ⟨key,text⟩ := value
    obtain ⟨here,later⟩ := List.forall_mem_cons.mp known
    obtain ⟨opens,others⟩ := List.forall_mem_cons.mp plainValues
    have next : ∀ name after, put fill key text name = some after → bracket.first ∉ after := by
      intro name after given
      unfold put at given
      split at given
      next =>
        cases filled : fill key with
        | none =>
          rw [filled] at given
          cases given
          exact opens
        | some before =>
          rw [filled] at given
          cases given
          exact texts key before filled
      next => exact texts name after given
    rw [List.foldl_cons,replace_render here texts plain,ih later next others]
    congr 1
    funext name
    rw [put,List.lookup_cons]
    by_cases same : name = key
    · subst same
      cases fill name <;> simp
    · rw [if_neg same,beq_eq_false_iff_ne.mpr same]

end YzFramework.Library.Template
