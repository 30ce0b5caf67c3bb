import Mathlib.Data.List.Pairwise
import Mathlib.Data.List.Basic
import Mathlib.Algebra.Order.Ring.Int

/-! Generators that draw identifiers while reading a clock.
The clock is the list of its readings; a call that would read past the end has
not returned yet, so the completed calls are those of every finite history. -/
namespace YzFramework.Library.Clocked

variable {Gen Reading Fault Id : Type*}

/-- One call: the reply, the generator afterwards and the unread clock. -/
abbrev Draw (Gen Reading Fault Id : Type*) :=
  Gen → List Reading → Option (Except Fault Id × Gen × List Reading)

structure Call (Gen Reading Fault Id : Type*) where
  before : Gen
  clock : List Reading
  reply : Except Fault Id
  after : Gen

def calls (draw : Draw Gen Reading Fault Id) :
    Nat → Gen → List Reading → List (Call Gen Reading Fault Id)
  | 0, _, _ => []
  | n+1, gen, clock =>
    match draw gen clock with
    | none => []
    | some (reply,after,rest) => ⟨gen,clock,reply,after⟩ :: calls draw n after rest

def readUntil (passes : Reading → Bool) : List Reading → Option (Reading × List Reading)
  | [] => none
  | reading::rest => if passes reading then some (reading,rest) else readUntil passes rest

theorem readUntil_some {passes : Reading → Bool} {clock rest : List Reading} {reading : Reading}
    (found : readUntil passes clock = some (reading,rest)) :
    passes reading = true ∧ ∃ skipped, clock = skipped++reading::rest := by
  induction clock with
  | nil => simp [readUntil] at found
  | cons first later ih =>
    simp only [readUntil] at found
    split at found
    next passed =>
      cases Option.some.inj found
      exact ⟨passed,[],rfl⟩
    next _ =>
      obtain ⟨passed,skipped,split⟩ := ih found
      exact ⟨passed,first::skipped,by rw [split,List.cons_append]⟩

def issued (made : List (Call Gen Reading Fault Id)) : List Id :=
  made.filterMap fun call => call.reply.toOption

theorem issued_ok (gen after : Gen) (clock : List Reading) (id : Id)
    (rest : List (Call Gen Reading Fault Id)) :
    issued (⟨gen,clock,.ok id,after⟩::rest) = id :: issued rest := rfl

theorem issued_error (gen after : Gen) (clock : List Reading) (fault : Fault)
    (rest : List (Call Gen Reading Fault Id)) :
    issued (⟨gen,clock,.error fault,after⟩::rest) = issued rest := rfl

theorem mem_issued {made : List (Call Gen Reading Fault Id)} {id : Id} :
    id ∈ issued made ↔ ∃ call ∈ made, call.reply = .ok id := by
  simp only [issued,List.mem_filterMap]
  refine exists_congr fun call => and_congr_right fun _ => ?_
  cases call.reply <;> simp [Except.toOption]

/-- A property of single calls that follows from an invariant of generator and
clock, where the calls that break the invariant are excluded by `fit`. -/
theorem calls_all (draw : Draw Gen Reading Fault Id) (invariant : Gen → List Reading → Prop)
    (fit good : Call Gen Reading Fault Id → Prop)
    (step : ∀ gen clock reply after rest, invariant gen clock →
      draw gen clock = some (reply,after,rest) → fit ⟨gen,clock,reply,after⟩ →
      good ⟨gen,clock,reply,after⟩ ∧ invariant after rest)
    (n : Nat) (gen : Gen) (clock : List Reading) (initial : invariant gen clock)
    (admitted : ∀ call ∈ calls draw n gen clock, fit call) :
    ∀ call ∈ calls draw n gen clock, good call := by
  induction n generalizing gen clock with
  | zero => simp [calls]
  | succ n ih =>
    cases drawn : draw gen clock with
    | none => simp [calls,drawn]
    | some result =>
      obtain ⟨reply,after,rest⟩ := result
      simp only [calls,drawn,List.forall_mem_cons] at admitted ⊢
      obtain ⟨kept,next⟩ := step gen clock reply after rest initial drawn admitted.1
      exact ⟨kept,ih after rest next admitted.2⟩

def Raises (mark : Gen → ℤ) (value : Id → ℤ) (call : Call Gen Reading Fault Id) : Prop :=
  match call.reply with
  | .ok id => mark call.before < value id ∧ mark call.after = value id
  | .error _ => mark call.after = mark call.before

/-- Identifiers stay above the mark at the start and increase in call order. -/
theorem issued_increasing (draw : Draw Gen Reading Fault Id) (mark : Gen → ℤ) (value : Id → ℤ)
    (n : Nat) (gen : Gen) (clock : List Reading)
    (raises : ∀ call ∈ calls draw n gen clock, Raises mark value call) :
    (∀ id ∈ issued (calls draw n gen clock), mark gen < value id) ∧
      (issued (calls draw n gen clock)).Pairwise fun first second => value first < value second := by
  induction n generalizing gen clock with
  | zero => simp [calls,issued]
  | succ n ih =>
    cases drawn : draw gen clock with
    | none => simp [calls,drawn,issued]
    | some result =>
      obtain ⟨reply,after,rest⟩ := result
      simp only [calls,drawn,List.forall_mem_cons] at raises ⊢
      obtain ⟨above,increasing⟩ := ih after rest raises.2
      cases reply with
      | error fault =>
        have same : mark after = mark gen := raises.1
        rw [issued_error]
        exact ⟨fun id member => same ▸ above id member,increasing⟩
      | ok id =>
        obtain ⟨raised,reached⟩ : mark gen < value id ∧ mark after = value id := raises.1
        rw [issued_ok,List.forall_mem_cons,List.pairwise_cons]
        have later : ∀ next ∈ issued (calls draw n after rest), value id < value next :=
          fun next member => reached ▸ above next member
        exact ⟨⟨raised,fun next member => raised.trans (later next member)⟩,later,increasing⟩

end YzFramework.Library.Clocked
