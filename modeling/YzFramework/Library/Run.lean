import Mathlib.Order.Basic
import Mathlib.Tactic.Push

/-! Runs of an event-driven machine given by a total step function.
A demand on single steps is read at the state in which each event arrives; an
event that is not enabled leaves the state as it is. Then numbered items that are worked
on in rounds, some of them in each. -/
namespace YzFramework.Library.Run

variable {State Event : Type*}

def final (step : State → Event → State) (start : State) (events : List Event) : State :=
  events.foldl step start

/-- Every event of the run meets the demand at the state in which it arrives. -/
def Along (step : State → Event → State) (demand : State → Event → Prop) :
    State → List Event → Prop
  | _, [] => True
  | state, event::rest => demand state event ∧ Along step demand (step state event) rest

@[simp] theorem final_nil (step : State → Event → State) (start : State) :
    final step start [] = start := rfl

@[simp] theorem final_cons (step : State → Event → State) (start : State) (event : Event)
    (rest : List Event) : final step start (event::rest) = final step (step start event) rest := rfl

@[simp] theorem along_nil (step : State → Event → State) (demand : State → Event → Prop)
    (start : State) : Along step demand start [] := trivial

@[simp] theorem along_cons (step : State → Event → State) (demand : State → Event → Prop)
    (start : State) (event : Event) (rest : List Event) :
    Along step demand start (event::rest) ↔
      demand start event ∧ Along step demand (step start event) rest := Iff.rfl

theorem along_append (step : State → Event → State) (demand : State → Event → Prop)
    (start : State) (first second : List Event) :
    Along step demand start (first++second) ↔
      Along step demand start first ∧ Along step demand (final step start first) second := by
  induction first generalizing start with
  | nil => simp
  | cons event rest ih => simp only [List.cons_append,along_cons,final_cons,ih,and_assoc]

/-- A demand on the events alone is met at every state. -/
theorem along_forall (step : State → Event → State) {demand : Event → Prop} (start : State) {events : List Event}
    (each : ∀ event ∈ events, demand event) : Along step (fun _ => demand) start events := by
  induction events generalizing start with
  | nil => trivial
  | cons event rest ih =>
    rw [List.forall_mem_cons] at each
    exact ⟨each.1,ih _ each.2⟩

/-- A run that does not meet a demand has a first event that fails it. -/
theorem not_along {step : State → Event → State} {demand : State → Event → Prop} {start : State}
    {events : List Event} (fails : ¬ Along step demand start events) : ∃ before event after,
      events = before++event::after ∧ Along step demand start before ∧ ¬ demand (final step start before) event := by
  induction events generalizing start with
  | nil => exact absurd trivial fails
  | cons event rest ih =>
    by_cases met : demand start event
    · obtain ⟨before,failing,after,rfl,along,fails⟩ := ih fun along => fails ⟨met,along⟩
      exact ⟨event::before,failing,after,rfl,⟨met,along⟩,fails⟩
    · exact ⟨[],event,rest,rfl,trivial,met⟩

instance along_decidable (step : State → Event → State) (demand : State → Event → Prop)
    [∀ state event, Decidable (demand state event)] :
    ∀ (start : State) (events : List Event), Decidable (Along step demand start events)
  | _, [] => isTrue trivial
  | start, event::rest =>
    have := along_decidable step demand (step start event) rest
    inferInstanceAs (Decidable (demand start event ∧ Along step demand (step start event) rest))

/-- What every admitted step preserves holds at the end of an admitted run. -/
theorem final_invariant {step : State → Event → State} {demand : State → Event → Prop}
    {invariant : State → Prop}
    (preserved : ∀ state event, invariant state → demand state event → invariant (step state event))
    (start : State) (events : List Event) (initial : invariant start)
    (admitted : Along step demand start events) : invariant (final step start events) := by
  induction events generalizing start with
  | nil => exact initial
  | cons event rest ih =>
    exact ih _ (preserved start event initial admitted.1) admitted.2

theorem final_always {step : State → Event → State} {invariant : State → Prop}
    (preserved : ∀ state event, invariant state → invariant (step state event))
    (start : State) (events : List Event) (initial : invariant start) :
    invariant (final step start events) := by
  induction events generalizing start with
  | nil => exact initial
  | cons event rest ih => exact ih _ (preserved start event initial)

/-- Two machines that keep a relation event by event keep it over a run. -/
theorem final_simulates {Abstract : Type*} {step : State → Event → State}
    {abstractStep : Abstract → Event → Abstract} {relation : State → Abstract → Prop}
    (kept : ∀ state abstract event, relation state abstract →
      relation (step state event) (abstractStep abstract event))
    (start : State) (abstract : Abstract) (events : List Event) (initial : relation start abstract) :
    relation (final step start events) (final abstractStep abstract events) := by
  induction events generalizing start abstract with
  | nil => exact initial
  | cons event rest ih => exact ih _ _ (kept start abstract event initial)

theorem along_always {step : State → Event → State} {result : State → Event → Prop}
    {invariant : State → Prop}
    (preserved : ∀ state event, invariant state → invariant (step state event))
    (gives : ∀ state event, invariant state → result state event)
    (start : State) (events : List Event) (initial : invariant start) :
    Along step result start events := by
  induction events generalizing start with
  | nil => trivial
  | cons event rest ih => exact ⟨gives start event initial,ih _ (preserved start event initial)⟩

/-- Two demands that agree where the invariant holds are met by the same runs,
as long as steps meeting the second one keep the invariant. -/
theorem along_iff {step : State → Event → State} {good fit : State → Event → Prop}
    {invariant : State → Prop}
    (agree : ∀ state event, invariant state → (good state event ↔ fit state event))
    (preserved : ∀ state event, invariant state → fit state event → invariant (step state event))
    (start : State) (events : List Event) (initial : invariant start) :
    Along step good start events ↔ Along step fit start events := by
  induction events generalizing start with
  | nil => exact Iff.rfl
  | cons event rest ih =>
    simp only [along_cons,agree start event initial]
    exact and_congr_right fun admitted => ih _ (preserved start event initial admitted)

/-- A property of reached states, read step by step or at each prefix. -/
theorem along_reached {step : State → Event → State} {property : State → Prop}
    (start : State) (events : List Event) (initial : property start) :
    Along step (fun state event => property (step state event)) start events ↔
      ∀ before, before <+: events → property (final step start before) := by
  induction events generalizing start with
  | nil => simpa using initial
  | cons event rest ih =>
    rw [along_cons]
    constructor
    · intro along before isPrefix
      obtain ⟨next,held⟩ := along
      cases before with
      | nil => exact initial
      | cons first others =>
        obtain ⟨rfl,inside⟩ := List.cons_prefix_cons.mp isPrefix
        exact (ih _ next).mp held others inside
    · intro each
      have next : property (step start event) :=
        each [event] (List.cons_prefix_cons.mpr ⟨rfl,List.nil_prefix⟩)
      refine ⟨next,(ih _ next).mpr fun before inside => ?_⟩
      exact each (event::before) (List.cons_prefix_cons.mpr ⟨rfl,inside⟩)

/-- A part of the state that the events only overwrite runs by itself. -/
theorem final_register {Value : Type*} {step : State → Event → State} {read : State → Value}
    {writes : Event → Option Value} (kept : ∀ state event, read (step state event) = (writes event).getD (read state))
    (start : State) (events : List Event) :
    read (final step start events) = final (fun held event => (writes event).getD held) (read start) events := by
  induction events generalizing start with
  | nil => rfl
  | cons event rest ih => rw [final_cons,ih,kept,final_cons]

/-- What a register holds that some events overwrite: what it held at the start, or what
the last of these events has written. -/
theorem final_write_iff {Value : Type*} (writes : Event → Option Value) (start value : Value)
    (events : List Event) :
    final (fun held event => (writes event).getD held) start events = value ↔
      (start = value ∧ ∀ event ∈ events, writes event = none) ∨
        ∃ first event second, events = first++event::second ∧ writes event = some value ∧
          ∀ later ∈ second, writes later = none := by
  induction events generalizing start with
  | nil => simp
  | cons event rest ih =>
    rw [final_cons,ih]
    constructor
    · rintro (⟨held,silent⟩ | ⟨first,last,second,rfl,written,silent⟩)
      · cases write : writes event with
        | none => exact .inl ⟨by simpa [write] using held,by simpa [write] using silent⟩
        | some new =>
          refine .inr ⟨[],event,rest,rfl,?_,silent⟩
          rw [write,← held,write,Option.getD_some]
      · exact .inr ⟨event::first,last,second,rfl,written,silent⟩
    · rintro (⟨held,silent⟩ | ⟨first,last,second,split,written,silent⟩)
      · refine .inl ⟨?_,fun later inside => silent later (List.mem_cons_of_mem _ inside)⟩
        rw [silent event List.mem_cons_self]
        exact held
      · cases first with
        | nil =>
          obtain ⟨rfl,rfl⟩ := List.cons_eq_cons.mp split
          exact .inl ⟨by simp [written],silent⟩
        | cons head others =>
          obtain ⟨rfl,rfl⟩ := List.cons_eq_cons.mp split
          exact .inr ⟨others,last,second,rfl,written,silent⟩

end YzFramework.Library.Run

namespace YzFramework.Library.Rounds

variable (came : ℕ → Prop) (taken done : ℕ → ℕ → Prop)

/-- Before an item is taken, all items in front of it are done or came so. -/
def InOrderAt (n : ℕ) : Prop :=
  ∀ i, taken n i → ∀ j < i, came j ∨ ∃ m ≤ n, done m j

def InOrder : Prop := ∀ n, InOrderAt came taken done n

/-- Where later rounds take nothing that a whole round did not, the rounds up to the
first whole one decide. -/
theorem inOrder_iff {whole : ℕ → Prop}
    (shrinks : ∀ m n i, m ≤ n → whole m → taken n i → taken m i) :
    InOrder came taken done ↔ ∀ n, (∀ m < n, ¬ whole m) → InOrderAt came taken done n := by
  constructor
  · exact fun order n _ => order n
  · intro decided n
    induction n using Nat.strongRecOn with
    | ind n ih =>
      by_cases broken : ∀ m < n, ¬ whole m
      · exact decided n broken
      · push Not at broken
        obtain ⟨m,earlier,all⟩ := broken
        intro i now j before
        have known := ih m earlier i (shrinks m n i (Nat.le_of_lt earlier) all now) j before
        exact known.imp_right fun ⟨k,inTime,finished⟩ =>
          ⟨k,Nat.le_trans inTime (Nat.le_of_lt earlier),finished⟩

end YzFramework.Library.Rounds
