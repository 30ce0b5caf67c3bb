import YzFramework.Library.Run
import Mathlib.Data.List.Basic
import Mathlib.Algebra.Order.Ring.Nat

/-! A bounded queue filled by blocking producers and emptied by one worker that
puts an item back when executing it fails. A blocked put is one whose step is not
enabled. -/
namespace YzFramework.Library.RetryQueue
open Run

/-- The capacity, and the items a call puts, one after the other, given the queue
it has looked at. -/
structure Process (Item Call : Type*) where
  capacity : ℕ
  puts : Call → List Item → List Item

inductive Worker (Item : Type*)
  | taking
  | executing (item : Item)
  | putting (item : Item)
  | sleeping

structure State (Item : Type*) where
  queue : List Item := []
  calls : List (List Item) := []
  worker : Worker Item := .taking

inductive Event (Call : Type*)
  | call (call : Call)
  | put (position : ℕ)
  | take
  | execute (fails : Bool)
  | putBack
  | wake

variable {Item Call : Type*} (process : Process Item Call)

def step (state : State Item) : Event Call → State Item
  | .call call => {state with calls := state.calls++[process.puts call state.queue]}
  | .put position =>
    match state.calls[position]? with
    | some (item::rest) =>
      if state.queue.length < process.capacity then
        {state with
          queue := state.queue++[item]
          calls := state.calls.set position rest}
      else state
    | _ => state
  | .take =>
    match state.worker,state.queue with
    | .taking,item::rest => {state with
        queue := rest
        worker := .executing item}
    | _,_ => state
  | .execute fails =>
    match state.worker with
    | .executing item => {state with worker := if fails then .putting item else .taking}
    | _ => state
  | .putBack =>
    match state.worker with
    | .putting item =>
      if state.queue.length < process.capacity then
        {state with
          queue := state.queue++[item]
          worker := .sleeping}
      else state
    | _ => state
  | .wake =>
    match state.worker with
    | .sleeping => {state with worker := .taking}
    | _ => state

def Worker.Putting : Worker Item → Prop
  | .putting _ => True
  | _ => False

def Worker.Executing : Worker Item → Prop
  | .executing _ => True
  | _ => False

/-- The queue is full and its only consumer waits for room in it. -/
def Deadlocked (state : State Item) : Prop :=
  process.capacity ≤ state.queue.length ∧ state.worker.Putting

/-- No execution fails while the queue is full, and no producer takes the last place
while the worker is about to put its item back. -/
def Fit (state : State Item) : Event Call → Prop
  | .execute fails =>
    fails = true → state.worker.Executing → state.queue.length < process.capacity
  | .put position =>
    state.worker.Putting → (∃ item rest, state.calls[position]? = some (item::rest)) →
      state.queue.length+1 < process.capacity
  | _ => True

theorem put_fit (state : State Item) (position : ℕ) (live : ¬ Deadlocked process state) :
    ¬ Deadlocked process (step process state (.put position)) ↔
      Fit process state (.put position) := by
  simp only [step,Fit]
  split
  next item rest found =>
    split
    next room =>
      simp only [Deadlocked,List.length_append,List.length_singleton,found,not_and]
      constructor
      · intro unblocked putting _
        by_contra last
        exact unblocked (by omega) putting
      · intro spare full putting
        have := spare putting ⟨item,rest,rfl⟩
        omega
    next full =>
      simp only [live,not_false_eq_true,true_iff]
      exact fun putting _ => absurd ⟨by omega,putting⟩ live
  next nothing =>
    simp only [live,not_false_eq_true,true_iff]
    intro _ asked
    obtain ⟨item,rest,found⟩ := asked
    exact absurd found (nothing item rest)

theorem execute_fit (state : State Item) (fails : Bool) (live : ¬ Deadlocked process state) :
    ¬ Deadlocked process (step process state (.execute fails)) ↔
      Fit process state (.execute fails : Event Call) := by
  simp only [step,Fit]
  split
  next item executing =>
    cases fails with
    | true => simp [Deadlocked,Worker.Putting,Worker.Executing,executing]
    | false => simp [Deadlocked,Worker.Putting]
  next other =>
    simp only [live,not_false_eq_true,true_iff]
    intro _ executing
    cases holds : state.worker with
    | executing item => exact absurd holds (other item)
    | taking | putting | sleeping => simp [holds,Worker.Executing] at executing

theorem step_fit (state : State Item) (event : Event Call) (live : ¬ Deadlocked process state) :
    ¬ Deadlocked process (step process state event) ↔ Fit process state event := by
  cases event with
  | call call =>
    have same : Deadlocked process (step process state (.call call)) = Deadlocked process state := rfl
    simp [same,live,Fit]
  | put position => exact put_fit process state position live
  | take =>
    simp only [Fit,iff_true,step]
    split
    · simp [Deadlocked,Worker.Putting]
    · exact live
  | execute fails => exact execute_fit process state fails live
  | putBack =>
    simp only [Fit,iff_true,step]
    split
    · split
      · simp [Deadlocked,Worker.Putting]
      · exact live
    · exact live
  | wake =>
    simp only [Fit,iff_true,step]
    split
    · simp [Deadlocked,Worker.Putting]
    · exact live

theorem run_fit (events : List (Event Call)) :
    (∀ before, before <+: events → ¬ Deadlocked process (final (step process) {} before)) ↔
      Along (step process) (Fit process) {} events := by
  let Live : State Item → Prop := fun state => ¬ Deadlocked process state
  have start : Live {} := fun dead => dead.2
  have kept : ∀ state (event : Event Call), Live state → Fit process state event →
      Live (step process state event) := fun state event live => (step_fit process state event live).mpr
  calc (∀ before, before <+: events → Live (final (step process) {} before))
    _ ↔ Along (step process) (fun state event => Live (step process state event)) {} events :=
      (@along_reached _ _ (step process) Live {} events start).symm
    _ ↔ Along (step process) (Fit process) {} events :=
      along_iff (step_fit process) kept {} events start

theorem step_deadlocked (state : State Item) (event : Event Call)
    (dead : Deadlocked process state) : Deadlocked process (step process state event) := by
  obtain ⟨full,putting⟩ := dead
  have noRoom : ¬ state.queue.length < process.capacity := not_lt.mpr full
  cases holds : state.worker with
  | putting item =>
    cases event with
    | call call => exact ⟨full,putting⟩
    | put position =>
      simp only [step,noRoom,if_false]
      split <;> exact ⟨full,putting⟩
    | take | execute | putBack | wake =>
      simp only [step,holds,noRoom,if_false]
      exact ⟨full,putting⟩
  | taking | executing | sleeping => simp [holds,Worker.Putting] at putting

/-- A deadlock is for good: no step of producers or of the worker ends it. -/
theorem final_deadlocked (state : State Item) (events : List (Event Call))
    (dead : Deadlocked process state) : Deadlocked process (final (step process) state events) :=
  final_always (step_deadlocked process) state events dead

section Items

def Queued (state : State Item) (item : Item) : Prop :=
  item ∈ state.queue ∨ ∃ call ∈ state.calls, item ∈ call

def Due (state : State Item) (item : Item) : Prop :=
  Queued state item ∨ state.worker = .putting item

def Holds (state : State Item) (item : Item) : Prop :=
  Due state item ∨ state.worker = .executing item

theorem queued_call {state : State Item} (call : Call) {item : Item}
    (queued : Queued state item ∨ item ∈ process.puts call state.queue) :
    Queued (step process state (.call call)) item := by
  simp only [Queued,step,List.mem_append,List.mem_singleton]
  rcases queued with (inside | ⟨waiting,member,inside⟩) | asked
  · exact .inl inside
  · exact .inr ⟨waiting,.inl member,inside⟩
  · exact .inr ⟨_,.inr rfl,asked⟩

theorem queued_put {state : State Item} (position : ℕ) {item : Item} (queued : Queued state item) :
    Queued (step process state (.put position)) item := by
  simp only [step]
  split
  next first rest found =>
    split
    next room =>
      have inside : position < state.calls.length := (List.getElem?_eq_some_iff.mp found).1
      rcases queued with inside | ⟨call,member,asked⟩
      · exact .inl (List.mem_append_left _ inside)
      · obtain ⟨other,there⟩ := List.mem_iff_getElem?.mp member
        by_cases same : position = other
        · subst same
          cases found.symm.trans there
          rcases List.mem_cons.mp asked with rfl | later
          · exact .inl (List.mem_append_right _ (List.mem_singleton_self _))
          · exact .inr ⟨rest,List.mem_set inside rest,later⟩
        · refine .inr ⟨call,List.mem_iff_getElem?.mpr ⟨other,?_⟩,asked⟩
          rw [List.getElem?_set_ne same]
          exact there
    next => exact queued
  next => exact queued

theorem due_step {state : State Item} (event : Event Call) {item : Item} (due : Due state item) :
    Due (step process state event) item ∨
      state.worker = .taking ∧ event = .take ∧ (step process state event).worker = .executing item := by
  cases event with
  | call call => exact .inl (due.imp_left fun queued => queued_call process call (.inl queued))
  | put position =>
    refine .inl (due.imp (queued_put process position) fun putting => ?_)
    simp only [step]
    split
    · split <;> exact putting
    · exact putting
  | take =>
    simp only [step]
    split
    next first rest taking queue =>
      rcases due with (inside | called) | putting
      · rw [queue] at inside
        rcases List.mem_cons.mp inside with rfl | later
        · exact .inr ⟨taking,trivial,rfl⟩
        · exact .inl (.inl (.inl later))
      · exact .inl (.inl (.inr called))
      · rw [taking] at putting
        cases putting
    next => exact .inl due
  | execute fails =>
    simp only [step]
    split
    next other executing =>
      refine .inl (due.imp id fun putting => ?_)
      rw [executing] at putting
      cases putting
    next => exact .inl due
  | putBack =>
    simp only [step]
    split
    next other putting =>
      split
      next room =>
        rcases due with (inside | called) | same
        · exact .inl (.inl (.inl (List.mem_append_left _ inside)))
        · exact .inl (.inl (.inr called))
        · rw [putting] at same
          cases same
          exact .inl (.inl (.inl (List.mem_append_right _ (List.mem_singleton_self _))))
      next => exact .inl due
    next => exact .inl due
  | wake =>
    simp only [step]
    split
    next sleeping =>
      refine .inl (due.imp id fun putting => ?_)
      rw [sleeping] at putting
      cases putting
    next => exact .inl due

theorem holds_step {state : State Item} (event : Event Call) {item : Item} (holds : Holds state item)
    (unfinished : event = .execute false → state.worker ≠ .executing item) :
    Holds (step process state event) item := by
  rcases holds with due | executing
  · exact (due_step process event due).imp_right fun taken => taken.2.2
  · cases event with
    | call | take | putBack | wake =>
      refine .inr ?_
      simp only [step,executing]
    | put position =>
      refine .inr ?_
      simp only [step]
      split
      · split <;> exact executing
      · exact executing
    | execute fails =>
      cases fails with
      | true =>
        refine .inl (.inr ?_)
        simp only [step,executing,if_true]
      | false => exact absurd executing (unfinished rfl)

def Idle (state : State Item) : Prop :=
  state.queue = [] ∧ (∀ call ∈ state.calls, call = []) ∧ ¬ state.worker.Executing ∧ ¬ state.worker.Putting

theorem Idle.holds_not {state : State Item} (idle : Idle state) (item : Item) : ¬ Holds state item := by
  obtain ⟨empty,done,free,unblocked⟩ := idle
  rintro (((inside | ⟨call,member,inside⟩) | putting) | executing)
  · simp [empty] at inside
  · simp [done call member] at inside
  · exact unblocked (by rw [putting]; trivial)
  · exact free (by rw [executing]; trivial)

end Items

section Outage
variable (call : Call) (item : Item)

theorem calls_arrive (count : ℕ) (asked : process.puts call [] = [item]) (waiting : List (List Item)) :
    final (step process) {calls := waiting} (List.replicate count (.call call)) =
      {calls := waiting++List.replicate count [item]} := by
  induction count generalizing waiting with
  | zero => simp
  | succ count ih =>
    rw [List.replicate_succ,final_cons]
    simp only [step,asked,ih,List.replicate_succ,List.append_assoc,List.singleton_append]

theorem puts_enter (count : ℕ) (state : State Item) (served : ℕ)
    (waiting : state.calls = List.replicate served []++List.replicate count [item])
    (room : state.queue.length+count ≤ process.capacity) :
    final (step process) state ((List.range' served count).map .put) =
      {state with
        queue := state.queue++List.replicate count item
        calls := List.replicate (served+count) []} := by
  induction count generalizing state served with
  | zero =>
    rw [List.replicate_zero,List.append_nil] at waiting
    simp [← waiting]
  | succ count ih =>
    have head : state.calls[served]? = some [item] := by
      rw [waiting,List.getElem?_append_right (by simp)]
      simp
    have first : List.replicate (count+1) [item] = [item]::List.replicate count [item] := rfl
    have next : state.calls.set served [] =
        List.replicate (served+1) []++List.replicate count [item] := by
      rw [waiting,List.set_append_right _ _ (by simp),first]
      simp [List.replicate_succ']
    have entered : step process state (.put served) =
        {state with
          queue := state.queue++[item]
          calls := state.calls.set served []} := by
      simp only [step,head,if_pos (by omega : state.queue.length < process.capacity)]
    rw [List.range'_succ,List.map_cons,final_cons,entered,ih _ (served+1) next (by simp; omega)]
    simp [List.replicate_succ,Nat.add_comm,Nat.add_left_comm]

/-- The calls of an outage: all look at the empty queue, the worker takes the first
item, the others fill the queue, and then executing the first one fails. -/
def outage (capacity : ℕ) : List (Event Call) :=
  List.replicate (capacity+1) (.call call)++
    (.put 0::.take::(List.range' 1 capacity).map .put)++[.execute true]

theorem outage_deadlocks (positive : 1 ≤ process.capacity) (asked : process.puts call [] = [item]) :
    Deadlocked process (final (step process) {} (outage call process.capacity)) := by
  have arrived := calls_arrive process call item (process.capacity+1) asked []
  rw [List.nil_append] at arrived
  have first : step process {calls := List.replicate (process.capacity+1) [item]} (.put 0) =
      {queue := [item],calls := []::List.replicate process.capacity [item]} := by
    simp only [step,List.replicate_succ,List.getElem?_cons_zero,List.length_nil,
      Nat.lt_of_lt_of_le Nat.zero_lt_one positive,if_true,List.nil_append,List.set_cons_zero]
  have taken : step process ({queue := [item],calls := []::List.replicate process.capacity [item]} :
        State Item) .take =
      {queue := [],calls := []::List.replicate process.capacity [item],worker := .executing item} := rfl
  have filled := puts_enter process item process.capacity
    {queue := [],calls := []::List.replicate process.capacity [item],worker := .executing item} 1
    (by simp) (by simp)
  simp only [final] at arrived filled
  simp only [outage,final,List.foldl_append,List.foldl_cons,arrived,first,taken,filled]
  simp [step,Deadlocked,Worker.Putting]

end Outage

end YzFramework.Library.RetryQueue
