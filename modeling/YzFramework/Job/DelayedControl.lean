import YzFramework.Job.Redelivery
import YzFramework.Util.RegistryAddress
import Mathlib.Data.Nat.Nth

/-! `DelayedControlConsumerListener`: a value in Redis holds the jobs back. Reading the key
and its value are two calls, so that the value may be gone. -/
namespace YzFramework.Job.DelayedControl
open ExecuteTask
open Util.RegistryAddress (parseInt)

/-- What `hasKey` and `get` answer for `queue:control:delay`. -/
structure Gate where
  hasKey : Bool
  value : Option String := none

variable (digit : Char → Option ℕ)

/-- An exception is logged, and the listener returns. -/
def processMessage (gate : Gate) (invocations : ℕ → Invocation) (produces : Queue → Bool) (message : JobMessage) :
    Delivery :=
  if gate.hasKey then
    match gate.value.bind (parseInt digit) with
    | none => {}
    | some delayInteger =>
      if 0 < delayInteger then
        {sent := if produces .retry then [(.retry,{message with delaySeconds := delayInteger})] else []}
      else doWork invocations produces message
  else doWork invocations produces message

namespace Gate

/-- The value is no int, or gone. -/
def Breaks (gate : Gate) : Prop := gate.hasKey = true ∧ gate.value.bind (parseInt digit) = none

/-- There is no delay. -/
def Opens (gate : Gate) : Prop := gate.hasKey = true → ∃ delay ∈ gate.value.bind (parseInt digit), delay ≤ 0

instance (gate : Gate) : Decidable (gate.Breaks digit) := inferInstanceAs (Decidable (_ ∧ _))

instance (gate : Gate) : Decidable (gate.Opens digit) := inferInstanceAs (Decidable (_ → _))

end Gate

variable (gates : ℕ → Gate) (replies : ℕ → ℕ → Invocation) (first : JobMessage)

/-- The message on `delayedControlQueue` before the delivery with this number, when every
`produce` succeeds. -/
def pending : ℕ → Option JobMessage
  | 0 => some first
  | n+1 => (pending n).bind fun message =>
    ((processMessage digit (gates n) (replies n) (fun _ => true) message).sent.find? (·.1 == .retry)).map Prod.snd

def delivery (n : ℕ) : Delivery :=
  ((pending digit gates replies first n).map (processMessage digit (gates n) (replies n) fun _ => true)).getD {}

/-- The replies that the deliveries of the listener without the gate get. -/
noncomputable def openReplies (n : ℕ) : ℕ → Invocation := replies (Nat.nth (fun n => (gates n).Opens digit) n)

/-- What a closed gate sends of the job that is there: the job with the delay that was read. -/
def heldBack (gate : Gate) (message : Option JobMessage) : List (Queue × JobMessage) :=
  (message.bind fun message => (gate.value.bind (parseInt digit)).map fun delay =>
    (.retry,{message with delaySeconds := delay})).toList

def forget (message : JobMessage) : JobMessage := {message with delaySeconds := 0}

/-- `doWork` does not read the delay, and sets it where it sends. -/
theorem doWork_forget (invocations : ℕ → Invocation) (produces : Queue → Bool) (message : JobMessage) :
    doWork invocations produces (forget message) = doWork invocations produces message := rfl

theorem doWork_congr {invocations : ℕ → Invocation} {produces : Queue → Bool} {message other : JobMessage}
    (same : forget message = forget other) : doWork invocations produces message = doWork invocations produces other := by
  rw [← doWork_forget,same,doWork_forget]

section
variable {digit} {gate : Gate} (invocations : ℕ → Invocation) (produces : Queue → Bool) (message : JobMessage)

theorem processMessage_opens (opens : gate.Opens digit) :
    processMessage digit gate invocations produces message = doWork invocations produces message := by
  unfold processMessage
  split
  next present =>
    obtain ⟨delay,read,none⟩ := opens present
    rw [Option.mem_def.mp read]
    exact if_neg (not_lt.mpr none)
  next => rfl

theorem processMessage_breaks (breaks : gate.Breaks digit) : processMessage digit gate invocations produces message = {} := by
  rw [processMessage,if_pos breaks.1,breaks.2]

theorem processMessage_delays (opens : ¬ gate.Opens digit) (breaks : ¬ gate.Breaks digit) :
    ∃ delay, gate.value.bind (parseInt digit) = some delay ∧ processMessage digit gate invocations produces message =
      {sent := if produces .retry then [(.retry,{message with delaySeconds := delay})] else []} := by
  unfold Gate.Opens at opens
  push Not at opens
  obtain ⟨present,positive⟩ := opens
  rw [processMessage,if_pos present]
  cases read : gate.value.bind (parseInt digit) with
  | none => exact absurd ⟨present,read⟩ breaks
  | some delay => exact ⟨delay,rfl,if_pos (positive delay read)⟩

end

theorem pending_broken {n m : ℕ} (before : m < n) (breaks : (gates m).Breaks digit) :
    pending digit gates replies first n = none := by
  induction n with
  | zero => omega
  | succ n ih =>
    rw [pending]
    rcases Nat.lt_succ_iff_lt_or_eq.mp before with earlier | rfl
    · rw [ih earlier]
      rfl
    · cases pending digit gates replies first m with
      | none => rfl
      | some message =>
        rw [Option.bind_some,processMessage_breaks _ _ _ breaks]
        rfl

theorem openReplies_count {n : ℕ} (opens : (gates n).Opens digit) :
    openReplies digit gates replies (Nat.count (fun n => (gates n).Opens digit) n) = replies n := by
  rw [openReplies,Nat.nth_count opens]

theorem pending_same {n : ℕ} (whole : ∀ m < n, ¬ (gates m).Breaks digit) :
    (pending digit gates replies first n).map forget =
      (Redelivery.pending (openReplies digit gates replies) first
        (Nat.count (fun n => (gates n).Opens digit) n)).map forget := by
  induction n with
  | zero => rfl
  | succ n ih =>
    have before := ih fun m earlier => whole m (earlier.trans (Nat.lt_succ_self n))
    rw [pending,Nat.count_succ]
    by_cases opens : (gates n).Opens digit
    · rw [if_pos opens,Redelivery.pending,openReplies_count digit gates replies opens]
      cases held : pending digit gates replies first n with
      | none =>
        rw [held,Option.map_none] at before
        rw [Option.map_eq_none_iff.mp before.symm]
        rfl
      | some message =>
        rw [held,Option.map_some] at before
        obtain ⟨other,found,same⟩ := Option.map_eq_some_iff.mp before.symm
        rw [found,Option.bind_some,Option.bind_some,processMessage_opens _ _ _ opens,doWork_congr same]
    · rw [if_neg opens,Nat.add_zero,← before]
      cases held : pending digit gates replies first n with
      | none => rfl
      | some message =>
        obtain ⟨delay,_,sent⟩ := processMessage_delays (replies n) (fun _ => true) message opens (whole n (Nat.lt_succ_self n))
        rw [Option.bind_some,sent]
        rfl

end YzFramework.Job.DelayedControl
