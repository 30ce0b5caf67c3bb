import YzFramework.Job.ServiceTask
import Mathlib.Tactic.Ring

/-! `ServiceJob`: the tasks, the delays between redeliveries and the counter of
failed executions. -/
namespace YzFramework.Job
open Library

structure ServiceJob where
  invokeMode : ℤ := 0
  failedTimes : ℤ := 0
  redelivoryDelays : Option (List (Option String)) := none
  taskList : List ServiceTask := []

namespace ServiceJob

def INVOKE_MODE_SEQ : ℤ := 0

def increaseFailedTimes (job : ServiceJob) : ServiceJob :=
  {job with failedTimes := job.failedTimes+1}

/-- Seconds of a time unit; only the month's letter and the minute's differ in case. -/
def unitSeconds : Char → Option ℕ
  | 's' | 'S' => some 1
  | 'm' => some 60
  | 'h' | 'H' => some (60*60)
  | 'd' | 'D' => some (60*60*24)
  | 'M' => some (60*60*24*30)
  | 'y' | 'Y' => some (60*60*24*30*12)
  | _ => none

def wrapped (product : ℤ) : ℤ := product.bmod (2^32)

def valueOf (timeNumStr : List Char) : Except Throwable ℕ :=
  if Text.number timeNumStr < 2^31 then .ok (Text.number timeNumStr) else .error .numberFormat

/-- The seconds of one delay string. A character outside the first plane is two
chars, the first of which is no digit. -/
def parseDelay (delayString : String) : Except Throwable ℤ :=
  match delayString.toList.getLast? with
  | none => .error .indexOutOfBounds
  | some timeUnit =>
    let timeNumStr := delayString.toList.dropLast
    if Text.digits timeNumStr && timeUnit.toNat < 2^16 then do
      let timeNum ← valueOf timeNumStr
      match unitSeconds timeUnit with
      | some seconds => .ok (wrapped (timeNum*seconds))
      | none => .ok (-1)
    else .ok (-1)

def getDelaySeconds (job : ServiceJob) : Except Throwable ℤ :=
  match job.redelivoryDelays with
  | none => .ok (-1)
  | some delays =>
    if job.failedTimes < 1 ∨ delays.length < job.failedTimes then .ok (-1)
    else
      match delays[(job.failedTimes-1).toNat]? with
      | some (some delayString) => parseDelay delayString
      | _ => .error .nullPointer

/-- The text is a number of units and amounts to so many seconds, within an int. -/
def Amounts (text : String) (seconds : ℕ) : Prop :=
  ∃ timeNumStr timeUnit factor, text.toList = timeNumStr++[timeUnit] ∧
    Text.digits timeNumStr = true ∧ unitSeconds timeUnit = some factor ∧
    seconds = Text.number timeNumStr*factor ∧ 0 < seconds ∧ seconds < 2^31

/-- The job is configured with these positive delays, in this order. -/
def Configured (job : ServiceJob) (seconds : List ℕ) : Prop :=
  List.Forall₂ (fun delay seconds => ∃ text, delay = some text ∧ Amounts text seconds)
    (job.redelivoryDelays.getD []) seconds

theorem Configured.positive {job : ServiceJob} {seconds : List ℕ} (configured : job.Configured seconds)
    {n : ℕ} (listed : n < seconds.length) : 0 < seconds[n] := by
  have same := configured.length_eq
  obtain ⟨_,_,_,_,_,_,_,_,_,positive,_⟩ :=
    (List.forall₂_iff_get.mp configured).2 n (by omega) listed
  exact positive

theorem unitSeconds_pos {timeUnit : Char} {factor : ℕ} (unit : unitSeconds timeUnit = some factor) :
    0 < factor ∧ timeUnit.toNat < 2^16 := by
  unfold unitSeconds at unit
  split at unit <;> first | (cases unit; decide) | simp at unit

theorem wrapped_eq {product : ℕ} (inRange : product < 2^31) : wrapped product = product :=
  Int.bmod_eq_of_le_mul_two (by omega) (by omega)

theorem parseDelay_eq {text : String} {seconds : ℕ} (delay : Amounts text seconds) :
    parseDelay text = .ok seconds := by
  obtain ⟨timeNumStr,timeUnit,factor,split,digits,unit,rfl,_,inRange⟩ := delay
  obtain ⟨positive,plane⟩ := unitSeconds_pos unit
  have fits : Text.number timeNumStr < 2^31 :=
    lt_of_le_of_lt (Nat.le_mul_of_pos_right _ positive) inRange
  have kept := wrapped_eq inRange
  rw [Nat.cast_mul] at kept
  simp only [parseDelay,split,List.getLast?_concat,List.dropLast_concat,digits,plane,decide_true,
    Bool.and_self,if_true,valueOf,fits,bind,Except.bind,unit,kept,Nat.cast_mul]

theorem getDelaySeconds_eq (job : ServiceJob) {seconds : List ℕ}
    (delays : job.Configured seconds) (n : ℕ) (counted : job.failedTimes = n+1) :
    job.getDelaySeconds = .ok (seconds[n]?.elim (-1) fun delay => (delay : ℤ)) := by
  unfold Configured at delays
  cases configured : job.redelivoryDelays with
  | none =>
    rw [configured] at delays
    cases delays
    simp [getDelaySeconds,configured]
  | some texts =>
    simp only [configured,Option.getD_some] at delays
    have same := delays.length_eq
    simp only [getDelaySeconds,configured,counted]
    by_cases more : n < seconds.length
    · have listed : n < texts.length := by omega
      obtain ⟨text,eq,delay⟩ := (List.forall₂_iff_get.mp delays).2 n listed more
      have found : texts[n]? = some (some text) := by
        rw [List.getElem?_eq_getElem listed]
        exact congrArg some eq
      rw [if_neg (by omega),show ((n : ℤ)+1-1).toNat = n by omega,found,
        List.getElem?_eq_getElem more]
      exact parseDelay_eq delay
    · rw [if_pos (by omega),List.getElem?_eq_none (by omega)]
      rfl

end ServiceJob
end YzFramework.Job
