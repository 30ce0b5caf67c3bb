import YzFramework.Library.Store
import YzFramework.Library.Text
import Mathlib.Algebra.Order.Ring.Int

/-! `ServiceTask`: one service call of a job and the verdict on its return status. -/
namespace YzFramework.Job
open Library

/-- What a caller can be thrown; the last one stands for every `Error`. -/
inductive Throwable
  | nullPointer
  | indexOutOfBounds
  | numberFormat
  | error
deriving DecidableEq

structure ServiceTask where
  success : Bool := false
  serviceName : Option String := none
  data : Option (Store String String) := some fun _ => none
  successStatus : Option String := none
  failedTimes : ℤ := 0
  returnMessage : Option String := none
  returnStatus : ℤ := 0
  returnData : Option String := none
  lastInvokeTime : Option String := none

/-- `String.valueOf` of an array object: its class name and identity hash. -/
def arrayText (identityHash : ℕ) : String :=
  "[Ljava.lang.String;@"++String.ofList (Nat.toDigits 16 identityHash)

namespace ServiceTask

def isNullOrEmpty (text : Option String) : Bool := text.all Text.blank

def split (successStatus : String) : List String := Text.split (· == ',') successStatus

/-- The verdict looks for the text of the array itself among its elements. -/
def updateReturnStatus (identityHash : ℕ) (returnStatus : ℤ) (task : ServiceTask) : ServiceTask :=
  {task with
    returnStatus := returnStatus
    success :=
      if isNullOrEmpty task.successStatus then returnStatus == 0 || returnStatus == 10000
      else (task.successStatus.map split).any (·.contains (arrayText identityHash))}

def increaseFailedTimes (task : ServiceTask) : ServiceTask :=
  {task with failedTimes := task.failedTimes+1}

/-- The getters of the invocation's parts: a key and the one to fall back on,
read from `data`, which must not be null. -/
def part (key fallback : String) (task : ServiceTask) : Except Throwable (Option String) :=
  match task.data with
  | none => .error .nullPointer
  | some data => .ok (if isNullOrEmpty (data key) then data fallback else data key)

def getApi : ServiceTask → Except Throwable (Option String) := part "api" "func"
def getMessage : ServiceTask → Except Throwable (Option String) := part "message" "params"
def getFrom : ServiceTask → Except Throwable (Option String) := part "from" "source"
def getSign : ServiceTask → Except Throwable (Option String) := part "sign" "signKey"

/-- The status means success: it is listed, or 0 or 10000 where none is. -/
def Accepts (successStatus : Option String) (status : ℤ) : Prop :=
  if isNullOrEmpty successStatus then status = 0 ∨ status = 10000
  else ∃ listed ∈ successStatus.toList, toString status ∈ split listed

instance (successStatus : Option String) (status : ℤ) : Decidable (Accepts successStatus status) :=
  inferInstanceAs (Decidable (if isNullOrEmpty successStatus then status = 0 ∨ status = 10000
    else ∃ listed ∈ successStatus.toList, toString status ∈ split listed))

end ServiceTask
end YzFramework.Job
