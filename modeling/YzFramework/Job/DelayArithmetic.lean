import YzFramework.Job.ServiceJob
import YzFramework.Queue.MessageUtil

/-! The delays of a redelivery list in seconds, and in the message in milliseconds. -/
namespace YzFramework.Job.DelayArithmetic
open Library ServiceJob
open Queue.MessageUtil

/-- `ListUtil.fromString`, which splits at commas and semicolons. -/
def fromString (input : String) : List String := Text.split (fun c => c == ',' || c == ';') input

def configured (input : String) (failedTimes : ℤ) : ServiceJob where
  failedTimes
  redelivoryDelays := some ((fromString input).map some)

def entry (input : String) (failedTimes : ℤ) : Option String :=
  if failedTimes < 1 then none else (fromString input)[(failedTimes-1).toNat]?

/-- A number with a unit; a number of seconds beyond an int is none. -/
def Exact (text : String) (delay : ℤ) : Prop :=
  ∀ timeNumStr timeUnit factor, text.toList = timeNumStr++[timeUnit] →
    Text.digits timeNumStr = true → unitSeconds timeUnit = some factor →
      delay = if Text.number timeNumStr*factor < 2^31 then (Text.number timeNumStr*factor : ℤ) else -1

def Delayed (input : String) (failedTimes : ℤ) : Prop :=
  ∃ delay, (configured input failedTimes).getDelaySeconds = .ok delay ∧
    ∀ text, entry input failedTimes = some text → Exact text delay

/-- The entry is not empty; digits before a last char are a number within an int, and so
is the number of seconds. -/
def Fits (text : String) : Prop :=
  text ≠ "" ∧ ∀ timeNumStr timeUnit, text.toList = timeNumStr++[timeUnit] →
    Text.digits timeNumStr = true → timeUnit.toNat < 2^16 → Text.number timeNumStr < 2^31 ∧
      ∀ factor, unitSeconds timeUnit = some factor → Text.number timeNumStr*factor < 2^31

theorem getDelaySeconds_entry (input : String) (failedTimes : ℤ) :
    (configured input failedTimes).getDelaySeconds =
      match entry input failedTimes with
      | none => .ok (-1)
      | some text => parseDelay text := by
  rw [getDelaySeconds,configured,entry]
  by_cases early : failedTimes < 1
  · rw [if_pos early]
    exact if_pos (.inl early)
  · rw [if_neg early]
    dsimp only
    rw [List.length_map,List.getElem?_map]
    by_cases late : ((fromString input).length : ℤ) < failedTimes
    · rw [if_pos (.inr late),List.getElem?_eq_none (by omega)]
    · rw [if_neg (not_or.mpr ⟨early,late⟩)]
      cases found : (fromString input)[(failedTimes-1).toNat]? with
      | none =>
        rw [List.getElem?_eq_none_iff] at found
        omega
      | some text => rfl

theorem unitSeconds_even {timeUnit : Char} {factor : ℕ} (unit : unitSeconds timeUnit = some factor) :
    factor = 1 ∨ 2 ∣ factor := by
  unfold unitSeconds at unit
  split at unit <;> first | (cases unit; decide) | simp at unit

/-- A product that overflows never wraps to −1, as all units but the second are even. -/
theorem wrapped_eq_iff {timeUnit : Char} {factor : ℕ} (unit : unitSeconds timeUnit = some factor)
    {timeNum : ℕ} (fits : timeNum < 2^31) :
    wrapped (timeNum*factor) = (if timeNum*factor < 2^31 then (timeNum*factor : ℤ) else -1) ↔
      timeNum*factor < 2^31 := by
  by_cases small : timeNum*factor < 2^31
  · refine iff_of_true ?_ small
    have kept := wrapped_eq small
    rw [Nat.cast_mul] at kept
    rw [if_pos small,kept]
  · refine iff_of_false (fun same => ?_) small
    rw [if_neg small] at same
    have residue : (wrapped (timeNum*factor)) % (2^32 : ℤ) = (timeNum*factor : ℤ) % 2^32 := Int.bmod_emod
    rw [same] at residue
    rcases unitSeconds_even unit with rfl | ⟨half,rfl⟩
    · omega
    · have even : ((timeNum : ℤ)*(2*half : ℕ)) = 2*(timeNum*half) := by
        push_cast
        ring
      rw [even] at residue
      omega

theorem parseDelay_last {text : String} {timeUnit : Char} (last : text.toList.getLast? = some timeUnit) :
    parseDelay text =
      if Text.digits text.toList.dropLast = true ∧ timeUnit.toNat < 2^16 then
        if Text.number text.toList.dropLast < 2^31 then
          match unitSeconds timeUnit with
          | some factor => .ok (wrapped (Text.number text.toList.dropLast*factor))
          | none => .ok (-1)
        else .error .numberFormat
      else .ok (-1) := by
  rw [parseDelay,last]
  simp only [Bool.and_eq_true,decide_eq_true_eq,valueOf]
  split
  · split
    · rfl
    · rfl
  · rfl

private theorem forall_split {text : String} {timeNumStr : List Char} {timeUnit : Char}
    (whole : text.toList = timeNumStr++[timeUnit]) (entry : List Char → Char → Prop) :
    (∀ number unit, text.toList = number++[unit] → entry number unit) ↔ entry timeNumStr timeUnit := by
  refine ⟨fun all => all timeNumStr timeUnit whole,fun held number unit other => ?_⟩
  obtain ⟨rfl,same⟩ := List.append_inj' (other.symm.trans whole) rfl
  cases same
  exact held

private theorem exact_split {text : String} {timeNumStr : List Char} {timeUnit : Char}
    (whole : text.toList = timeNumStr++[timeUnit]) (delay : ℤ) : Exact text delay ↔
      ∀ factor, Text.digits timeNumStr = true → unitSeconds timeUnit = some factor →
        delay = if Text.number timeNumStr*factor < 2^31 then (Text.number timeNumStr*factor : ℤ) else -1 := by
  rw [← forall_split whole fun number unit => ∀ factor, Text.digits number = true →
    unitSeconds unit = some factor →
      delay = if Text.number number*factor < 2^31 then (Text.number number*factor : ℤ) else -1]
  exact ⟨fun exact number unit split factor => exact number unit factor split,
    fun exact number unit factor split => exact number unit split factor⟩

private theorem fits_split {text : String} {timeNumStr : List Char} {timeUnit : Char}
    (whole : text.toList = timeNumStr++[timeUnit]) : Fits text ↔
      (Text.digits timeNumStr = true → timeUnit.toNat < 2^16 → Text.number timeNumStr < 2^31 ∧
        ∀ factor, unitSeconds timeUnit = some factor → Text.number timeNumStr*factor < 2^31) := by
  have written : text ≠ "" := by
    rintro rfl
    simp at whole
  rw [Fits,and_iff_right written]
  exact forall_split whole _

/-- An entry is parsed to its exact delay if and only if it fits. -/
theorem parseDelay_exact_iff (text : String) :
    (∃ delay, parseDelay text = .ok delay ∧ Exact text delay) ↔ Fits text := by
  cases last : text.toList.getLast? with
  | none =>
    have empty : text = "" := String.toList_inj.mp (List.getLast?_eq_none_iff.mp last)
    refine iff_of_false ?_ fun fits => fits.1 empty
    rintro ⟨delay,parsed,-⟩
    rw [parseDelay,last] at parsed
    cases parsed
  | some timeUnit =>
    have whole : text.toList = text.toList.dropLast++[timeUnit] :=
      (List.dropLast_append_getLast? timeUnit last).symm
    rw [parseDelay_last last,fits_split whole]
    simp only [exact_split whole]
    generalize text.toList.dropLast = timeNumStr
    by_cases number : Text.digits timeNumStr = true ∧ timeUnit.toNat < 2^16
    · rw [if_pos number]
      by_cases small : Text.number timeNumStr < 2^31
      · rw [if_pos small]
        cases unit : unitSeconds timeUnit with
        | none => exact iff_of_true ⟨-1,rfl,by simp⟩ fun _ _ => ⟨small,by simp⟩
        | some factor =>
          have same := wrapped_eq_iff unit small
          constructor
          · rintro ⟨delay,parsed,exact⟩ _ _
            obtain rfl := Except.ok.inj parsed
            refine ⟨small,?_⟩
            rintro _ ⟨⟩
            exact same.mp (exact factor number.1 rfl)
          · intro fits
            refine ⟨_,rfl,?_⟩
            rintro _ _ ⟨⟩
            exact same.mpr ((fits number.1 number.2).2 factor rfl)
      · rw [if_neg small]
        refine iff_of_false ?_ fun fits => small (fits number.1 number.2).1
        rintro ⟨delay,parsed,-⟩
        cases parsed
    · rw [if_neg number]
      refine iff_of_true ⟨-1,rfl,fun factor digits unit => ?_⟩ fun digits plane => ?_
      · exact (number ⟨digits,(unitSeconds_pos unit).2⟩).elim
      · exact (number ⟨digits,plane⟩).elim

theorem delayed_iff (input : String) (failedTimes : ℤ) :
    Delayed input failedTimes ↔ ∀ text, entry input failedTimes = some text → Fits text := by
  rw [Delayed,getDelaySeconds_entry]
  cases entry input failedTimes with
  | none => simp
  | some text => simpa using parseDelay_exact_iff text

/-- A message with a positive delay is scheduled after as many milliseconds. -/
def Scheduled {Other : Type*} (platform : Queue.Platform Other) (currentTimeMillis : ℤ)
    (jobMessage : Queue.JobMessage Other) : Prop :=
  ∀ message, createMessage platform currentTimeMillis jobMessage = some message →
    0 < jobMessage.delaySeconds →
      delayOf message = some (.long (jobMessage.delaySeconds*1000))

theorem delayOf_createMessage {Other : Type*} {platform : Queue.Platform Other} {currentTimeMillis : ℤ}
    {jobMessage : Queue.JobMessage Other} {message : Queue.Message Other}
    (created : createMessage platform currentTimeMillis jobMessage = some message)
    (positive : 0 < jobMessage.delaySeconds) :
    delayOf message = some (.long (toInt (jobMessage.delaySeconds*1000))) := by
  obtain ⟨body,-,rfl⟩ := Option.map_eq_some_iff.mp created
  have apart : AMQ_SCHEDULED_DELAY ≠ CREATED_TIME_MS := by decide
  rw [delayOf,Table.lookup_put,if_neg apart,lookup_setDelay,if_pos ⟨rfl,positive⟩]

private theorem scheduled_iff {Other : Type*} (platform : Queue.Platform Other) (currentTimeMillis : ℤ)
    (jobMessage : Queue.JobMessage Other) : Scheduled platform currentTimeMillis jobMessage ↔
      (jobMessage.body ≠ none → jobMessage.delaySeconds ≤ 2147483) := by
  cases held : jobMessage.body with
  | none =>
    refine iff_of_true (fun message created => ?_) fun some => (some rfl).elim
    rw [createMessage,held] at created
    cases created
  | some body =>
    rw [forall_prop_of_true (Option.some_ne_none body)]
    have created : createMessage platform currentTimeMillis jobMessage = some _ :=
      Option.map_eq_some_iff.mpr ⟨body,held,rfl⟩
    constructor
    · intro scheduled
      by_cases positive : 0 < jobMessage.delaySeconds
      · have exact := scheduled _ created positive
        rw [delayOf_createMessage created positive] at exact
        exact (toInt_product _ positive).mp (Queue.Value.long.inj (Option.some.inj exact))
      · omega
    · intro small message again positive
      rw [delayOf_createMessage again positive,(toInt_product _ positive).mpr small]

/-- Delays are exact if and only if the entry of the last failure fits, and milliseconds
if and only if they fit an int. -/
theorem delays_exact_iff {Other : Type*} (platform : Queue.Platform Other) (input : String)
    (failedTimes currentTimeMillis : ℤ) (jobMessage : Queue.JobMessage Other) :
    (Delayed input failedTimes ↔ ∀ text, entry input failedTimes = some text → Fits text) ∧
      (Scheduled platform currentTimeMillis jobMessage ↔
        (jobMessage.body ≠ none → jobMessage.delaySeconds ≤ 2147483)) :=
  ⟨delayed_iff input failedTimes,scheduled_iff platform currentTimeMillis jobMessage⟩

/-- An empty entry and a long number throw, seventy years wrap, and so do the
milliseconds of a month. -/
theorem delays_wrap : ¬ Delayed ",30s" 1 ∧ ¬ Delayed "99999999999s" 1 ∧ ¬ Delayed "70y" 1 ∧
    ¬ Scheduled samplePlatform 0 {sampleMessage with delaySeconds := 2592000} := by
  refine ⟨fun held => ?_,fun held => ?_,fun held => ?_,?_⟩
  · exact ((delayed_iff _ _).mp held "" (by decide +kernel)).1 rfl
  · have fits := (delayed_iff _ _).mp held "99999999999s" (by decide +kernel)
    have small := (fits.2 "99999999999".toList 's' (by decide +kernel) (by decide +kernel) (by decide)).1
    exact absurd small (by decide +kernel)
  · have fits := (delayed_iff _ _).mp held "70y" (by decide +kernel)
    have small := (fits.2 "70".toList 'y' (by decide +kernel) (by decide +kernel) (by decide)).2 _ rfl
    exact absurd small (by decide +kernel)
  · rw [scheduled_iff]
    decide

end YzFramework.Job.DelayArithmetic
