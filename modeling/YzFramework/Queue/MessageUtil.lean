import YzFramework.Library.Run
import YzFramework.Library.Table
import Mathlib.Tactic.Ring

/-! `MessageUtil`: job messages turned into JMS messages and back, hop after hop. -/
namespace YzFramework.Queue
open Library Library.Run

inductive Value (Other : Type*)
  | long (value : ℤ)
  | string (text : String)
  | other (object : Other)
deriving DecidableEq

inductive Body
  | text (text : String)
  | bytes (bytes : List UInt8)

structure JobMessage (Other : Type*) where
  messageId : Option String := none
  producedBy : Option String := none
  priority : ℤ := 0
  delaySeconds : ℤ := 0
  timestamp : ℤ := 0
  properties : Option (Table String (Value Other)) := some ∅
  body : Option Body := none

inductive Content (Other : Type*)
  | text (text : String)
  | map (entries : Table String (Value Other))
  | bytes (bytes : List UInt8)
  | stream
  | empty

structure Message (Other : Type*) where
  JMSMessageID : Option String := none
  JMSPriority : ℤ
  JMSTimestamp : ℤ := 0
  properties : Table String (Value Other)
  content : Content Other

/-- Spring, fastjson, the charset, and the provider's priorities, which are 0 to 9. -/
structure Platform (Other : Type*) where
  hasText : String → Bool
  toJSONString : Table String (Value Other) → String
  decode : List UInt8 → String
  setJMSPriority : ℤ → ℤ
  priority_range : ∀ priority, 0 ≤ setJMSPriority priority ∧ setJMSPriority priority ≤ 9
  priority_kept : ∀ priority, 0 ≤ priority → priority ≤ 9 → setJMSPriority priority = priority

namespace MessageUtil

def AMQ_SCHEDULED_ID : String := "scheduledJobId"

def AMQ_SCHEDULED_DELAY : String := "AMQ_SCHEDULED_DELAY"

def PRODUCE_BY : String := "produce_by"

def CREATED_TIME_MS : String := "create_time"

variable {Other : Type*} (platform : Platform Other)

def toInt (value : ℤ) : ℤ := value.bmod (2^32)

def contentOf : Body → Content Other
  | .text text => .text text
  | .bytes bytes => .bytes bytes

/-- The properties of the job message but the schedule id. -/
def copied (jobMessage : JobMessage Other) : Table String (Value Other) :=
  match jobMessage.properties with
  | some properties => Table.putAll ∅ (Table.pairs (properties.erase AMQ_SCHEDULED_ID))
  | none => ∅

def setProducer (producedBy : Option String) (properties : Table String (Value Other)) :
    Table String (Value Other) :=
  match producedBy with
  | some producer =>
    if platform.hasText producer then properties.insert PRODUCE_BY (.string producer) else properties
  | none => properties

def setDelay (delaySeconds : ℤ) (properties : Table String (Value Other)) :
    Table String (Value Other) :=
  if 0 < delaySeconds then
    properties.insert AMQ_SCHEDULED_DELAY (.long (toInt (delaySeconds*1000)))
  else properties

/-- Without a body there is no message to set anything on. -/
def createMessage (currentTimeMillis : ℤ) (jobMessage : JobMessage Other) : Option (Message Other) :=
  jobMessage.body.map fun body => {
    JMSPriority := platform.setJMSPriority (toInt jobMessage.priority)
    properties := (setDelay jobMessage.delaySeconds
      (setProducer platform jobMessage.producedBy (copied jobMessage))).insert CREATED_TIME_MS
        (.long currentTimeMillis)
    content := contentOf body}

/-- Stream messages are not supported. -/
def readBody : Content Other → Option (Option Body)
  | .text text => some (some (.text text))
  | .map entries => some (some (.text (platform.toJSONString entries)))
  | .bytes bytes => some (some (.text (platform.decode bytes)))
  | .stream => none
  | .empty => some none

def fromMessage (message : Message Other) : Option (JobMessage Other) :=
  (readBody platform message.content).map fun body => {
    messageId := message.JMSMessageID
    priority := message.JMSPriority
    timestamp := message.JMSTimestamp
    properties := some (Table.putAll ∅ message.properties.pairs)
    body}

/-- What a worker sets before it sends, the clock, and what the provider gives. -/
structure Hop where
  producedBy : Option String
  delaySeconds : ℤ
  currentTimeMillis : ℤ
  messageId : Option String
  timestamp : ℤ

def send (jobMessage : JobMessage Other) (hop : Hop) : Option (Message Other) :=
  createMessage platform hop.currentTimeMillis
    {jobMessage with producedBy := hop.producedBy,delaySeconds := hop.delaySeconds}

def receive (hop : Hop) (message : Message Other) : Option (JobMessage Other) :=
  fromMessage platform
    {message with JMSMessageID := hop.messageId,JMSTimestamp := hop.timestamp}

def step (jobMessage : JobMessage Other) (hop : Hop) : JobMessage Other :=
  ((send platform jobMessage hop).bind (receive platform hop)).getD jobMessage

def bodyText : Body → String
  | .text text => text
  | .bytes bytes => platform.decode bytes

def property (jobMessage : JobMessage Other) (key : String) : Option (Value Other) :=
  jobMessage.properties.bind fun properties => properties.lookup key

/-- Properties that the framework or the broker sets. -/
def reserved : List String := [AMQ_SCHEDULED_ID,AMQ_SCHEDULED_DELAY,PRODUCE_BY,CREATED_TIME_MS]

def delayOf (message : Message Other) : Option (Value Other) :=
  message.properties.lookup AMQ_SCHEDULED_DELAY

/-- One hop keeps text, priority and the user's properties, and schedules the message
with its own delay or not at all. -/
def Faithful (jobMessage : JobMessage Other) (hop : Hop) : Prop :=
  ∃ message after, send platform jobMessage hop = some message ∧
    receive platform hop message = some after ∧
    after.body.map (bodyText platform) = jobMessage.body.map (bodyText platform) ∧
    after.priority = jobMessage.priority ∧
    (∀ key ∉ reserved, property after key = property jobMessage key) ∧
    (0 < hop.delaySeconds → delayOf message = some (.long (hop.delaySeconds*1000))) ∧
    (hop.delaySeconds = 0 → delayOf message = none)

/-- A priority of JMS, a delay whose milliseconds are an int, and no delay left over. -/
def Fit (jobMessage : JobMessage Other) (hop : Hop) : Prop :=
  (0 ≤ jobMessage.priority ∧ jobMessage.priority ≤ 9) ∧ hop.delaySeconds ≤ 2147483 ∧
    (hop.delaySeconds = 0 → property jobMessage AMQ_SCHEDULED_DELAY = none)

variable {platform}

private theorem lookup_copied (jobMessage : JobMessage Other) (key : String) :
    (copied jobMessage).lookup key =
      if key = AMQ_SCHEDULED_ID then none else property jobMessage key := by
  unfold copied property
  cases jobMessage.properties with
  | some properties => rw [Table.lookup_putAll_pairs,Table.lookup_remove]; rfl
  | none => simp

private theorem lookup_setProducer (producedBy : Option String) (properties : Table String (Value Other))
    {key : String} (apart : key ≠ PRODUCE_BY) :
    (setProducer platform producedBy properties).lookup key = properties.lookup key := by
  unfold setProducer
  split
  · split
    · rw [Table.lookup_put,if_neg apart]
    · rfl
  · rfl

theorem lookup_setDelay (delaySeconds : ℤ) (properties : Table String (Value Other)) (key : String) :
    (setDelay delaySeconds properties).lookup key =
      if key = AMQ_SCHEDULED_DELAY ∧ 0 < delaySeconds then
        some (.long (toInt (delaySeconds*1000)))
      else properties.lookup key := by
  by_cases positive : 0 < delaySeconds
  · rw [setDelay,if_pos positive,Table.lookup_put]
    simp [positive]
  · simp [setDelay,positive]

theorem toInt_product (delaySeconds : ℤ) (positive : 0 < delaySeconds) :
    toInt (delaySeconds*1000) = delaySeconds*1000 ↔ delaySeconds ≤ 2147483 := by
  rw [toInt,Int.bmod_eq_iff (by decide)]
  constructor
  · intro fits
    obtain ⟨_,below,_⟩ := fits
    omega
  · intro small
    exact ⟨by omega,by omega,by simp⟩

theorem send_lookup {jobMessage : JobMessage Other} {hop : Hop} {message : Message Other}
    (sent : send platform jobMessage hop = some message) {key : String}
    (apart : key ∉ [AMQ_SCHEDULED_ID,PRODUCE_BY,CREATED_TIME_MS]) :
    message.properties.lookup key =
      if key = AMQ_SCHEDULED_DELAY ∧ 0 < hop.delaySeconds then
        some (.long (toInt (hop.delaySeconds*1000)))
      else property jobMessage key := by
  simp only [List.mem_cons,List.not_mem_nil,or_false,not_or] at apart
  obtain ⟨body,_,rfl⟩ := Option.map_eq_some_iff.mp sent
  simp only [Table.lookup_put,if_neg apart.2.2,lookup_setDelay,lookup_setProducer _ _ apart.2.1,
    lookup_copied,if_neg apart.1]
  rfl

theorem toInt_priority {priority : ℤ} (range : 0 ≤ priority ∧ priority ≤ 9) :
    platform.setJMSPriority (toInt priority) = priority := by
  have same : toInt priority = priority :=
    (Int.bmod_eq_iff (by decide)).mpr ⟨by omega,by omega,by simp⟩
  rw [same]
  exact platform.priority_kept priority range.1 range.2

private theorem hop_answered (jobMessage : JobMessage Other) (hop : Hop) (some : jobMessage.body ≠ none) :
    ∃ message after, send platform jobMessage hop = .some message ∧
      receive platform hop message = .some after ∧
      after.body.map (bodyText platform) = jobMessage.body.map (bodyText platform) ∧
      after.priority = platform.setJMSPriority (toInt jobMessage.priority) ∧
      ∀ key, property after key = message.properties.lookup key := by
  obtain ⟨body,held⟩ := Option.ne_none_iff_exists'.mp some
  have sent : send platform jobMessage hop = .some _ := Option.map_eq_some_iff.mpr ⟨body,held,rfl⟩
  rw [held]
  cases body with
  | text text => exact ⟨_,_,sent,rfl,rfl,rfl,fun key => Table.lookup_putAll_pairs _ key⟩
  | bytes bytes => exact ⟨_,_,sent,rfl,rfl,rfl,fun key => Table.lookup_putAll_pairs _ key⟩

private theorem faithful_iff (jobMessage : JobMessage Other) (hop : Hop) (some : jobMessage.body ≠ none) :
    Faithful platform jobMessage hop ↔ Fit jobMessage hop := by
  obtain ⟨message,after,sent,received,text,priority,properties⟩ :=
    @hop_answered _ platform jobMessage hop some
  have delay : delayOf message = if 0 < hop.delaySeconds then
      .some (.long (toInt (hop.delaySeconds*1000))) else property jobMessage AMQ_SCHEDULED_DELAY := by
    rw [delayOf,send_lookup sent (by decide)]
    simp
  constructor
  · rintro ⟨_,_,again,alsoReceived,_,same,_,scheduled,unscheduled⟩
    cases again.symm.trans sent
    cases alsoReceived.symm.trans received
    refine ⟨?_,?_,fun zero => ?_⟩
    · rw [← same,priority]
      exact platform.priority_range _
    · by_cases positive : 0 < hop.delaySeconds
      · have exact := scheduled positive
        rw [delay,if_pos positive] at exact
        exact (toInt_product _ positive).mp (Value.long.inj (Option.some.inj exact))
      · omega
    · have left := unscheduled zero
      rwa [delay,if_neg (by omega)] at left
  · rintro ⟨range,small,cleared⟩
    refine ⟨message,after,sent,received,text,priority.trans (toInt_priority range),
      fun key user => ?_,fun positive => ?_,fun zero => ?_⟩
    · have apart : key ∉ [AMQ_SCHEDULED_ID,PRODUCE_BY,CREATED_TIME_MS] := by
        simp only [reserved,List.mem_cons,List.not_mem_nil,or_false,not_or] at user ⊢
        exact ⟨user.1,user.2.2⟩
      have other : key ≠ AMQ_SCHEDULED_DELAY := fun same => user (by simp [same,reserved])
      rw [properties,send_lookup sent apart,if_neg fun both => other both.1]
    · rw [delay,if_pos positive,(toInt_product _ positive).mpr small]
    · rw [delay,if_neg (by omega)]
      exact cleared zero

theorem step_body (jobMessage : JobMessage Other) (hop : Hop) (some : jobMessage.body ≠ none) :
    (step platform jobMessage hop).body ≠ none := by
  obtain ⟨message,after,sent,received,text,_⟩ :=
    @hop_answered _ platform jobMessage hop some
  have stepped : step platform jobMessage hop = after := by
    rw [step,sent,Option.bind_some,received,Option.getD_some]
  rw [stepped]
  intro missing
  rw [missing] at text
  exact some (Option.map_eq_none_iff.mp text.symm)

/-- Hops are faithful exactly in the runs whose hops all get a JMS priority, a short
delay and no old delay where they have none. -/
theorem run_faithful_iff (platform : Platform Other) (jobMessage : JobMessage Other)
    (hops : List Hop) (some : jobMessage.body ≠ none) :
    Along (step platform) (Faithful platform) jobMessage hops ↔
      Along (step platform) Fit jobMessage hops :=
  @along_iff _ _ _ _ _ (fun jobMessage => jobMessage.body ≠ none)
    (fun jobMessage hop held => faithful_iff jobMessage hop held)
    (fun jobMessage hop held _ => step_body jobMessage hop held) jobMessage hops some

def samplePlatform : Platform Empty where
  hasText := fun text => text.toList.any fun character => !character.isWhitespace
  toJSONString := fun _ => "\x7b\x7d"
  decode := fun bytes => String.ofList (bytes.map fun byte => Char.ofNat byte.toNat)
  setJMSPriority := fun priority => max 0 (min priority 9)
  priority_range := fun priority => by omega
  priority_kept := fun priority _ _ => by omega

def sampleMessage : JobMessage Empty :=
  {priority := 4
   properties := some (Table.putAll ∅ [("tries",.long 2)])
   body := some (.text "order")}

def delayed (delaySeconds : ℤ) : Hop := ⟨none,delaySeconds,1500000000000,none,1500000000001⟩

theorem run_faithful_iff_later :
    Along (step samplePlatform) (Faithful samplePlatform) sampleMessage [delayed 0,delayed 5] := by
  apply (run_faithful_iff samplePlatform sampleMessage [delayed 0,delayed 5] (by decide)).mpr
  exact ⟨⟨by decide,by decide,fun _ => rfl⟩,⟨by decide,by decide,fun zero => by cases zero⟩,trivial⟩

theorem delay_stays : ¬ Along (step samplePlatform) (Faithful samplePlatform) sampleMessage
    [delayed 5,delayed 0] := by
  rintro ⟨_,⟨message,_,sent,_,_,_,_,_,unscheduled⟩,_⟩
  have carried : (send samplePlatform (step samplePlatform sampleMessage (delayed 5))
      (delayed 0)).map delayOf = some (some (.long 5000)) := by decide +kernel
  rw [sent,Option.map_some,unscheduled rfl] at carried
  cases carried

end MessageUtil
end YzFramework.Queue
