import YzFramework.Job.ExecuteTask

/-! The deliveries of one job: what `ExecuteTask` puts on the retry queue is
delivered again, and every `produce` succeeds. -/
namespace YzFramework.Job.Redelivery
open ExecuteTask

variable (replies : ℕ → ℕ → Invocation) (first : JobMessage)

/-- The message on the retry queue before the delivery with this number, from 0. -/
def pending : ℕ → Option JobMessage
  | 0 => some first
  | n+1 => (pending n).bind fun message =>
    ((doWork (replies n) (fun _ => true) message).sent.find? (·.1 == .retry)).map Prod.snd

def delivery (n : ℕ) : Delivery :=
  ((pending replies first n).map (doWork (replies n) fun _ => true)).getD {}

def Delivered (n : ℕ) : Prop := (pending replies first n).isSome

variable (job : ServiceJob)

def SucceedsAt (n i : ℕ) : Prop :=
  i ∈ (delivery replies first n).invoked ∧
    ∃ task, job.taskList[i]? = some task ∧ Succeeds task (replies n i)

/-- The task came with success or has succeeded before this delivery. -/
def Finished (n i : ℕ) : Prop :=
  (∃ task, job.taskList[i]? = some task ∧ task.success = true) ∨
    ∃ m < n, SucceedsAt replies first job m i

def Failed (n : ℕ) : Prop :=
  Delivered replies first n ∧ ∃ i < job.taskList.length, ¬ Finished replies first job (n+1) i

/-- The retry protocol for the delays `seconds`; execution `n+1` is delivery `n`. -/
structure Keeps (seconds : List ℕ) : Prop where
  once : ∀ m n i, m < n → SucceedsAt replies first job m i → i ∉ (delivery replies first n).invoked
  bounded : ∀ n, Delivered replies first n → n < seconds.length+1
  onlyFailed : ∀ n, Delivered replies first (n+1) → Failed replies first job n
  retried : ∀ n, (later : n < seconds.length) → Failed replies first job n →
    ∃ message, (delivery replies first n).sent = [(.retry,message)] ∧
      message.delaySeconds = seconds[n] ∧ pending replies first (n+1) = some message
  given : Failed replies first job seconds.length →
    ∃ message, (delivery replies first seconds.length).sent = [(.failed,message)]
  closed : ∀ n, Delivered replies first n → (delivery replies first n).sent = [] →
    ∀ i < job.taskList.length, Finished replies first job (n+1) i

def FitRun : Prop :=
  ∀ n message job, pending replies first n = some message → message.body = some job →
    AllFit (replies n) 0 job.taskList

structure Marks (n : ℕ) (tasks : List ServiceTask) : Prop where
  length : tasks.length = job.taskList.length
  each : ∀ i task, job.taskList[i]? = some task → ∃ task', tasks[i]? = some task' ∧
    task'.successStatus = task.successStatus ∧ task'.data.isSome = task.data.isSome ∧
    (task'.success = true ↔ Finished replies first job n i)

structure Carries (seconds : List ℕ) (n : ℕ) (message : JobMessage) (carried : ServiceJob) : Prop where
  parsed : message.body = some carried
  failedTimes : carried.failedTimes = n
  configured : carried.Configured seconds
  inTime : n < seconds.length+1
  marks : Marks replies first job n carried.taskList

variable {replies first job}

private theorem finished_succ (n i : ℕ) : Finished replies first job (n+1) i ↔
    Finished replies first job n i ∨ SucceedsAt replies first job n i := by
  simp only [Finished,Nat.lt_succ_iff_lt_or_eq]
  constructor
  · intro finished
    rcases finished with came | ⟨m,earlier | rfl,succeeded⟩
    · exact .inl (.inl came)
    · exact .inl (.inr ⟨m,earlier,succeeded⟩)
    · exact .inr succeeded
  · intro finished
    rcases finished with (came | ⟨m,earlier,succeeded⟩) | succeeded
    · exact .inl came
    · exact .inr ⟨m,.inl earlier,succeeded⟩
    · exact .inr ⟨n,.inr rfl,succeeded⟩

private theorem succeeds_congr {task task' : ServiceTask} (status : task'.successStatus = task.successStatus)
    (data : task'.data.isSome = task.data.isSome) (invocation : Invocation) :
    Succeeds task' invocation ↔ Succeeds task invocation := by
  simp only [Succeeds,answer,status,data]

theorem delivery_eq {n : ℕ} {message : JobMessage} (waiting : pending replies first n = some message) :
    delivery replies first n = doWork (replies n) (fun _ => true) message := by
  simp [delivery,waiting]

theorem pending_succ (n : ℕ) : pending replies first (n+1) =
    ((delivery replies first n).sent.find? (·.1 == .retry)).map Prod.snd := by
  cases waiting : pending replies first n <;> simp [pending,delivery,waiting]

private theorem delivered_of_succ {n : ℕ} (next : Delivered replies first (n+1)) :
    Delivered replies first n := by
  cases waiting : pending replies first n with
  | none => simp [Delivered,pending,waiting] at next
  | some message => simp [Delivered,waiting]

private theorem Marks.all_success {n : ℕ} {tasks : List ServiceTask}
    (marks : Marks replies first job n tasks) :
    tasks.all (·.success) = true ↔ ∀ i < job.taskList.length, Finished replies first job n i := by
  rw [List.all_eq_true]
  constructor
  · intro all i inside
    obtain ⟨task',found,_,_,success⟩ := marks.each i _ (List.getElem?_eq_getElem inside)
    exact success.mp (all task' (List.mem_of_getElem? found))
  · intro all task' member
    obtain ⟨i,inside,rfl⟩ := List.mem_iff_getElem.mp member
    rw [marks.length] at inside
    obtain ⟨_,found,_,_,success⟩ := marks.each i _ (List.getElem?_eq_getElem inside)
    rw [(List.getElem?_eq_some_iff.mp found).2]
    exact success.mpr (all i inside)

theorem Marks.executed {n : ℕ} {message : JobMessage} {carried : ServiceJob} {after : List ServiceTask}
    (marks : Marks replies first job n carried.taskList)
    (waiting : pending replies first n = some message) (parsed : message.body = some carried)
    (fit : AllFit (replies n) 0 carried.taskList)
    (executed : AllExecuted (replies n) 0 carried.taskList after) :
    Marks replies first job (n+1) after := by
  refine ⟨executed.1.trans marks.length,fun i task listed => ?_⟩
  obtain ⟨task',found,status,data,success⟩ := marks.each i task listed
  obtain ⟨task'',there,kept⟩ := executed.2 i task' found
  rw [Nat.zero_add] at kept
  refine ⟨task'',there,kept.successStatus.trans status,kept.data.trans data,?_⟩
  rw [kept.success,finished_succ,success,succeeds_congr status data]
  constructor
  · intro either
    rcases either with finished | succeeds
    · exact .inl finished
    · by_cases finished : task'.success = true
      · exact .inl (success.mp finished)
      · have invoked := executeTasks_reaches (replies n) 0 carried.taskList
          (fun i task found unfinished => (fit i task found unfinished).1) i task' found
          (by simpa using finished)
        rw [Nat.zero_add,← doWork_invoked _ (fun _ => true) parsed,← delivery_eq waiting] at invoked
        exact .inr ⟨invoked,task,listed,succeeds⟩
  · intro either
    rcases either with finished | ⟨_,other,same,succeeds⟩
    · exact .inl finished
    · rw [listed] at same
      cases same
      exact .inr succeeds

theorem Marks.failedJob {n : ℕ} {tasks : List ServiceTask} (marks : Marks replies first job n tasks)
    (carried : ServiceJob) : Marks replies first job n (failedJob carried tasks).taskList := by
  refine ⟨by simpa [ExecuteTask.failedJob,ServiceJob.increaseFailedTimes] using marks.length,?_⟩
  intro i task listed
  obtain ⟨task',found,status,data,success⟩ := marks.each i task listed
  refine ⟨if task'.success then task' else task'.increaseFailedTimes,?_,?_⟩
  · simp [ExecuteTask.failedJob,ServiceJob.increaseFailedTimes,found]
  · split <;> exact ⟨status,data,success⟩

/-- One fit delivery: no message, the next delay, or the failed queue. -/
theorem Carries.deliver {seconds : List ℕ} {n : ℕ} {message : JobMessage} {carried : ServiceJob}
    (carries : Carries replies first job seconds n message carried)
    (waiting : pending replies first n = some message)
    (fit : AllFit (replies n) 0 carried.taskList) :
    ((∀ i < job.taskList.length, Finished replies first job (n+1) i) ∧
      (delivery replies first n).sent = []) ∨
    (Failed replies first job n ∧ ∃ later : n < seconds.length, ∃ message carried,
      (delivery replies first n).sent = [(.retry,message)] ∧ message.delaySeconds = seconds[n] ∧
        Carries replies first job seconds (n+1) message carried) ∨
    (Failed replies first job n ∧ n = seconds.length ∧ ∃ message,
      (delivery replies first n).sent = [(.failed,message)]) := by
  obtain ⟨after,ended,executed⟩ := executeTasks_fit (replies n) 0 carried.taskList fit
  have marks := carries.marks.executed waiting carries.parsed fit executed
  have counted : (failedJob carried after).failedTimes = n+1 := by
    simp [failedJob,ServiceJob.increaseFailedTimes,carries.failedTimes]
  have configured : (failedJob carried after).Configured seconds := carries.configured
  have sent := doWork_sent carries.parsed ended
    (ServiceJob.getDelaySeconds_eq (failedJob carried after) configured n counted)
  rw [delivery_eq waiting,sent]
  by_cases all : ∀ i < job.taskList.length, Finished replies first job (n+1) i
  · exact .inl ⟨all,if_pos (marks.all_success.mpr all)⟩
  · have failed : Failed replies first job n := by
      push Not at all
      exact ⟨by simp [Delivered,waiting],all⟩
    rw [if_neg (all ∘ marks.all_success.mp)]
    by_cases later : n < seconds.length
    · have positive := configured.positive later
      simp only [List.getElem?_eq_getElem later,Option.elim_some,Int.natCast_pos,positive,if_true]
      exact .inr (.inl ⟨failed,later,_,failedJob carried after,rfl,rfl,rfl,by simpa using counted,
        configured,by omega,marks.failedJob carried⟩)
    · simp only [List.getElem?_eq_none (Nat.not_lt.mp later),Option.elim_none]
      exact .inr (.inr ⟨failed,by have := carries.inTime; omega,_,rfl⟩)

private theorem Carries.not_invoked {seconds : List ℕ} {n i : ℕ} {message : JobMessage} {carried : ServiceJob}
    (carries : Carries replies first job seconds n message carried)
    (waiting : pending replies first n = some message) (finished : Finished replies first job n i) :
    i ∉ (delivery replies first n).invoked := by
  intro invoked
  rw [delivery_eq waiting,doWork_invoked _ _ carries.parsed] at invoked
  obtain ⟨_,task',rfl,found,unfinished⟩ := executeTasks_invoked _ _ _ invoked
  rw [Nat.zero_add] at finished
  have inside := (List.getElem?_eq_some_iff.mp found).1
  rw [carries.marks.length] at inside
  obtain ⟨other,same,_,_,success⟩ := carries.marks.each _ _ (List.getElem?_eq_getElem inside)
  rw [found] at same
  cases same
  simp [success.mpr finished] at unfinished

private theorem carries_of_pending {seconds : List ℕ} (parsed : first.body = some job)
    (fresh : job.failedTimes = 0) (configured : job.Configured seconds)
    (fit : FitRun replies first) (n : ℕ) (message : JobMessage)
    (waiting : pending replies first n = some message) :
    ∃ carried, Carries replies first job seconds n message carried := by
  induction n generalizing message with
  | zero =>
    obtain rfl : first = message := by simpa [pending] using waiting
    refine ⟨job,parsed,by simpa using fresh,configured,by omega,rfl,fun i task listed => ?_⟩
    exact ⟨task,listed,rfl,rfl,by simp [Finished,listed]⟩
  | succ n ih =>
    have delivered := delivered_of_succ (show Delivered replies first (n+1) by simp [Delivered,waiting])
    obtain ⟨earlier,before⟩ := Option.isSome_iff_exists.mp delivered
    obtain ⟨carried,carries⟩ := ih earlier before
    rw [pending_succ] at waiting
    rcases carries.deliver before (fit n earlier carried before carries.parsed) with
      ⟨_,eq⟩ | ⟨_,_,message',carried',eq,_,next⟩ | ⟨_,_,message',eq⟩
    · simp [eq] at waiting
    · obtain rfl : message' = message := by simpa [eq] using waiting
      exact ⟨carried',next⟩
    · simp [eq] at waiting

private theorem carries_of_delivered {seconds : List ℕ} (parsed : first.body = some job)
    (fresh : job.failedTimes = 0) (configured : job.Configured seconds)
    (fit : FitRun replies first) (n : ℕ) (delivered : Delivered replies first n) :
    ∃ message carried, pending replies first n = some message ∧
      Carries replies first job seconds n message carried ∧
        AllFit (replies n) 0 carried.taskList := by
  obtain ⟨message,waiting⟩ := Option.isSome_iff_exists.mp delivered
  obtain ⟨carried,carries⟩ := carries_of_pending parsed fresh configured fit n message waiting
  exact ⟨message,carried,waiting,carries,fit n message carried waiting carries.parsed⟩

private theorem Failed.not_all {n : ℕ} (failed : Failed replies first job n) :
    ¬ ∀ i < job.taskList.length, Finished replies first job (n+1) i := by
  obtain ⟨_,i,inside,unfinished⟩ := failed
  exact fun all => unfinished (all i inside)

/-- Every fit run of deliveries keeps the retry protocol. -/
theorem run_keeps {seconds : List ℕ} (parsed : first.body = some job)
    (fresh : job.failedTimes = 0) (configured : job.Configured seconds)
    (fit : FitRun replies first) : Keeps replies first job seconds := by
  have met := carries_of_delivered parsed fresh configured fit
  constructor
  case once =>
    intro m n i earlier succeeded invoked
    cases waiting : pending replies first n with
    | none => simp [delivery,waiting] at invoked
    | some message =>
      obtain ⟨carried,carries⟩ := carries_of_pending parsed fresh configured fit n message waiting
      exact carries.not_invoked waiting (.inr ⟨m,earlier,succeeded⟩) invoked
  case bounded =>
    intro n delivered
    obtain ⟨_,_,_,carries,_⟩ := met n delivered
    exact carries.inTime
  case onlyFailed =>
    intro n next
    obtain ⟨message,carried,waiting,carries,fit⟩ := met n (delivered_of_succ next)
    -- A further delivery needs a message on the retry queue.
    rw [Delivered,pending_succ] at next
    rcases carries.deliver waiting fit with ⟨_,eq⟩ | ⟨failed,_⟩ | ⟨failed,_⟩
    · simp [eq] at next
    · exact failed
    · exact failed
  case retried =>
    intro n later failed
    obtain ⟨message,carried,waiting,carries,fit⟩ := met n failed.1
    rcases carries.deliver waiting fit with
      ⟨all,_⟩ | ⟨_,_,message',_,eq,delay,_⟩ | ⟨_,last,_⟩
    · exact absurd all failed.not_all
    · exact ⟨message',eq,delay,by simp [pending_succ,eq]⟩
    · omega
  case given =>
    intro failed
    obtain ⟨message,carried,waiting,carries,fit⟩ := met _ failed.1
    rcases carries.deliver waiting fit with ⟨all,_⟩ | ⟨_,later,_⟩ | ⟨_,_,sent⟩
    · exact absurd all failed.not_all
    · omega
    · exact sent
  case closed =>
    intro n delivered silent
    obtain ⟨message,carried,waiting,carries,fit⟩ := met n delivered
    rcases carries.deliver waiting fit with ⟨all,_⟩ | ⟨_,_,_,_,eq,_⟩ | ⟨_,_,_,eq⟩
    · exact all
    · simp [eq] at silent
    · simp [eq] at silent

private theorem fiveSeconds : ServiceJob.Amounts "5s" 5 :=
  ⟨['5'],'s',1,by decide,by decide,by decide,by decide,by decide,by decide⟩

def failsOnce : ℕ → ℕ → Invocation
  | 0,_ => {reply := .failed}
  | _+1,_ => {reply := .answered 0 none none none}

theorem failsOnce_fit : FitRun failsOnce
    {body := some {redelivoryDelays := some [some "5s"],taskList := [{}]}} := by
  have fit : ∀ n i task, task.data.isSome = true → task.successStatus = none →
      Fit task (failsOnce n i) := fun n i task data status =>
    ⟨⟨data,by cases n <;> simp [failsOnce]⟩,by simp [status]⟩
  have stopped : ∀ n, pending failsOnce
      {body := some {redelivoryDelays := some [some "5s"],taskList := [{}]}} (n+2) = none := by
    intro n
    induction n with
    | zero => rfl
    | succ n ih => rw [pending,ih]; rfl
  intro n message carried waiting parsed i task listed unfinished
  match n with
  | 0 =>
    cases waiting
    cases parsed
    obtain rfl := List.mem_singleton.mp (List.mem_of_getElem? listed)
    exact fit _ _ _ rfl rfl
  | 1 =>
    cases waiting
    cases parsed
    obtain rfl := List.mem_singleton.mp (List.mem_of_getElem? listed)
    exact fit _ _ _ rfl rfl
  | n+2 => simp [stopped] at waiting

theorem run_keeps_failsOnce :
    Keeps failsOnce {body := some {redelivoryDelays := some [some "5s"],taskList := [{}]}}
      {redelivoryDelays := some [some "5s"],taskList := [{}]} [5] :=
  run_keeps rfl rfl (.cons ⟨_,rfl,fiveSeconds⟩ .nil) failsOnce_fit

theorem listed_status_repeats :
    let job : ServiceJob :=
      {redelivoryDelays := some [some "5s"],taskList := [{successStatus := some "1"}]}
    job.failedTimes = 0 ∧ job.Configured [5] ∧
      ¬ Keeps (fun _ _ => ⟨"",true,.answered 1 none none none,"",0⟩) {body := some job} job [5] := by
  refine ⟨rfl,.cons ⟨_,rfl,fiveSeconds⟩ .nil,fun keeps => ?_⟩
  refine keeps.once 0 1 0 (by decide) ⟨?_,_,rfl,1,?_,?_⟩ ?_
  · decide +kernel
  · decide +kernel
  · decide +kernel
  · decide +kernel

end YzFramework.Job.Redelivery
