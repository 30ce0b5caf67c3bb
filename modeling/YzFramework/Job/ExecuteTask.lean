import YzFramework.Job.ServiceJob

/-! `ExecuteTask`: one delivery of a job from the retry queue.
A message's body is what `JSON.parseObject` makes of it; logging does not throw. -/
namespace YzFramework.Job
open Library.Store

/-- The body is none where parsing throws or there is no list of tasks. -/
structure JobMessage where
  messageId : String := ""
  body : Option ServiceJob
  delaySeconds : ℤ := 0
  timeToRun : ℤ := 0

/-- How the posted request ends; `failed` is any exception, `broken` an `Error`. -/
inductive Reply
  | answered (status : ℤ) (message data response : Option String)
  | rejected (reasonPhrase : Option String)
  | failed
  | broken
deriving DecidableEq

/-- The surroundings of one `executeTask`: the clock, whether the service has an
address, the reply, the text of an exception, the hash of the status array. -/
structure Invocation where
  requestTime : String := ""
  configured : Bool := true
  reply : Reply
  detail : String := ""
  identityHash : ℕ := 0

namespace ExecuteTask

structure Return where
  status : ℤ := 0
  message : Option String := none
  data : Option String := none

/-- The try block: the task, the local variables and an `Error` on its way out. -/
def call (invocation : Invocation) (task : ServiceTask) : ServiceTask × Return × Option Throwable :=
  let exception : Return := ⟨-1,some ("调用服务发生系统异常:"++invocation.detail),some ""⟩
  if invocation.configured then
    match task.data with
    | none => (task,exception,none)
    | some data =>
      let task := {task with data := some (put data "from" "service-consumer")}
      match invocation.reply with
      | .answered status message data response =>
        (task,⟨status,message,if ServiceTask.isNullOrEmpty data then response else data⟩,none)
      | .rejected reasonPhrase => (task,⟨-1,reasonPhrase,some ""⟩,none)
      | .failed => (task,exception,none)
      | .broken => (task,{},some .error)
  else
    (task,⟨-1,some ("没有为"++task.serviceName.getD "null"++"配置服务地址"),some ""⟩,none)

/-- The finally block up to the log entry. -/
def conclude (invocation : Invocation) (returned : Return) (task : ServiceTask) : ServiceTask :=
  ServiceTask.updateReturnStatus invocation.identityHash returned.status
    {task with
      returnData := returned.data
      returnMessage := returned.message}

/-- The getters of the log entry run in the finally block, outside its handler. -/
def executeTask (invocation : Invocation) (task : ServiceTask) : Except Throwable ServiceTask :=
  let (task,returned,thrown) := call invocation {task with lastInvokeTime := some invocation.requestTime}
  let task := conclude invocation returned task
  do
    let _ ← task.getApi
    let _ ← task.getMessage
    let _ ← task.getFrom
    let _ ← task.getSign
    match thrown with
    | some escaping => .error escaping
    | none => .ok task

def executeTasks (invocations : ℕ → Invocation) :
    ℕ → List ServiceTask → List ℕ × Except Throwable (List ServiceTask)
  | _,[] => ([],.ok [])
  | i,task::rest =>
    if task.success then
      let (invoked,result) := executeTasks invocations (i+1) rest
      (invoked,result.map (task::·))
    else
      match executeTask (invocations i) task with
      | .error thrown => ([i],.error thrown)
      | .ok task =>
        let (invoked,result) := executeTasks invocations (i+1) rest
        (i::invoked,result.map (task::·))

inductive Queue
  | retry
  | failed
deriving DecidableEq

structure Delivery where
  invoked : List ℕ := []
  sent : List (Queue × JobMessage) := []

def failedJob (job : ServiceJob) (tasks : List ServiceTask) : ServiceJob :=
  ServiceJob.increaseFailedTimes {job with
    taskList := tasks.map fun task => if task.success then task else task.increaseFailedTimes}

/-- `doWork`, where `produce` throws on the queues it does not accept. Whatever is
thrown is logged, and the listener returns. -/
def doWork (invocations : ℕ → Invocation) (produces : Queue → Bool) (message : JobMessage) :
    Delivery :=
  match message.body with
  | none => {}
  | some job =>
    match executeTasks invocations 0 job.taskList with
    | (invoked,.error _) => {invoked := invoked}
    | (invoked,.ok tasks) =>
      if tasks.all (·.success) then {invoked := invoked}
      else
        let job := failedJob job tasks
        match job.getDelaySeconds with
        | .error _ => {invoked := invoked}
        | .ok delay =>
          let queue := if 0 < delay then Queue.retry else Queue.failed
          let message := {message with
            body := some job
            delaySeconds := if 0 < delay then delay else 0}
          {invoked := invoked,sent := if produces queue then [(queue,message)] else []}

def answer (task : ServiceTask) (invocation : Invocation) : Option ℤ :=
  if task.data.isSome && invocation.configured then
    match invocation.reply with
    | .answered status _ _ _ => some status
    | _ => none
  else none

def Succeeds (task : ServiceTask) (invocation : Invocation) : Prop :=
  ∃ status ∈ answer task invocation, ServiceTask.Accepts task.successStatus status

def AllSucceeded (message : JobMessage) (invocations : ℕ → Invocation) (invoked : List ℕ) : Prop :=
  ∃ job, message.body = some job ∧ ∀ i task, job.taskList[i]? = some task →
    task.success = true ∨ i ∈ invoked ∧ Succeeds task (invocations i)

/-- Nothing leaves the execution: the task has data and no `Error` is thrown. -/
def Ends (task : ServiceTask) (invocation : Invocation) : Prop :=
  task.data.isSome ∧ (invocation.configured → invocation.reply ≠ .broken)

/-- The verdict of `updateReturnStatus` on an execution that ends. -/
def Marked (task : ServiceTask) (invocation : Invocation) : Prop :=
  if ServiceTask.isNullOrEmpty task.successStatus then
    (answer task invocation).getD (-1) = 0 ∨ (answer task invocation).getD (-1) = 10000
  else ∃ listed, task.successStatus = some listed ∧
    arrayText invocation.identityHash ∈ ServiceTask.split listed

/-- The execution ends, and a configured list of statuses does not make its
verdict differ from the answer. -/
def Fit (task : ServiceTask) (invocation : Invocation) : Prop :=
  Ends task invocation ∧
    ∀ listed, task.successStatus = some listed → Library.Text.blank listed = false →
      (arrayText invocation.identityHash ∈ ServiceTask.split listed ↔ Succeeds task invocation)

structure Executed (invocation : Invocation) (task after : ServiceTask) : Prop where
  data : after.data.isSome = task.data.isSome
  successStatus : after.successStatus = task.successStatus
  success : after.success = true ↔ task.success = true ∨ Succeeds task invocation

theorem call_data (invocation : Invocation) (task : ServiceTask) :
    (call invocation task).1.data.isSome = task.data.isSome := by
  unfold call
  split
  · split
    next absent => rfl
    next data present => split <;> simp [present]
  · rfl

theorem call_successStatus (invocation : Invocation) (task : ServiceTask) :
    (call invocation task).1.successStatus = task.successStatus := by
  unfold call
  split
  · split
    · rfl
    · split <;> rfl
  · rfl

theorem call_thrown {invocation : Invocation} {task : ServiceTask} (present : task.data.isSome) :
    (call invocation task).2.2 = none ↔ (invocation.configured → invocation.reply ≠ .broken) := by
  obtain ⟨data,eq⟩ := Option.isSome_iff_exists.mp present
  cases configured : invocation.configured <;> cases replied : invocation.reply <;>
    simp [call,eq,configured,replied]

theorem call_status {invocation : Invocation} {task : ServiceTask}
    (kept : (call invocation task).2.2 = none) :
    (call invocation task).2.1.status = (answer task invocation).getD (-1) := by
  cases configured : invocation.configured <;> cases present : task.data <;>
    cases replied : invocation.reply <;> simp_all [call,answer]

theorem executeTask_eq (invocation : Invocation) (task : ServiceTask) :
    executeTask invocation task =
      if task.data.isSome then
        let (after,returned,thrown) :=
          call invocation {task with lastInvokeTime := some invocation.requestTime}
        match thrown with
        | some escaping => .error escaping
        | none => .ok (conclude invocation returned after)
      else .error .nullPointer := by
  have same := call_data invocation {task with lastInvokeTime := some invocation.requestTime}
  unfold executeTask
  generalize call invocation {task with lastInvokeTime := some invocation.requestTime} = called at same
  obtain ⟨after,returned,thrown⟩ := called
  have kept : (conclude invocation returned after).data = after.data := rfl
  dsimp only at same ⊢
  cases present : task.data.isSome with
  | true =>
    rw [present] at same
    obtain ⟨data,eq⟩ := Option.isSome_iff_exists.mp same
    simp [ServiceTask.getApi,ServiceTask.getMessage,ServiceTask.getFrom,ServiceTask.getSign,
      ServiceTask.part,kept,eq,bind,Except.bind]
  | false =>
    have eq : after.data = none := by simpa [present] using same
    simp [ServiceTask.getApi,ServiceTask.part,kept,eq,bind,Except.bind]

theorem executeTask_spec (invocation : Invocation) (task : ServiceTask) :
    (Ends task invocation ∧ ∃ after, executeTask invocation task = .ok after ∧
      after.data.isSome = task.data.isSome ∧ after.successStatus = task.successStatus ∧
      (after.success = true ↔ Marked task invocation)) ∨
    (¬ Ends task invocation ∧ ∃ thrown, executeTask invocation task = .error thrown) := by
  rw [executeTask_eq]
  cases present : task.data.isSome with
  | false => exact .inr ⟨fun ends => absurd ends.1 (by simp [present]),_,rfl⟩
  | true =>
    have thrown := @call_thrown invocation {task with lastInvokeTime := some invocation.requestTime} present
    have status := @call_status invocation {task with lastInvokeTime := some invocation.requestTime}
    have data := call_data invocation {task with lastInvokeTime := some invocation.requestTime}
    have same := call_successStatus invocation {task with lastInvokeTime := some invocation.requestTime}
    generalize call invocation {task with lastInvokeTime := some invocation.requestTime} = called at *
    obtain ⟨after,returned,escaping⟩ := called
    dsimp only at *
    cases escaping with
    | some escaping => exact .inr ⟨fun ends => absurd (thrown.mpr ends.2) (by simp),escaping,rfl⟩
    | none =>
      refine .inl ⟨⟨present,thrown.mp rfl⟩,_,rfl,data.trans present,same,?_⟩
      have code : returned.status = (answer task invocation).getD (-1) := status rfl
      simp only [conclude,ServiceTask.updateReturnStatus,same,code,Marked]
      split
      · simp
      · cases task.successStatus <;> simp

theorem marked_unlisted {invocation : Invocation} {task : ServiceTask}
    (unlisted : ServiceTask.isNullOrEmpty task.successStatus = true) :
    Marked task invocation ↔ Succeeds task invocation := by
  cases answered : answer task invocation <;>
    simp [Marked,Succeeds,answered,ServiceTask.Accepts,unlisted]

theorem fit_iff (invocation : Invocation) (task : ServiceTask) : Fit task invocation ↔
    ∃ after, executeTask invocation task = .ok after ∧
      (after.success = true ↔ Succeeds task invocation) := by
  have judged : (∀ listed, task.successStatus = some listed → Library.Text.blank listed = false →
        (arrayText invocation.identityHash ∈ ServiceTask.split listed ↔ Succeeds task invocation)) ↔
      (Marked task invocation ↔ Succeeds task invocation) := by
    by_cases unlisted : ServiceTask.isNullOrEmpty task.successStatus = true
    · refine iff_of_true (fun listed configured written => ?_) (marked_unlisted unlisted)
      simp [configured,ServiceTask.isNullOrEmpty,written] at unlisted
    · cases configured : task.successStatus with
      | none => simp [configured,ServiceTask.isNullOrEmpty] at unlisted
      | some listed =>
        have written : Library.Text.blank listed = false := by
          simpa [configured,ServiceTask.isNullOrEmpty] using unlisted
        simp [Marked,configured,ServiceTask.isNullOrEmpty,written]
  rw [Fit,judged]
  rcases executeTask_spec invocation task with ⟨ends,after,ended,_,_,verdict⟩ | ⟨stuck,_,failed⟩
  · simp [ends,ended,verdict]
  · simp [stuck,failed]

private theorem executed_of_fit {invocation : Invocation} {task : ServiceTask}
    (unfinished : task.success = false)
    (fit : Fit task invocation) :
    ∃ after, executeTask invocation task = .ok after ∧ Executed invocation task after := by
  obtain ⟨after,ended,verdict⟩ := (fit_iff invocation task).mp fit
  rcases executeTask_spec invocation task with ⟨_,other,same,data,status,_⟩ | ⟨_,_,failed⟩
  · rw [ended] at same
    cases same
    exact ⟨after,ended,data,status,by simp [unfinished,verdict]⟩
  · simp [ended] at failed

def AllFit (invocations : ℕ → Invocation) (start : ℕ) (tasks : List ServiceTask) : Prop :=
  ∀ i task, tasks[i]? = some task → task.success = false → Fit task (invocations (start+i))

def AllExecuted (invocations : ℕ → Invocation) (start : ℕ) (tasks after : List ServiceTask) : Prop :=
  after.length = tasks.length ∧ ∀ i task, tasks[i]? = some task →
    ∃ task', after[i]? = some task' ∧ Executed (invocations (start+i)) task task'

theorem forall_places_cons (demand : ℕ → ServiceTask → Prop) {start : ℕ} {task : ServiceTask}
    {rest : List ServiceTask} :
    (∀ i other, (task::rest)[i]? = some other → demand (start+i) other) ↔
      demand start task ∧ ∀ i other, rest[i]? = some other → demand (start+1+i) other := by
  constructor
  · intro each
    refine ⟨each 0 task rfl,fun i other found => ?_⟩
    rw [show start+1+i = start+(i+1) by omega]
    exact each (i+1) other (by simpa using found)
  · intro both i other found
    obtain ⟨here,later⟩ := both
    cases i with
    | zero =>
      cases found
      exact here
    | succ i =>
      rw [show start+(i+1) = start+1+i by omega]
      exact later i other (by simpa using found)

theorem forall_before_cons (demand : ℕ → ServiceTask → Prop) {start i : ℕ} {task : ServiceTask}
    {rest : List ServiceTask} :
    (∀ k < i+1, ∀ other, (task::rest)[k]? = some other → demand (start+k) other) ↔
      demand start task ∧ ∀ k < i, ∀ other, rest[k]? = some other → demand (start+1+k) other := by
  constructor
  · intro each
    refine ⟨each 0 (Nat.succ_pos i) task rfl,fun k before other found => ?_⟩
    rw [show start+1+k = start+(k+1) by omega]
    exact each (k+1) (Nat.succ_lt_succ before) other (by simpa using found)
  · intro both k before other found
    obtain ⟨here,later⟩ := both
    cases k with
    | zero =>
      cases found
      exact here
    | succ k =>
      rw [show start+(k+1) = start+1+k by omega]
      exact later k (Nat.lt_of_succ_lt_succ before) other (by simpa using found)

theorem AllExecuted.cons {invocations : ℕ → Invocation} {start : ℕ} {task task' : ServiceTask}
    {rest after : List ServiceTask} (first : Executed (invocations start) task task')
    (others : AllExecuted invocations (start+1) rest after) :
    AllExecuted invocations start (task::rest) (task'::after) := by
  refine ⟨by simp [others.1],fun i other found => ?_⟩
  cases i with
  | zero =>
    obtain rfl : task = other := by simpa using found
    exact ⟨task',by simp,first⟩
  | succ i =>
    rw [List.getElem?_cons_succ,show start+(i+1) = start+1+i by omega] at *
    exact others.2 i other found

theorem executeTasks_invoked (invocations : ℕ → Invocation) (start : ℕ) (tasks : List ServiceTask)
    {place : ℕ} (invoked : place ∈ (executeTasks invocations start tasks).1) :
    ∃ i task, place = start+i ∧ tasks[i]? = some task ∧ task.success = false := by
  induction tasks generalizing start with
  | nil => simp [executeTasks] at invoked
  | cons task rest ih =>
    have later : place ∈ (executeTasks invocations (start+1) rest).1 →
        ∃ i other, place = start+i ∧ (task::rest)[i]? = some other ∧ other.success = false := by
      intro inside
      obtain ⟨i,other,eq,found,unfinished⟩ := ih _ inside
      exact ⟨i+1,other,by omega,by simpa using found,unfinished⟩
    simp only [executeTasks] at invoked
    split at invoked
    next => exact later invoked
    next unfinished =>
      have here : place = start → ∃ i other, place = start+i ∧ (task::rest)[i]? = some other ∧
          other.success = false := fun eq => ⟨0,task,by omega,by simp,by simpa using unfinished⟩
      split at invoked
      · exact here (by simpa using invoked)
      · rcases List.mem_cons.mp invoked with eq | inside
        · exact here eq
        · exact later inside

theorem executeTasks_fit (invocations : ℕ → Invocation) (start : ℕ) (tasks : List ServiceTask)
    (fit : AllFit invocations start tasks) :
    ∃ after, (executeTasks invocations start tasks).2 = .ok after ∧
      AllExecuted invocations start tasks after := by
  induction tasks generalizing start with
  | nil => exact ⟨[],rfl,rfl,by simp⟩
  | cons task rest ih =>
    obtain ⟨here,later⟩ := (forall_places_cons fun place other =>
      other.success = false → Fit other (invocations place)).mp fit
    obtain ⟨after,ended,executed⟩ := ih (start+1) later
    cases success : task.success with
    | true =>
      simp only [executeTasks,success,if_true]
      exact ⟨task::after,by rw [ended]; rfl,.cons ⟨rfl,rfl,by simp [success]⟩ executed⟩
    | false =>
      obtain ⟨task',returned,first⟩ := executed_of_fit success (here success)
      simp only [executeTasks,success,Bool.false_eq_true,if_false,returned]
      exact ⟨task'::after,by rw [ended]; rfl,.cons first executed⟩

/-- As long as executions end, the loop gets to every task without success. -/
theorem executeTasks_reaches (invocations : ℕ → Invocation) (start : ℕ) (tasks : List ServiceTask)
    (ends : ∀ i task, tasks[i]? = some task → task.success = false →
      Ends task (invocations (start+i))) :
    ∀ i task, tasks[i]? = some task → task.success = false →
      start+i ∈ (executeTasks invocations start tasks).1 := by
  induction tasks generalizing start with
  | nil => simp
  | cons task rest ih =>
    obtain ⟨here,later⟩ := (forall_places_cons fun place other =>
      other.success = false → Ends other (invocations place)).mp ends
    have invoked := ih (start+1) later
    rw [forall_places_cons fun place other =>
      other.success = false → place ∈ (executeTasks invocations start (task::rest)).1]
    cases success : task.success with
    | true =>
      simp only [executeTasks,success,if_true]
      exact ⟨fun unfinished => (nomatch unfinished),invoked⟩
    | false =>
      rcases executeTask_spec (invocations start) task with ⟨_,task',returned,_⟩ | ⟨stuck,_⟩
      · simp only [executeTasks,success,Bool.false_eq_true,if_false,returned]
        refine ⟨fun _ => List.mem_cons_self,fun i other found unfinished => ?_⟩
        exact List.mem_cons_of_mem _ (invoked i other found unfinished)
      · exact absurd (here success) stuck

/-- Without regard to fitness: the loop ends when every execution does, and says
that all tasks succeeded when all are marked. -/
theorem executeTasks_spec (invocations : ℕ → Invocation) (start : ℕ) (tasks : List ServiceTask) :
    ((∀ i task, tasks[i]? = some task → task.success = false → Ends task (invocations (start+i))) ∧
      ∃ after, (executeTasks invocations start tasks).2 = .ok after ∧
        (after.all (·.success) = true ↔ ∀ i task, tasks[i]? = some task → task.success = false →
          Marked task (invocations (start+i)))) ∨
    (¬ (∀ i task, tasks[i]? = some task → task.success = false → Ends task (invocations (start+i))) ∧
      ∃ thrown, (executeTasks invocations start tasks).2 = .error thrown) := by
  induction tasks generalizing start with
  | nil => exact .inl ⟨by simp,[],rfl,by simp⟩
  | cons task rest ih =>
    rw [forall_places_cons fun place other => other.success = false → Ends other (invocations place),
      forall_places_cons fun place other => other.success = false → Marked other (invocations place)]
    cases success : task.success with
    | true =>
      simp only [executeTasks,success,if_true,Bool.true_eq_false,false_implies,true_and]
      rcases ih (start+1) with ⟨ends,after,ended,all⟩ | ⟨stuck,thrown,failed⟩
      · exact .inl ⟨ends,task::after,by rw [ended]; rfl,by simp [success,← all]⟩
      · exact .inr ⟨stuck,thrown,by rw [failed]; rfl⟩
    | false =>
      simp only [executeTasks,success,Bool.false_eq_true,if_false,true_implies]
      rcases executeTask_spec (invocations start) task with
        ⟨here,task',returned,_,_,verdict⟩ | ⟨stuck,thrown,failed⟩
      · rw [returned]
        dsimp only
        rcases ih (start+1) with ⟨ends,after,ended,all⟩ | ⟨stuck,thrown,failed⟩
        · exact .inl ⟨⟨here,ends⟩,task'::after,by rw [ended]; rfl,by
            rw [List.all_cons,Bool.and_eq_true,verdict,all]⟩
        · exact .inr ⟨fun both => stuck both.2,thrown,by rw [failed]; rfl⟩
      · rw [failed]
        exact .inr ⟨fun both => stuck both.1,thrown,rfl⟩

theorem doWork_invoked (invocations : ℕ → Invocation) (produces : Queue → Bool)
    {message : JobMessage} {job : ServiceJob} (parsed : message.body = some job) :
    (doWork invocations produces message).invoked =
      (executeTasks invocations 0 job.taskList).1 := by
  unfold doWork
  rw [parsed]
  dsimp only
  generalize executeTasks invocations 0 job.taskList = result
  obtain ⟨invoked,thrown | tasks⟩ := result
  · rfl
  · dsimp only
    split
    · rfl
    · split <;> rfl

theorem Succeeds.ends {task : ServiceTask} {invocation : Invocation}
    (succeeds : Succeeds task invocation) : Ends task invocation := by
  obtain ⟨status,answered,_⟩ := succeeds
  unfold answer at answered
  split at answered
  next reached =>
    rw [Bool.and_eq_true] at reached
    refine ⟨reached.1,fun _ broken => ?_⟩
    simp [broken] at answered
  next => cases answered

/-- Whether all tasks have succeeded depends only on the answers. -/
theorem doWork_allSucceeded_iff (invocations : ℕ → Invocation) (produces : Queue → Bool)
    (message : JobMessage) :
    AllSucceeded message invocations (doWork invocations produces message).invoked ↔
      ∃ job, message.body = some job ∧ ∀ i task, job.taskList[i]? = some task →
        task.success = true ∨ Succeeds task (invocations i) := by
  constructor
  · intro succeeded
    obtain ⟨job,parsed,all⟩ := succeeded
    exact ⟨job,parsed,fun i task found => (all i task found).imp_right And.right⟩
  · intro succeeded
    obtain ⟨job,parsed,all⟩ := succeeded
    refine ⟨job,parsed,fun i task found => ?_⟩
    cases success : task.success with
    | true => exact .inl rfl
    | false =>
      have succeeds : ∀ i task, job.taskList[i]? = some task → task.success = false →
          Succeeds task (invocations i) := fun i task found unfinished =>
        (all i task found).resolve_left (by simp [unfinished])
      have reached := executeTasks_reaches invocations 0 job.taskList
        (fun i task found unfinished => by
          rw [Nat.zero_add]
          exact (succeeds i task found unfinished).ends) i task found success
      rw [Nat.zero_add,← doWork_invoked invocations produces parsed] at reached
      exact .inr ⟨reached,succeeds i task found success⟩

theorem doWork_thrown {invocations : ℕ → Invocation} (produces : Queue → Bool) {message : JobMessage}
    {job : ServiceJob} {thrown : Throwable} (parsed : message.body = some job)
    (failed : (executeTasks invocations 0 job.taskList).2 = .error thrown) :
    (doWork invocations produces message).sent = [] := by
  unfold doWork
  rw [parsed]
  dsimp only
  generalize executeTasks invocations 0 job.taskList = result at failed
  obtain ⟨invoked,_⟩ := result
  subst failed
  rfl

theorem doWork_ended {invocations : ℕ → Invocation} (produces : Queue → Bool) {message : JobMessage}
    {job : ServiceJob} {tasks : List ServiceTask} (parsed : message.body = some job)
    (ended : (executeTasks invocations 0 job.taskList).2 = .ok tasks) :
    (doWork invocations produces message).sent =
      if tasks.all (·.success) then []
      else
        match (failedJob job tasks).getDelaySeconds with
        | .error _ => []
        | .ok delay =>
          if produces (if 0 < delay then .retry else .failed) then
            [(if 0 < delay then .retry else .failed,{message with
              body := some (failedJob job tasks)
              delaySeconds := if 0 < delay then delay else 0})]
          else [] := by
  unfold doWork
  rw [parsed]
  dsimp only
  generalize executeTasks invocations 0 job.taskList = result at ended
  obtain ⟨invoked,_⟩ := result
  subst ended
  dsimp only
  split
  · rfl
  · split <;> rfl

theorem doWork_sent {invocations : ℕ → Invocation} {message : JobMessage} {job : ServiceJob}
    {tasks : List ServiceTask} (parsed : message.body = some job)
    (ended : (executeTasks invocations 0 job.taskList).2 = .ok tasks) {delay : ℤ}
    (read : (failedJob job tasks).getDelaySeconds = .ok delay) :
    (doWork invocations (fun _ => true) message).sent =
      if tasks.all (·.success) then []
      else if 0 < delay then
        [(.retry,{message with
          body := some (failedJob job tasks)
          delaySeconds := delay})]
      else
        [(.failed,{message with
          body := some (failedJob job tasks)
          delaySeconds := 0})] := by
  rw [doWork_ended _ parsed ended,read]
  by_cases later : 0 < delay <;> simp [later]

end ExecuteTask
end YzFramework.Job
