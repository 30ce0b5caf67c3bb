import YzFramework.Job.ExecuteTask

/-! `ServiceTaskExecutor`: one reserved job of a worker. The calls to the queues
answer as they like; a call that throws has had no effect. -/
namespace YzFramework.Job.ServiceTaskExecutor
open ExecuteTask (Return answer Ends Succeeds AllSucceeded forall_places_cons forall_before_cons)

/-- A boolean call; for `produce`, `no` is a null message id. -/
inductive Answer
  | yes
  | no
  | throws
deriving DecidableEq

/-- The worker's producer, if there is one, and the consumer's calls: `bury`,
`delete` in the try block and `delete` in its handler. -/
structure Queues where
  produce : Option Answer
  bury : Answer
  delete : Answer
  deleteCaught : Answer
  delaySeconds : ℤ := 0

structure Place where
  source : Bool := true
  buried : Bool := false
  next : Option JobMessage := none

/-- The try block and its handler; an `Error` passes both. -/
def call (invocation : Invocation) (task : ServiceTask) : Except Throwable Return :=
  let exception : Return := {status := -1,message := some ("调用服务发生系统异常:"++invocation.detail)}
  if invocation.configured then
    match task.data with
    | none => .ok exception
    | some _ =>
      match invocation.reply with
      | .answered status message data _ => .ok ⟨status,message,data⟩
      | .rejected _ | .failed => .ok exception
      | .broken => .error .error
  else .ok {status := -1,message := some ("没有为"++task.serviceName.getD "null"++"配置服务地址")}

/-- The arguments of the log entry and the logger, in the finally block. `logs`
says that `bizLogger` is there and takes the entry: `ServiceInvokeWorker` makes
its executors with `new`, which leaves the field null. -/
def logInvoke (logs : Bool) (task : ServiceTask) : Except Throwable Unit := do
  let _ ← task.getApi
  let _ ← task.getMessage
  let _ ← task.getFrom
  let _ ← task.getSign
  if logs then .ok () else .error .nullPointer

/-- The status is set, the success mark is not. -/
def executeTask (invocation : Invocation) (logs : Bool) (task : ServiceTask) :
    Except Throwable ServiceTask :=
  match call invocation task with
  | .error thrown => do logInvoke logs task; .error thrown
  | .ok returned =>
    let task := {task with
      returnData := returned.data
      returnMessage := returned.message
      returnStatus := returned.status}
    do logInvoke logs task; .ok task

/-- Every task is executed, also one that came with success. -/
def executeTasks (invocations : ℕ → Invocation) (logs : ℕ → Bool) :
    ℕ → List ServiceTask → List ℕ × Except Throwable (List ServiceTask)
  | _,[] => ([],.ok [])
  | i,task::rest =>
    match executeTask (invocations i) (logs i) task with
    | .error thrown => ([i],.error thrown)
    | .ok task =>
      let (invoked,result) := executeTasks invocations logs (i+1) rest
      (i::invoked,result.map (task::·))

def caught (queues : Queues) (place : Place) : Place :=
  if queues.deleteCaught = .yes then {place with source := false} else place

def deleted (queues : Queues) (place : Place) : Place :=
  match queues.delete with
  | .yes => {place with source := false}
  | .no => place
  | .throws => caught queues place

/-- What comes of the call to the producer: its message is made first, and
`JSON.toJSONString` calls all getters of the job, also `getDelaySeconds`. -/
def produced (queues : Queues) (job : ServiceJob) : Option Answer :=
  queues.produce.map fun answer =>
    match job.getDelaySeconds with
    | .ok _ => answer
    | .error _ => .throws

def forward (queues : Queues) (message : JobMessage) (job : ServiceJob) : Place :=
  match produced queues job with
  | some .yes =>
    let newJob : JobMessage :=
      {body := some job,timeToRun := message.timeToRun,delaySeconds := queues.delaySeconds}
    deleted queues {next := some newJob}
  | some .no => {}
  | some .throws => caught queues {}
  | none =>
    match queues.bury with
    | .yes => {source := false,buried := true}
    | .no => {}
    | .throws => caught queues {}

theorem produced_taskList (queues : Queues) (job : ServiceJob) (tasks : List ServiceTask) :
    produced queues {job with taskList := tasks} = produced queues job := rfl

def removeSuccessTask (tasks : List ServiceTask) : List ServiceTask :=
  tasks.filter fun task => !task.success

def doWork (queues : Queues) (invocations : ℕ → Invocation) (logs : ℕ → Bool)
    (message : JobMessage) : List ℕ × Place :=
  match message.body with
  | none => ([],caught queues {})
  | some job =>
    match executeTasks invocations logs 0 job.taskList with
    | (invoked,.error _) => (invoked,caught queues {})
    | (invoked,.ok tasks) =>
      if (removeSuccessTask tasks).isEmpty then (invoked,deleted queues {})
      else
        (invoked,forward queues message {job with
          taskList := (removeSuccessTask tasks).map ServiceTask.increaseFailedTimes})

def Kept (place : Place) : Prop :=
  place.source = true ∨ place.buried = true ∨ place.next.isSome

instance (place : Place) : Decidable (Kept place) := inferInstanceAs (Decidable (_ ∨ _ ∨ _))

/-- With a producer the call on it returns, and the delays of the job can be read for its
message; without one the job can be buried. -/
def Forwards (queues : Queues) (job : ServiceJob) : Prop :=
  match queues.produce with
  | some answer => answer ≠ .throws ∧ ∃ delay, job.getDelaySeconds = .ok delay
  | none => queues.bury ≠ .throws

theorem logInvoke_ok (logs : Bool) (task : ServiceTask) :
    logInvoke logs task = .ok () ↔ task.data.isSome ∧ logs = true := by
  cases present : task.data <;> cases logs <;>
    simp [logInvoke,ServiceTask.getApi,ServiceTask.getMessage,ServiceTask.getFrom,
      ServiceTask.getSign,ServiceTask.part,present,bind,Except.bind]

theorem call_ok (invocation : Invocation) {task : ServiceTask} (present : task.data.isSome) :
    (∃ returned, call invocation task = .ok returned) ↔
      (invocation.configured → invocation.reply ≠ .broken) := by
  obtain ⟨data,eq⟩ := Option.isSome_iff_exists.mp present
  cases configured : invocation.configured <;> cases replied : invocation.reply <;>
    simp [call,eq,configured,replied]

theorem executeTask_spec (invocation : Invocation) (logs : Bool) (task : ServiceTask) :
    ((Ends task invocation ∧ logs = true) ∧ ∃ after,
      executeTask invocation logs task = .ok after ∧ after.success = task.success) ∨
    (¬ (Ends task invocation ∧ logs = true) ∧
      ∃ thrown, executeTask invocation logs task = .error thrown) := by
  cases logged : logInvoke logs task with
  | error thrown =>
    refine .inr ⟨fun both => ?_,thrown,?_⟩
    · rw [(logInvoke_ok _ task).mpr ⟨both.1.1,both.2⟩] at logged
      cases logged
    · unfold executeTask
      split
      · rw [logged]; rfl
      · exact congrArg (· >>= fun _ => Except.ok _) logged
  | ok _ =>
    obtain ⟨present,logs⟩ := (logInvoke_ok _ task).mp logged
    have fine := call_ok invocation present
    cases called : call invocation task with
    | error thrown =>
      refine .inr ⟨fun ends => ?_,thrown,?_⟩
      · obtain ⟨_,eq⟩ := fine.mpr ends.1.2
        rw [called] at eq
        cases eq
      · simp [executeTask,called,logged,bind,Except.bind]
    | ok returned =>
      refine .inl ⟨⟨⟨present,fine.mp ⟨_,called⟩⟩,logs⟩,{task with
        returnData := returned.data
        returnMessage := returned.message
        returnStatus := returned.status},?_,rfl⟩
      simp only [executeTask,called]
      exact congrArg (· >>= fun _ => Except.ok _) logged

theorem executeTasks_spec (invocations : ℕ → Invocation) (logs : ℕ → Bool) (start : ℕ)
    (tasks : List ServiceTask) :
    ((∀ i task, tasks[i]? = some task →
        Ends task (invocations (start+i)) ∧ logs (start+i) = true) ∧
      ∃ after, (executeTasks invocations logs start tasks).2 = .ok after ∧
        after.map ServiceTask.success = tasks.map ServiceTask.success) ∨
    (¬ (∀ i task, tasks[i]? = some task →
        Ends task (invocations (start+i)) ∧ logs (start+i) = true) ∧
      ∃ thrown, (executeTasks invocations logs start tasks).2 = .error thrown) := by
  induction tasks generalizing start with
  | nil => exact .inl ⟨by simp,[],rfl,rfl⟩
  | cons task rest ih =>
    rw [forall_places_cons fun place other => Ends other (invocations place) ∧ logs place = true]
    simp only [executeTasks]
    rcases executeTask_spec (invocations start) (logs start) task with
      ⟨here,task',returned,same⟩ | ⟨stuck,thrown,failed⟩
    · rw [returned]
      dsimp only
      rcases ih (start+1) with ⟨ends,after,ended,marks⟩ | ⟨stuck,thrown,failed⟩
      · exact .inl ⟨⟨here,ends⟩,task'::after,by rw [ended]; rfl,by simp [same,marks]⟩
      · exact .inr ⟨fun both => stuck both.2,thrown,by rw [failed]; rfl⟩
    · rw [failed]
      exact .inr ⟨fun both => stuck both.1,thrown,rfl⟩

theorem executeTasks_invoked (invocations : ℕ → Invocation) (logs : ℕ → Bool) (start i : ℕ)
    (tasks : List ServiceTask) : start+i ∈ (executeTasks invocations logs start tasks).1 ↔
      i < tasks.length ∧ ∀ j < i, ∀ task, tasks[j]? = some task →
        Ends task (invocations (start+j)) ∧ logs (start+j) = true := by
  induction tasks generalizing start i with
  | nil => simp [executeTasks]
  | cons task rest ih =>
    cases i with
    | zero =>
      refine iff_of_true ?_ ⟨Nat.succ_pos _,fun j earlier => absurd earlier (Nat.not_lt_zero j)⟩
      simp only [executeTasks]
      split
      · exact List.mem_singleton_self _
      · exact List.mem_cons_self
    | succ i =>
      rw [forall_before_cons fun place other => Ends other (invocations place) ∧ logs place = true]
      simp only [executeTasks]
      rcases executeTask_spec (invocations start) (logs start) task with
        ⟨here,task',returned,_⟩ | ⟨stuck,thrown,failed⟩
      · rw [returned]
        dsimp only
        rw [List.mem_cons,show start+(i+1) = start+1+i by omega,or_iff_right (by omega),ih,
          and_iff_right here,List.length_cons,Nat.succ_lt_succ_iff]
      · rw [failed]
        exact iff_of_false (by simp) fun reached => stuck reached.2.1

theorem doWork_invoked (queues : Queues) (invocations : ℕ → Invocation) (logs : ℕ → Bool)
    {message : JobMessage} {job : ServiceJob} (parsed : message.body = some job) :
    (doWork queues invocations logs message).1 =
      (executeTasks invocations logs 0 job.taskList).1 := by
  unfold doWork
  rw [parsed]
  dsimp only
  generalize executeTasks invocations logs 0 job.taskList = result
  obtain ⟨invoked,thrown | tasks⟩ := result
  · rfl
  · dsimp only
    split <;> rfl

/-- All tasks have succeeded exactly when those without success are reached and their
services answer so. -/
theorem doWork_allSucceeded_iff (queues : Queues) (invocations : ℕ → Invocation) (logs : ℕ → Bool)
    (message : JobMessage) :
    AllSucceeded message invocations (doWork queues invocations logs message).1 ↔
      ∃ job, message.body = some job ∧ ∀ i task, job.taskList[i]? = some task →
        task.success = true ∨ Succeeds task (invocations i) ∧
          ∀ j < i, ∀ task, job.taskList[j]? = some task →
            Ends task (invocations j) ∧ logs j = true := by
  unfold AllSucceeded
  apply exists_congr
  intro job
  apply and_congr_right
  intro parsed
  rw [doWork_invoked queues invocations logs parsed]
  apply forall_congr'
  intro i
  apply forall_congr'
  intro task
  apply forall_congr'
  intro found
  have invoked := executeTasks_invoked invocations logs 0 i job.taskList
  simp only [Nat.zero_add,(List.getElem?_eq_some_iff.mp found).1,true_and] at invoked
  rw [invoked,and_comm]

theorem caught_kept_iff (queues : Queues) :
    Kept (caught queues {}) ↔ queues.deleteCaught ≠ .yes := by
  by_cases refused : queues.deleteCaught = .yes <;> simp [Kept,caught,refused]

/-- The marks are those the job came with, so nothing is left only if all were set. -/
theorem success_of_removed {job : ServiceJob} {after : List ServiceTask}
    (same : after.map ServiceTask.success = job.taskList.map ServiceTask.success)
    (removed : (removeSuccessTask after).isEmpty = true) (i : ℕ) (task : ServiceTask)
    (found : job.taskList[i]? = some task) : task.success = true := by
  have marked : (after.map ServiceTask.success)[i]? = some task.success := by
    rw [same,List.getElem?_map,found]
    rfl
  rw [List.getElem?_map,Option.map_eq_some_iff] at marked
  obtain ⟨task',there,eq⟩ := marked
  have all : ∀ task ∈ after, task.success = true := by
    simpa [removeSuccessTask,List.filter_eq_nil_iff] using removed
  rw [← eq]
  exact all task' (List.mem_of_getElem? there)

theorem forward_kept_iff (queues : Queues) (message : JobMessage) (job : ServiceJob) :
    Kept (forward queues message job) ↔ queues.deleteCaught ≠ .yes ∨ Forwards queues job := by
  unfold forward Forwards produced
  cases produce : queues.produce with
  | none =>
    cases buried : queues.bury <;> by_cases refused : queues.deleteCaught = .yes <;>
      simp [Kept,caught,refused]
  | some answer =>
    cases read : job.getDelaySeconds with
    | error thrown => simp [caught_kept_iff]
    | ok delay =>
      cases answer <;> cases deletes : queues.delete <;>
        by_cases refused : queues.deleteCaught = .yes <;>
        simp [Kept,deleted,deletes,caught,refused]

/-- The job is not lost exactly when all its tasks have succeeded, the handler
does not delete it, or nothing is thrown up to the forwarding of what is left. -/
theorem doWork_kept_iff (queues : Queues) (invocations : ℕ → Invocation) (logs : ℕ → Bool)
    (message : JobMessage) :
    AllSucceeded message invocations (doWork queues invocations logs message).1 ∨
        Kept (doWork queues invocations logs message).2 ↔
      AllSucceeded message invocations (doWork queues invocations logs message).1 ∨
        queues.deleteCaught ≠ .yes ∨ ∃ job, message.body = some job ∧
          (∀ i task, job.taskList[i]? = some task → Ends task (invocations i) ∧ logs i = true) ∧
          Forwards queues job := by
  cases parsed : message.body with
  | none => simp [doWork,parsed,caught_kept_iff]
  | some job =>
    rcases executeTasks_spec invocations logs 0 job.taskList with
      ⟨ends,after,ended,marks⟩ | ⟨stuck,thrown,failed⟩
    · simp only [Nat.zero_add] at ends
      have returned : executeTasks invocations logs 0 job.taskList =
          ((executeTasks invocations logs 0 job.taskList).1,.ok after) := by rw [← ended]
      unfold doWork
      rw [parsed]
      dsimp only
      rw [returned]
      dsimp only
      split
      next removed =>
        have all := success_of_removed marks removed
        exact iff_of_true (.inl ⟨job,parsed,fun i task found => .inl (all i task found)⟩)
          (.inl ⟨job,parsed,fun i task found => .inl (all i task found)⟩)
      next =>
        rw [forward_kept_iff]
        simp only [Option.some.injEq,exists_eq_left',and_iff_right ends]
        rfl
    · simp only [Nat.zero_add] at stuck
      have returned : executeTasks invocations logs 0 job.taskList =
          ((executeTasks invocations logs 0 job.taskList).1,.error thrown) := by rw [← failed]
      unfold doWork
      rw [parsed]
      dsimp only
      rw [returned]
      simp [caught_kept_iff,stuck]

end YzFramework.Job.ServiceTaskExecutor
