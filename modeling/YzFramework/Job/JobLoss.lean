import YzFramework.Job.ServiceTaskExecutor

/-! Which failures lose a job, in both executors. The message that `ExecuteTask`
works on is acknowledged when its listener returns, so only what it puts is left. -/
namespace YzFramework.Job.JobLoss
open ExecuteTask

/-- The delivery gets to its `produce` call, and the call returns. -/
def Puts (invocations : ℕ → Invocation) (produces : Queue → Bool) (message : JobMessage) : Prop :=
  ∃ job, message.body = some job ∧
    (∀ i task, job.taskList[i]? = some task → task.success = false → Ends task (invocations i)) ∧
    (∃ i task, job.taskList[i]? = some task ∧ task.success = false ∧
      ¬ Marked task (invocations i)) ∧
    ∃ delay, job.increaseFailedTimes.getDelaySeconds = .ok delay ∧
      produces (if 0 < delay then .retry else .failed) = true

theorem sent_iff (invocations : ℕ → Invocation) (produces : Queue → Bool) (message : JobMessage) :
    (doWork invocations produces message).sent ≠ [] ↔ Puts invocations produces message := by
  unfold Puts
  cases parsed : message.body with
  | none => simp [doWork,parsed]
  | some job =>
    rcases executeTasks_spec invocations 0 job.taskList with
      ⟨ends,after,ended,all⟩ | ⟨stuck,thrown,failed⟩
    · simp only [Nat.zero_add] at ends all
      have delays : (failedJob job after).getDelaySeconds = job.increaseFailedTimes.getDelaySeconds := rfl
      rw [doWork_ended produces parsed ended,delays]
      simp only [Option.some.injEq,exists_eq_left',and_iff_right ends]
      by_cases marked : after.all (·.success) = true
      · rw [if_pos marked]
        apply iff_of_false (by simp)
        intro unsent
        obtain ⟨⟨i,task,found,unfinished,unmarked⟩,_⟩ := unsent
        exact unmarked (all.mp marked i task found unfinished)
      · have left : ∃ i task, job.taskList[i]? = some task ∧ task.success = false ∧
            ¬ Marked task (invocations i) := by
          simpa using mt all.mpr marked
        rw [if_neg marked,and_iff_right left]
        cases read : job.increaseFailedTimes.getDelaySeconds with
        | error thrown => simp
        | ok delay => by_cases later : 0 < delay <;> simp [later]
    · simp only [Nat.zero_add] at stuck
      rw [doWork_thrown produces parsed failed]
      simp [stuck]

/-- After `ExecuteTask.doWork` all tasks have succeeded or a queue has the job. -/
def Delivers (invocations : ℕ → Invocation) (produces : Queue → Bool) (message : JobMessage) : Prop :=
  AllSucceeded message invocations (doWork invocations produces message).invoked ∨
    (doWork invocations produces message).sent ≠ []

def Works (queues : ServiceTaskExecutor.Queues) (invocations : ℕ → Invocation) (logs : ℕ → Bool)
    (message : JobMessage) : Prop :=
  AllSucceeded message invocations (ServiceTaskExecutor.doWork queues invocations logs message).1 ∨
    ServiceTaskExecutor.Kept (ServiceTaskExecutor.doWork queues invocations logs message).2

/-- `ExecuteTask` loses no job exactly when all tasks succeed or it puts the job;
`ServiceTaskExecutor` exactly when all tasks are reached and succeed, its handler does
not delete the job, or nothing is thrown until what is left is forwarded or buried. -/
theorem kept_iff (message : JobMessage) (invocations : ℕ → Invocation) :
    (∀ produces, Delivers invocations produces message ↔
      (∃ job, message.body = some job ∧ ∀ i task, job.taskList[i]? = some task →
        task.success = true ∨ Succeeds task (invocations i)) ∨
      Puts invocations produces message) ∧
    ∀ queues logs, Works queues invocations logs message ↔
      (∃ job, message.body = some job ∧ ∀ i task, job.taskList[i]? = some task →
        task.success = true ∨ Succeeds task (invocations i) ∧
          ∀ j < i, ∀ task, job.taskList[j]? = some task →
            Ends task (invocations j) ∧ logs j = true) ∨
      queues.deleteCaught ≠ .yes ∨ ∃ job, message.body = some job ∧
        (∀ i task, job.taskList[i]? = some task → Ends task (invocations i) ∧ logs i = true) ∧
        ServiceTaskExecutor.Forwards queues job := by
  refine ⟨fun produces => ?_,fun queues logs => ?_⟩
  · rw [Delivers,sent_iff,doWork_allSucceeded_iff]
  · rw [Works,ServiceTaskExecutor.doWork_kept_iff,ServiceTaskExecutor.doWork_allSucceeded_iff]

/-- A message that cannot be parsed is lost by the one, a job with a failed task whose
`produce` call throws by the other, or one with an empty delay that is to be written again. -/
theorem unparsed_and_unsent_lost :
    ¬ Delivers (fun _ => {reply := .failed}) (fun _ => true) {body := none} ∧
    ¬ Works ⟨some .throws,.yes,.yes,.yes,0⟩ (fun _ => {reply := .failed}) (fun _ => true)
      {body := some {taskList := [{}]}} ∧
    ¬ Works ⟨some .yes,.yes,.yes,.yes,0⟩ (fun _ => {reply := .failed}) (fun _ => true)
      {body := some {failedTimes := 1,redelivoryDelays := some [some ""],taskList := [{}]}} := by
  refine ⟨fun delivered => ?_,fun works => ?_,fun works => ?_⟩
  · rcases delivered with ⟨job,parsed,_⟩ | sent
    · cases parsed
    · exact sent rfl
  · rcases works with ⟨job,parsed,all⟩ | kept
    · cases parsed
      rcases all 0 {} rfl with success | ⟨_,status,answered,_⟩
      · cases success
      · cases answered
    · exact absurd kept (by decide)
  · rcases works with ⟨job,parsed,all⟩ | kept
    · cases parsed
      rcases all 0 {} rfl with success | ⟨_,status,answered,_⟩
      · cases success
      · cases answered
    · exact absurd kept (by decide +kernel)

end YzFramework.Job.JobLoss
