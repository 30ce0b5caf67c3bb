import YzFramework.Job.WorkerChain
import YzFramework.Library.Run

/-! Sequential mode: in which order the two executors take the tasks of a job, over all
its deliveries. Neither reads `invokeMode`. -/
namespace YzFramework.Job.SequentialMode
open Library ExecuteTask
open WorkerChain (Worker Parcel Aligned Quiet carried forwarded)

def Came (message : JobMessage) (i : ℕ) : Prop :=
  ∃ task, (carried message)[i]? = some task ∧ task.success = true

def Unmarked (task : ServiceTask) : Prop := task.success = false

section Redelivered
variable (replies : ℕ → ℕ → Invocation) (produces : ℕ → Queue → Bool) (first : JobMessage)

def waiting : ℕ → Option JobMessage
  | 0 => some first
  | n+1 => (waiting n).bind fun message =>
    ((doWork (replies n) (produces n) message).sent.find? (·.1 == .retry)).map Prod.snd

def Taken (n i : ℕ) : Prop :=
  ∃ message, waiting replies produces first n = some message ∧
    i ∈ (doWork (replies n) (produces n) message).invoked

def Accepted (n i : ℕ) : Prop :=
  ∃ message task, waiting replies produces first n = some message ∧
    i ∈ (doWork (replies n) (produces n) message).invoked ∧
    (carried message)[i]? = some task ∧ Succeeds task (replies n i)

end Redelivered

section Reserved
variable (workers : ℕ → Worker) (again : ℕ → Bool) (first : JobMessage)

/-- The job of a delivery is the one forwarded before, or once more the last one, where
that was left or buried. -/
def reserved : ℕ → Option Parcel
  | 0 => some ⟨first,List.range (carried first).length⟩
  | n+1 => (reserved n).bind fun parcel =>
    let place := ((workers n).work parcel.message).2
    if again n && (place.source || place.buried) then some parcel
    else forwarded (workers n) parcel

def Invoked (n place : ℕ) : Prop :=
  ∃ parcel k, reserved workers again first n = some parcel ∧ parcel.places[k]? = some place ∧
    k ∈ ((workers n).work parcel.message).1

def Answered (n place : ℕ) : Prop :=
  ∃ parcel k task, reserved workers again first n = some parcel ∧
    parcel.places[k]? = some place ∧ k ∈ ((workers n).work parcel.message).1 ∧
    (carried parcel.message)[k]? = some task ∧ Succeeds task ((workers n).invocations k)

/-- Up to a delivery every one throws, and the handler leaves the job. -/
def Repeated (n : ℕ) : Prop :=
  ∀ m < n, again m = true ∧ (workers m).queues.deleteCaught ≠ .yes ∧
    ¬ Quiet (workers m) (carried first)

end Reserved

/-- A loop over tasks gets to one that it takes, as nothing is thrown before. -/
def Reaches (takes : ServiceTask → Prop) (ends : ℕ → ServiceTask → Prop) (tasks : List ServiceTask)
    (i : ℕ) : Prop :=
  (∃ task, tasks[i]? = some task ∧ takes task) ∧
    ∀ k < i, ∀ task, tasks[k]? = some task → takes task → ends k task

/-- Where a task has come without success and got none so far, the delivery reaches
none behind it. -/
def FailingLast (tasks : List ServiceTask) (reached : ℕ → ℕ → Prop) (replies : ℕ → ℕ → Invocation)
    (n : ℕ) : Prop :=
  ∀ j task, tasks[j]? = some task → task.success = false →
    (∀ m ≤ n, reached m j → ¬ Succeeds task (replies m j)) → ∀ i, j < i → ¬ reached n i

def reachedByTask (replies : ℕ → ℕ → Invocation) (first : JobMessage) (n : ℕ) : ℕ → Prop :=
  Reaches Unmarked (fun k task => Ends task (replies n k)) (carried first)

def reachedByWorker (workers : ℕ → Worker) (first : JobMessage) (n : ℕ) : ℕ → Prop :=
  Reaches (fun _ => True)
    (fun k task => Ends task ((workers n).invocations k) ∧ (workers n).logs k = true) (carried first)

theorem Reaches.inside {takes : ServiceTask → Prop} {ends : ℕ → ServiceTask → Prop}
    {tasks : List ServiceTask} {i : ℕ} (reaches : Reaches takes ends tasks i) : i < tasks.length := by
  obtain ⟨⟨task,found,_⟩,_⟩ := reaches
  exact (List.getElem?_eq_some_iff.mp found).1

private theorem inOrderAt_iff {first : JobMessage} {taken done : ℕ → ℕ → Prop} {n : ℕ}
    {reached : ℕ → ℕ → Prop} {replies : ℕ → ℕ → Invocation}
    (inside : ∀ i, reached n i → i < (carried first).length)
    (same : ∀ i, taken n i ↔ reached n i)
    (finished : ∀ m ≤ n, ∀ j, done m j ↔
      reached m j ∧ ∃ task, (carried first)[j]? = some task ∧ Succeeds task (replies m j)) :
    Rounds.InOrderAt (Came first) taken done n ↔ FailingLast (carried first) reached replies n := by
  constructor
  · intro order j task listed unmarked failing i later now
    rcases order i ((same i).mpr now) j later with ⟨other,found,came⟩ | ⟨m,inTime,succeeded⟩
    · rw [listed] at found
      cases found
      rw [unmarked] at came
      cases came
    · obtain ⟨there,other,found,succeeds⟩ := (finished m inTime j).mp succeeded
      rw [listed] at found
      cases found
      exact failing m inTime there succeeds
  · intro last i now j before
    have reached := (same i).mp now
    have listed := List.getElem?_eq_getElem (Nat.lt_trans before (inside i reached))
    by_contra none
    push Not at none
    obtain ⟨unmarked,undone⟩ := none
    refine last j _ listed ?_ (fun m inTime there succeeds => ?_) i before reached
    · exact Bool.eq_false_iff.mpr fun success => unmarked ⟨_,listed,success⟩
    · exact undone m inTime ((finished m inTime j).mpr ⟨there,_,listed,succeeds⟩)

/-- The loop comes to a task exactly if it has no success mark and none before it throws. -/
theorem mem_executeTasks (invocations : ℕ → Invocation) (start i : ℕ) (tasks : List ServiceTask) :
    start+i ∈ (executeTasks invocations start tasks).1 ↔
      (∃ task, tasks[i]? = some task ∧ task.success = false) ∧ ∀ k < i, ∀ task,
        tasks[k]? = some task → task.success = false → Ends task (invocations (start+k)) := by
  induction tasks generalizing start i with
  | nil => simp [executeTasks]
  | cons task rest ih =>
    cases i with
    | zero =>
      have later : start+0 ∉ (executeTasks invocations (start+1) rest).1 := by
        intro inside
        obtain ⟨k,_,same,_⟩ := executeTasks_invoked invocations (start+1) rest inside
        omega
      cases success : task.success with
      | true =>
        simp only [executeTasks,success,if_true]
        apply iff_of_false later
        rintro ⟨⟨other,found,unmarked⟩,_⟩
        cases found
        rw [success] at unmarked
        cases unmarked
      | false =>
        refine iff_of_true ?_ ⟨⟨task,rfl,success⟩,fun k before => absurd before (Nat.not_lt_zero k)⟩
        simp only [executeTasks,success,Bool.false_eq_true,if_false]
        split
        · exact List.mem_singleton_self _
        · exact List.mem_cons_self
    | succ i =>
      rw [forall_before_cons fun place other => other.success = false → Ends other (invocations place),
        List.getElem?_cons_succ,show start+(i+1) = start+1+i by omega]
      cases success : task.success with
      | true =>
        simp only [executeTasks,success,if_true]
        rw [ih]
        simp
      | false =>
        simp only [executeTasks,success,Bool.false_eq_true,if_false]
        rcases executeTask_spec (invocations start) task with ⟨ends,after,ended,_⟩ | ⟨stuck,_,failed⟩
        · rw [ended]
          dsimp only
          rw [List.mem_cons,or_iff_right (by omega),ih]
          simp [ends]
        · rw [failed]
          refine iff_of_false (fun inside => ?_) fun both => stuck (both.2.1 trivial)
          have same := List.mem_singleton.mp inside
          omega

theorem executeTasks_unmarked (invocations : ℕ → Invocation) (start : ℕ) {tasks after : List ServiceTask}
    (ended : (executeTasks invocations start tasks).2 = .ok after) {i : ℕ} {task' : ServiceTask}
    (found : after[i]? = some task') (unmarked : task'.success = false) :
    ∃ task, tasks[i]? = some task ∧ task.success = false := by
  induction tasks generalizing start after i with
  | nil =>
    cases ended
    cases found
  | cons task rest ih =>
    have later : ∀ {head : ServiceTask}, (task.success = true → head.success = true) →
        (executeTasks invocations (start+1) rest).2.map (head::·) = .ok after →
          ∃ task', (task::rest)[i]? = some task' ∧ task'.success = false := by
      intro head kept mapped
      cases others : (executeTasks invocations (start+1) rest).2 with
      | error thrown =>
        rw [others] at mapped
        cases mapped
      | ok done =>
        rw [others] at mapped
        cases mapped
        cases i with
        | zero =>
          cases found
          exact ⟨task,rfl,Bool.eq_false_iff.mpr fun success => by simp [kept success] at unmarked⟩
        | succ i => exact ih (start+1) others found
    cases success : task.success with
    | true =>
      simp only [executeTasks,success,if_true] at ended
      exact later (fun _ => success) ended
    | false =>
      simp only [executeTasks,success,Bool.false_eq_true,if_false] at ended
      cases returned : executeTask (invocations start) task with
      | error thrown =>
        rw [returned] at ended
        cases ended
      | ok head =>
        rw [returned] at ended
        exact later (fun marked => by simp [success] at marked) ended

section Redelivered
variable (replies : ℕ → ℕ → Invocation) (produces : ℕ → Queue → Bool) (first : JobMessage)

theorem doWork_reaches (n : ℕ) (accepts : Queue → Bool) (message : JobMessage) (i : ℕ) :
    i ∈ (doWork (replies n) accepts message).invoked ↔ reachedByTask replies message n i := by
  have member := mem_executeTasks (replies n) 0 i (carried message)
  simp only [Nat.zero_add] at member
  refine Iff.trans ?_ member
  cases parsed : message.body with
  | none => simp [doWork,parsed,carried,executeTasks]
  | some job => rw [doWork_invoked _ _ parsed,WorkerChain.carried_of_parsed parsed]

/-- A message is sent only when no execution throws, and its unmarked tasks were so. -/
theorem sent_unmarked {n : ℕ} {accepts : Queue → Bool} {message next : JobMessage} {queue : Queue}
    (sent : (queue,next) ∈ (doWork (replies n) accepts message).sent) :
    (∀ (i : ℕ) (task : ServiceTask), (carried message)[i]? = some task → task.success = false →
      Ends task (replies n i)) ∧
    ∀ (i : ℕ) (task' : ServiceTask), (carried next)[i]? = some task' → task'.success = false →
      ∃ task, (carried message)[i]? = some task ∧ task.success = false := by
  cases parsed : message.body with
  | none => simp [doWork,parsed] at sent
  | some job =>
    rw [WorkerChain.carried_of_parsed parsed]
    rcases executeTasks_spec (replies n) 0 job.taskList with ⟨ends,tasks,ended,_⟩ | ⟨_,thrown,failed⟩
    · simp only [Nat.zero_add] at ends
      rw [doWork_ended accepts parsed ended] at sent
      have content : next.body = some (failedJob job tasks) := by
        split at sent
        · cases sent
        · split at sent
          · cases sent
          · simp only [List.mem_ite_nil_right,List.mem_singleton,Prod.mk.injEq] at sent
            rw [sent.2.2]
      refine ⟨ends,fun i task' found fresh => ?_⟩
      rw [WorkerChain.carried_of_parsed content,failedJob] at found
      obtain ⟨task,executed,rfl⟩ := Option.map_eq_some_iff.mp (List.getElem?_map ▸ found)
      apply executeTasks_unmarked (replies n) 0 ended executed
      split at fresh <;> exact fresh
    · rw [doWork_thrown accepts parsed failed] at sent
      cases sent

theorem waiting_sent {n : ℕ} {next : JobMessage}
    (later : waiting replies produces first (n+1) = some next) :
    ∃ message queue, waiting replies produces first n = some message ∧
      (queue,next) ∈ (doWork (replies n) (produces n) message).sent := by
  obtain ⟨message,here,found⟩ := Option.bind_eq_some_iff.mp later
  obtain ⟨⟨queue,_⟩,sent,rfl⟩ := Option.map_eq_some_iff.mp found
  exact ⟨message,queue,here,List.mem_of_find?_eq_some sent⟩

private theorem unmarked_before {m n : ℕ} (ordered : m ≤ n) {i : ℕ} {message : JobMessage} {task : ServiceTask}
    (later : waiting replies produces first n = some message)
    (found : (carried message)[i]? = some task) (unmarked : task.success = false) :
    ∃ before task', waiting replies produces first m = some before ∧
      (carried before)[i]? = some task' ∧ task'.success = false := by
  induction n, ordered using Nat.le_induction generalizing message task with
  | base => exact ⟨message,task,later,found,unmarked⟩
  | succ n _ ih =>
    obtain ⟨last,queue,here,sent⟩ := waiting_sent replies produces first later
    obtain ⟨task',there,fresh⟩ := (sent_unmarked replies sent).2 i task found unmarked
    exact ih here there fresh

/-- The order is kept over all deliveries exactly if it is kept in the first: what a
whole delivery leaves for later ones it has taken itself. -/
theorem redelivered_iff :
    Rounds.InOrder (Came first) (Taken replies produces first) (Accepted replies produces first) ↔
      FailingLast (carried first) (reachedByTask replies first) replies 0 := by
  have whole : ∀ m n i, m ≤ n →
      (∀ message, waiting replies produces first m = some message → ∀ (k : ℕ) (task : ServiceTask),
        (carried message)[k]? = some task → task.success = false → Ends task (replies m k)) →
      Taken replies produces first n i → Taken replies produces first m i := by
    rintro m n i ordered ends ⟨message,later,invoked⟩
    obtain ⟨⟨task,found,unmarked⟩,_⟩ := (doWork_reaches replies n _ message i).mp invoked
    obtain ⟨before,task',here,listed,fresh⟩ :=
      unmarked_before replies produces first ordered later found unmarked
    refine ⟨before,here,(doWork_reaches replies m _ before i).mpr ⟨⟨task',listed,fresh⟩,?_⟩⟩
    exact fun k _ other there waits => ends before here k other there waits
  have start : Rounds.InOrderAt (Came first) (Taken replies produces first)
      (Accepted replies produces first) 0 ↔
        FailingLast (carried first) (reachedByTask replies first) replies 0 := by
    refine inOrderAt_iff (fun i reaches => reaches.inside) (fun i => ?_) fun m atStart j => ?_
    · rw [← doWork_reaches replies 0 (produces 0)]
      simp [Taken,waiting]
    · obtain rfl := Nat.le_zero.mp atStart
      rw [← doWork_reaches replies 0 (produces 0)]
      simp [Accepted,waiting]
  rw [Rounds.inOrder_iff _ _ _ whole,← start]
  refine ⟨fun each => each 0 (fun m before => absurd before (Nat.not_lt_zero m)),fun once n broken => ?_⟩
  cases n with
  | zero => exact once
  | succ n =>
    rintro i ⟨message,later,_⟩
    obtain ⟨before,queue,here,sent⟩ := waiting_sent replies produces first later
    refine absurd (fun other there => ?_) (broken n (Nat.lt_succ_self n))
    rw [here] at there
    cases there
    exact (sent_unmarked replies sent).1

end Redelivered

section Reserved
variable (workers : ℕ → Worker) (again : ℕ → Bool) (first : JobMessage)

theorem work_reaches (n : ℕ) (message : JobMessage) (i : ℕ) :
    i ∈ ((workers n).work message).1 ↔ reachedByWorker workers message n i := by
  cases parsed : message.body with
  | none => simp [Worker.work,ServiceTaskExecutor.doWork,parsed,reachedByWorker,Reaches,carried]
  | some job =>
    have member := ServiceTaskExecutor.executeTasks_invoked (workers n).invocations (workers n).logs 0 i
      job.taskList
    simp only [Nat.zero_add] at member
    rw [Worker.work,ServiceTaskExecutor.doWork_invoked _ _ _ parsed,member,reachedByWorker,Reaches,
      WorkerChain.carried_of_parsed parsed]
    simp [List.getElem?_eq_some_iff]

theorem reserved_handed : WorkerChain.Handed (reserved workers again first) := by
  intro n next later
  obtain ⟨before,here,sent⟩ := Option.bind_eq_some_iff.mp later
  dsimp only at sent
  split at sent
  · cases sent
    exact ⟨_,here,.inl rfl⟩
  · exact ⟨before,here,.inr ⟨workers n,sent⟩⟩

theorem caught_of_throw {worker : Worker} {message : JobMessage}
    (stuck : ¬ Quiet worker (carried message)) :
    (worker.work message).2 = ServiceTaskExecutor.caught worker.queues {} := by
  cases parsed : message.body with
  | none =>
    refine absurd (fun k task found => ?_) stuck
    simp [carried,parsed] at found
  | some job =>
    rw [WorkerChain.carried_of_parsed parsed] at stuck
    rcases WorkerChain.work_cases worker parsed with ⟨_,place⟩ | ⟨quiet,_⟩
    · exact place
    · exact absurd quiet stuck

def WholeAt (n : ℕ) : Prop :=
  ∀ parcel, reserved workers again first n = some parcel → Quiet (workers n) (carried parcel.message)

private theorem repeated_of_broken {n : ℕ} (broken : ∀ m < n, ¬ WholeAt workers again first m)
    {parcel : Parcel} (found : reserved workers again first n = some parcel) :
    Repeated workers again first n ∧ parcel = ⟨first,List.range (carried first).length⟩ := by
  induction n generalizing parcel with
  | zero =>
    cases found
    exact ⟨fun m before => absurd before (Nat.not_lt_zero m),rfl⟩
  | succ n ih =>
    obtain ⟨last,here,sent⟩ := Option.bind_eq_some_iff.mp found
    obtain ⟨repeated,rfl⟩ := ih (fun m before => broken m (Nat.lt_succ_of_lt before)) here
    have stuck : ¬ Quiet (workers n) (carried first) := by
      intro quiet
      apply broken n (Nat.lt_succ_self n)
      intro parcel there
      cases here.symm.trans there
      exact quiet
    dsimp only at sent
    rw [forwarded,caught_of_throw stuck,WorkerChain.caught_next] at sent
    split at sent
    next back =>
      cases sent
      refine ⟨fun m before => ?_,rfl⟩
      rcases Nat.lt_succ_iff_lt_or_eq.mp before with earlier | rfl
      · exact repeated m earlier
      · refine ⟨(Bool.and_eq_true _ _ ▸ back).1,fun deletes => ?_,stuck⟩
        simp [ServiceTaskExecutor.caught,deletes] at back
    next => cases sent

theorem reserved_of_repeated {n : ℕ} (repeated : Repeated workers again first n) :
    reserved workers again first n = some ⟨first,List.range (carried first).length⟩ := by
  induction n with
  | zero => rfl
  | succ n ih =>
    obtain ⟨back,refused,stuck⟩ := repeated n (Nat.lt_succ_self n)
    rw [reserved,ih fun m before => repeated m (Nat.lt_succ_of_lt before),Option.bind_some]
    dsimp only
    rw [caught_of_throw stuck]
    simp [back,ServiceTaskExecutor.caught,refused]

theorem reserved_inOrderAt {n : ℕ} (repeated : Repeated workers again first n) :
    Rounds.InOrderAt (Came first) (Invoked workers again first) (Answered workers again first) n ↔
      FailingLast (carried first) (reachedByWorker workers first) (fun m => (workers m).invocations) n := by
  have same : ∀ m ≤ n, reserved workers again first m =
      some ⟨first,List.range (carried first).length⟩ := fun m inTime =>
    reserved_of_repeated workers again first fun k before => repeated k (Nat.lt_of_lt_of_le before inTime)
  have place : ∀ k i : ℕ, (List.range (carried first).length)[k]? = some i ↔
      k = i ∧ k < (carried first).length := by
    intro k i
    rw [List.getElem?_eq_some_iff]
    simp [and_comm]
  refine inOrderAt_iff (fun i reaches => reaches.inside) (fun i => ?_) fun m inTime j => ?_
  · constructor
    · rintro ⟨parcel,k,found,here,invoked⟩
      cases (same n (Nat.le_refl n)).symm.trans found
      obtain ⟨rfl,_⟩ := (place k i).mp here
      exact (work_reaches workers n first k).mp invoked
    · intro reaches
      exact ⟨_,i,same n (Nat.le_refl n),(place i i).mpr ⟨rfl,reaches.inside⟩,
        (work_reaches workers n first i).mpr reaches⟩
  · constructor
    · rintro ⟨parcel,k,task,found,here,invoked,listed,succeeds⟩
      cases (same m inTime).symm.trans found
      obtain ⟨rfl,_⟩ := (place k j).mp here
      exact ⟨(work_reaches workers m first k).mp invoked,task,listed,succeeds⟩
    · rintro ⟨reaches,task,listed,succeeds⟩
      exact ⟨_,j,task,same m inTime,(place j j).mpr ⟨rfl,reaches.inside⟩,
        (work_reaches workers m first j).mpr reaches,listed,succeeds⟩

/-- The order is kept over all deliveries exactly if it is kept up to the first one in
which nothing is thrown. -/
theorem reserved_iff :
    Rounds.InOrder (Came first) (Invoked workers again first) (Answered workers again first) ↔
      ∀ n, Repeated workers again first n →
        FailingLast (carried first) (reachedByWorker workers first)
          (fun m => (workers m).invocations) n := by
  have whole : ∀ m n place, m ≤ n → WholeAt workers again first m →
      Invoked workers again first n place → Invoked workers again first m place := by
    rintro m n place ordered quiet ⟨parcel,k,later,here,_⟩
    have handed := reserved_handed workers again first
    have start : ∀ parcel, reserved workers again first 0 = some parcel → Aligned parcel :=
      fun _ => WorkerChain.whole_aligned
    obtain ⟨before,found,more⟩ := handed.places start ordered later
    obtain ⟨j,there⟩ := List.mem_iff_getElem?.mp (more place (List.mem_of_getElem? here))
    have inside : j < (carried before.message).length := by
      rw [← (handed.aligned start m found).length]
      exact (List.getElem?_eq_some_iff.mp there).1
    refine ⟨before,j,found,there,(work_reaches workers m before.message j).mpr ⟨?_,?_⟩⟩
    · exact ⟨_,List.getElem?_eq_getElem inside,trivial⟩
    · exact fun i _ task listed _ => quiet before found i task listed
  rw [Rounds.inOrder_iff _ _ _ whole]
  constructor
  · intro order n repeated
    refine (reserved_inOrderAt workers again first repeated).mp (order n fun m before quiet => ?_)
    have found := reserved_of_repeated workers again first fun k earlier =>
      repeated k (Nat.lt_trans earlier before)
    exact (repeated m before).2.2 (quiet _ found)
  · rintro last n broken i ⟨parcel,k,found,invoked⟩
    have repeated := (repeated_of_broken workers again first broken found).1
    exact (reserved_inOrderAt workers again first repeated).mpr (last n repeated) i
      ⟨parcel,k,found,invoked⟩

end Reserved

/-- Tasks are taken one after another's success exactly if a failed task is the last
that the first delivery reaches; with a worker, that each delivery reaches up to the
first in which nothing is thrown. -/
theorem run_sequential_iff (first : JobMessage) :
    (∀ replies produces,
      Rounds.InOrder (Came first) (Taken replies produces first) (Accepted replies produces first) ↔
        FailingLast (carried first) (reachedByTask replies first) replies 0) ∧
    ∀ workers again,
      Rounds.InOrder (Came first) (Invoked workers again first) (Answered workers again first) ↔
        ∀ n, Repeated workers again first n →
          FailingLast (carried first) (reachedByWorker workers first)
            (fun m => (workers m).invocations) n :=
  ⟨fun replies produces => redelivered_iff replies produces first,
    fun workers again => reserved_iff workers again first⟩

def sampleMessage : JobMessage :=
  {body := some {invokeMode := ServiceJob.INVOKE_MODE_SEQ,taskList := [{},{}]}}

def refusal : Invocation := {reply := .answered 1 none none none}

def sampleWorker : Worker :=
  ⟨⟨none,.yes,.yes,.yes,0⟩,fun _ => refusal,fun _ => true⟩

theorem refusal_fails : ¬ Succeeds {} refusal := by
  rintro ⟨status,answered,accepts⟩
  cases answered
  exact absurd accepts (by decide)

theorem failed_task_passed :
    ¬ Rounds.InOrder (Came sampleMessage) (Taken (fun _ _ => refusal) (fun _ _ => true) sampleMessage)
        (Accepted (fun _ _ => refusal) (fun _ _ => true) sampleMessage) ∧
    ¬ Rounds.InOrder (Came sampleMessage) (Invoked (fun _ => sampleWorker) (fun _ => false) sampleMessage)
        (Answered (fun _ => sampleWorker) (fun _ => false) sampleMessage) := by
  have unmarked : ¬ Came sampleMessage 0 := by
    rintro ⟨task,found,success⟩
    cases found
    cases success
  constructor
  · intro order
    rcases order 0 1 ⟨_,rfl,by decide⟩ 0 Nat.zero_lt_one with came | ⟨m,atStart,_,task,found,_,listed,succeeds⟩
    · exact unmarked came
    · obtain rfl := Nat.le_zero.mp atStart
      cases found
      cases listed
      exact refusal_fails succeeds
  · intro order
    rcases order 0 1 ⟨_,1,rfl,rfl,by decide⟩ 0 Nat.zero_lt_one with
      came | ⟨m,atStart,_,k,task,found,here,_,listed,succeeds⟩
    · exact unmarked came
    · obtain rfl := Nat.le_zero.mp atStart
      cases found
      cases k with
      | zero =>
        cases listed
        exact refusal_fails succeeds
      | succ k =>
        cases k with
        | zero => cases here
        | succ k => cases here

end YzFramework.Job.SequentialMode
