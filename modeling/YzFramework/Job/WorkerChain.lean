import YzFramework.Job.ServiceTaskExecutor

/-! A chain of workers: what a `ServiceTaskExecutor` forwards is reserved by the next.
Tasks keep the places they had in the job of the first worker. -/
namespace YzFramework.Job.WorkerChain
open ExecuteTask (Ends Succeeds)
open ServiceTaskExecutor

/-- What one worker meets: its queues, the replies and the log, task by task. -/
structure Worker where
  queues : Queues
  invocations : ℕ → Invocation
  logs : ℕ → Bool

/-- `places` is bookkeeping: where the tasks stood at first. -/
structure Parcel where
  message : JobMessage
  places : List ℕ

def carried (message : JobMessage) : List ServiceTask := message.body.elim [] ServiceJob.taskList

def Worker.work (worker : Worker) (message : JobMessage) : List ℕ × Place :=
  doWork worker.queues worker.invocations worker.logs message

def remaining (worker : Worker) (parcel : Parcel) : List ℕ :=
  match (executeTasks worker.invocations worker.logs 0 (carried parcel.message)).2 with
  | .ok after => ((parcel.places.zip after).filter fun pair => !pair.2.success).map Prod.fst
  | .error _ => []

def forwarded (worker : Worker) (parcel : Parcel) : Option Parcel :=
  (worker.work parcel.message).2.next.map fun message => ⟨message,remaining worker parcel⟩

variable (workers : ℕ → Worker) (first : JobMessage)

def arriving : ℕ → Option Parcel
  | 0 => some ⟨first,List.range (carried first).length⟩
  | n+1 => (arriving n).bind (forwarded (workers n))

def Invoked (n place : ℕ) : Prop :=
  ∃ parcel k, arriving workers first n = some parcel ∧ parcel.places[k]? = some place ∧
    k ∈ ((workers n).work parcel.message).1

def SucceededAt (n place : ℕ) : Prop :=
  ∃ parcel k task, arriving workers first n = some parcel ∧ parcel.places[k]? = some place ∧
    k ∈ ((workers n).work parcel.message).1 ∧ (carried parcel.message)[k]? = some task ∧
      Succeeds task ((workers n).invocations k)

def AllSucceed (worker : Worker) (tasks : List ServiceTask) : Prop :=
  ∀ k task, tasks[k]? = some task → Succeeds task (worker.invocations k)

def Deletes (queues : Queues) : Prop := queues.delete = .yes ∧ queues.deleteCaught = .yes

def Closed (queues : Queues) (place : Place) : Prop :=
  place.next = none ∧ place.buried = false ∧ (Deletes queues → place.source = false)

/-- What a worker owes: the failed tasks to the next one, no second call after a
success, and a finished job deleted. -/
structure Tracked (n : ℕ) : Prop where
  onlyFailed : ∀ parcel next, arriving workers first n = some parcel →
    arriving workers first (n+1) = some next → ∀ place, place ∈ next.places ↔
      ∃ k task, parcel.places[k]? = some place ∧ (carried parcel.message)[k]? = some task ∧
        ¬ Succeeds task ((workers n).invocations k)
  once : ∀ m < n, ∀ place, SucceededAt workers first m place → ¬ Invoked workers first n place
  closed : ∀ parcel job, arriving workers first n = some parcel → parcel.message.body = some job →
    (∀ k task, job.taskList[k]? = some task → k ∈ ((workers n).work parcel.message).1 ∧
      Succeeds task ((workers n).invocations k)) →
    Closed (workers n).queues ((workers n).work parcel.message).2

def Quiet (worker : Worker) (tasks : List ServiceTask) : Prop :=
  ∀ k task, tasks[k]? = some task → Ends task (worker.invocations k) ∧ worker.logs k = true

/-- A job that is forwarded has come with exactly those success marks that the replies
would set; a job that stays or is buried has not succeeded as a whole. -/
def Fit (worker : Worker) (job : ServiceJob) : Prop :=
  Quiet worker job.taskList → (∃ task ∈ job.taskList, task.success = false) →
    match produced worker.queues job,worker.queues.bury with
    | some .yes,_ => ∀ k task, job.taskList[k]? = some task →
        (task.success = true ↔ Succeeds task (worker.invocations k))
    | some .throws,_ => True
    | some .no,_ | none,.no => ¬ (AllSucceed worker job.taskList ∧ Deletes worker.queues)
    | none,.yes => ¬ AllSucceed worker job.taskList
    | none,.throws => True

theorem carried_of_parsed {message : JobMessage} {job : ServiceJob} (parsed : message.body = some job) :
    carried message = job.taskList := by
  rw [carried,parsed]
  rfl

theorem work_cases (worker : Worker) {message : JobMessage} {job : ServiceJob}
    (parsed : message.body = some job) :
    (¬ Quiet worker job.taskList ∧ (worker.work message).2 = caught worker.queues {}) ∨
    (Quiet worker job.taskList ∧ ∃ after,
      (executeTasks worker.invocations worker.logs 0 job.taskList).2 = .ok after ∧
      after.map ServiceTask.success = job.taskList.map ServiceTask.success ∧
      ((∀ task ∈ job.taskList, task.success = true) ∧
          (worker.work message).2 = deleted worker.queues {} ∨
        (∃ task ∈ job.taskList, task.success = false) ∧
          (worker.work message).2 = forward worker.queues message {job with
            taskList := (removeSuccessTask after).map ServiceTask.increaseFailedTimes})) := by
  have spec := executeTasks_spec worker.invocations worker.logs 0 job.taskList
  simp only [Nat.zero_add] at spec
  unfold Worker.work doWork
  rw [parsed]
  dsimp only
  generalize executeTasks worker.invocations worker.logs 0 job.taskList = result at spec
  obtain ⟨invoked,outcome⟩ := result
  rcases spec with ⟨quiet,after,rfl,same⟩ | ⟨stuck,thrown,rfl⟩
  · refine .inr ⟨quiet,after,rfl,same,?_⟩
    have marks : (∀ task ∈ after, task.success = true) ↔ ∀ task ∈ job.taskList, task.success = true := by
      rw [← List.forall_mem_map (f := ServiceTask.success) (P := fun mark => mark = true),same,
        List.forall_mem_map]
    dsimp only
    split
    next removed =>
      refine .inl ⟨marks.mp ?_,rfl⟩
      simpa [removeSuccessTask,List.filter_eq_nil_iff] using removed
    next left =>
      refine .inr ⟨?_,rfl⟩
      by_contra none
      push Not at none
      apply left
      have all := marks.mpr fun task member => by simpa using none task member
      simpa [removeSuccessTask,List.filter_eq_nil_iff] using all
  · exact .inl ⟨stuck,rfl⟩

theorem caught_next (queues : Queues) (place : Place) : (caught queues place).next = place.next := by
  unfold caught
  split <;> rfl

theorem deleted_next (queues : Queues) (place : Place) : (deleted queues place).next = place.next := by
  unfold deleted
  split
  · rfl
  · rfl
  · exact caught_next queues place

theorem forward_next (queues : Queues) (message : JobMessage) (job : ServiceJob) :
    (forward queues message job).next =
      if produced queues job = some .yes then
        some {body := some job,timeToRun := message.timeToRun,delaySeconds := queues.delaySeconds}
      else none := by
  unfold forward
  split
  next produced => rw [if_pos produced,deleted_next]
  next produced => rw [if_neg (by simp [produced])]
  next produced => rw [if_neg (by simp [produced]),caught_next]
  next produced =>
    rw [if_neg (by simp [produced])]
    split
    · rfl
    · rfl
    · exact caught_next queues {}

/-- A job is forwarded exactly if nothing is thrown, a task is left and the producer takes it. -/
theorem work_next (worker : Worker) {message : JobMessage} {job : ServiceJob}
    (parsed : message.body = some job) {next : JobMessage} :
    (worker.work message).2.next = some next ↔
      Quiet worker job.taskList ∧ (∃ task ∈ job.taskList, task.success = false) ∧
        produced worker.queues job = some .yes ∧ ∃ after,
          (executeTasks worker.invocations worker.logs 0 job.taskList).2 = .ok after ∧
          next = {
            body := some {job with
              taskList := (removeSuccessTask after).map ServiceTask.increaseFailedTimes}
            timeToRun := message.timeToRun
            delaySeconds := worker.queues.delaySeconds} := by
  rcases work_cases worker parsed with
    ⟨stuck,place⟩ | ⟨quiet,after,ended,_,⟨all,place⟩ | ⟨some,place⟩⟩
  · rw [place,caught_next]
    exact iff_of_false (by simp) fun sent => stuck sent.1
  · rw [place,deleted_next]
    apply iff_of_false (by simp)
    intro sent
    obtain ⟨_,⟨task,member,unmarked⟩,_⟩ := sent
    rw [all task member] at unmarked
    cases unmarked
  · rw [place,forward_next,produced_taskList,ended]
    constructor
    · intro sent
      split at sent
      next produced =>
        cases sent
        exact ⟨quiet,some,produced,after,rfl,rfl⟩
      next => cases sent
    · rintro ⟨_,_,produced,other,same,rfl⟩
      cases same
      rw [if_pos produced]

structure Aligned (parcel : Parcel) : Prop where
  length : parcel.places.length = (carried parcel.message).length
  nodup : parcel.places.Nodup

theorem forwarded_some {worker : Worker} {parcel next : Parcel}
    (sent : forwarded worker parcel = some next) :
    ∃ job, parcel.message.body = some job ∧
      (worker.work parcel.message).2.next = some next.message ∧
      next.places = remaining worker parcel := by
  obtain ⟨message,found,rfl⟩ := Option.map_eq_some_iff.mp sent
  cases parsed : parcel.message.body with
  | none =>
    rw [Worker.work,doWork,parsed] at found
    dsimp only at found
    rw [caught_next] at found
    cases found
  | some job => exact ⟨job,rfl,found,rfl⟩

private theorem mem_remaining {worker : Worker} {parcel : Parcel} {after : List ServiceTask}
    (ended : (executeTasks worker.invocations worker.logs 0 (carried parcel.message)).2 = .ok after)
    (same : after.map ServiceTask.success = (carried parcel.message).map ServiceTask.success)
    (place : ℕ) : place ∈ remaining worker parcel ↔
      ∃ (k : ℕ) (task : ServiceTask), parcel.places[k]? = some place ∧
        (carried parcel.message)[k]? = some task ∧ task.success = false := by
  have marks : ∀ k : ℕ, (after[k]?).map ServiceTask.success =
      ((carried parcel.message)[k]?).map ServiceTask.success := by
    intro k
    rw [← List.getElem?_map,same,List.getElem?_map]
  rw [remaining,ended]
  simp only [List.mem_map,List.mem_filter,Bool.not_eq_true']
  constructor
  · rintro ⟨⟨_,task'⟩,⟨member,unmarked⟩,rfl⟩
    obtain ⟨k,found⟩ := List.mem_iff_getElem?.mp member
    obtain ⟨here,executed⟩ := List.getElem?_zip_eq_some.mp found
    have mark := marks k
    rw [executed] at mark
    obtain ⟨task,listed,equal⟩ := Option.map_eq_some_iff.mp mark.symm
    exact ⟨k,task,here,listed,equal.trans unmarked⟩
  · rintro ⟨k,task,here,listed,unmarked⟩
    have mark := marks k
    rw [listed] at mark
    obtain ⟨task',executed,equal⟩ := Option.map_eq_some_iff.mp mark
    refine ⟨⟨place,task'⟩,⟨?_,equal.trans unmarked⟩,rfl⟩
    exact List.mem_iff_getElem?.mpr ⟨k,List.getElem?_zip_eq_some.mpr ⟨here,executed⟩⟩

theorem forwarded_aligned {worker : Worker} {parcel next : Parcel} (aligned : Aligned parcel)
    (sent : forwarded worker parcel = some next) :
    Aligned next ∧ next.places.Sublist parcel.places := by
  obtain ⟨job,parsed,found,places⟩ := forwarded_some sent
  obtain ⟨_,_,_,after,ended,content⟩ := (work_next worker parsed).mp found
  rw [← carried_of_parsed parsed] at ended
  have length : after.length = (carried parcel.message).length := by
    rcases executeTasks_spec worker.invocations worker.logs 0 (carried parcel.message) with
      ⟨_,other,same,marks⟩ | ⟨_,thrown,failed⟩
    · rw [ended] at same
      cases same
      simpa using congrArg List.length marks
    · rw [ended] at failed
      cases failed
  have kept : remaining worker parcel =
      ((parcel.places.zip after).filter fun pair => !pair.2.success).map Prod.fst := by
    rw [remaining,ended]
  have part : next.places.Sublist parcel.places := by
    have firsts : (parcel.places.zip after).map Prod.fst = parcel.places :=
      List.map_fst_zip (by rw [length,aligned.length])
    rw [places,kept]
    calc (((parcel.places.zip after).filter fun pair => !pair.2.success).map Prod.fst).Sublist
          ((parcel.places.zip after).map Prod.fst) := List.filter_sublist.map _
      _ = parcel.places := firsts
  refine ⟨⟨?_,part.nodup aligned.nodup⟩,part⟩
  have seconds : (parcel.places.zip after).map Prod.snd = after :=
    List.map_snd_zip (by rw [length,aligned.length])
  have left : removeSuccessTask after =
      ((parcel.places.zip after).filter fun pair => !pair.2.success).map Prod.snd := by
    conv_lhs => rw [removeSuccessTask,← seconds,List.filter_map]
    rfl
  rw [places,kept,carried_of_parsed (by rw [content]),List.length_map,List.length_map,left,
    List.length_map]

/-- In a sequence of deliveries each has the parcel of the last one or what was forwarded
of it. -/
def Handed (parcels : ℕ → Option Parcel) : Prop :=
  ∀ n next, parcels (n+1) = some next → ∃ before, parcels n = some before ∧
    (next = before ∨ ∃ worker, forwarded worker before = some next)

theorem whole_aligned {first : JobMessage} {parcel : Parcel}
    (start : some ⟨first,List.range (carried first).length⟩ = some parcel) : Aligned parcel := by
  cases start
  exact ⟨List.length_range,List.nodup_range⟩

theorem Handed.aligned {parcels : ℕ → Option Parcel} (handed : Handed parcels)
    (start : ∀ parcel, parcels 0 = some parcel → Aligned parcel) (n : ℕ) {parcel : Parcel}
    (found : parcels n = some parcel) : Aligned parcel := by
  induction n generalizing parcel with
  | zero => exact start parcel found
  | succ n ih =>
    obtain ⟨before,here,rfl | ⟨worker,sent⟩⟩ := handed n parcel found
    · exact ih here
    · exact (forwarded_aligned (ih here) sent).1

theorem Handed.places {parcels : ℕ → Option Parcel} (handed : Handed parcels)
    (start : ∀ parcel, parcels 0 = some parcel → Aligned parcel) {m n : ℕ} (ordered : m ≤ n)
    {parcel : Parcel} (found : parcels n = some parcel) :
    ∃ before, parcels m = some before ∧ ∀ place ∈ parcel.places, place ∈ before.places := by
  induction n, ordered using Nat.le_induction generalizing parcel with
  | base => exact ⟨parcel,found,fun _ member => member⟩
  | succ n _ ih =>
    obtain ⟨middle,here,rfl | ⟨worker,sent⟩⟩ := handed n parcel found
    · exact ih here
    · obtain ⟨before,there,more⟩ := ih here
      have part := (forwarded_aligned (handed.aligned start n here) sent).2
      exact ⟨before,there,fun place member => more place (part.subset member)⟩

theorem caught_closed (queues : Queues) : Closed queues (caught queues {}) := by
  unfold caught
  split
  next => exact ⟨rfl,rfl,fun _ => rfl⟩
  next refused => exact ⟨rfl,rfl,fun deletes => absurd deletes.2 refused⟩

theorem deleted_closed (queues : Queues) : Closed queues (deleted queues {}) := by
  unfold deleted
  split
  next => exact ⟨rfl,rfl,fun _ => rfl⟩
  next answered => exact ⟨rfl,rfl,fun deletes => by simp [deletes.1] at answered⟩
  next => exact caught_closed queues

theorem work_invoked (worker : Worker) {message : JobMessage} {job : ServiceJob}
    (parsed : message.body = some job) (quiet : Quiet worker job.taskList) {k : ℕ} {task : ServiceTask}
    (listed : job.taskList[k]? = some task) : k ∈ (worker.work message).1 := by
  have reached := executeTasks_invoked worker.invocations worker.logs 0 k job.taskList
  simp only [Nat.zero_add] at reached
  rw [Worker.work,doWork_invoked _ _ _ parsed,reached]
  exact ⟨(List.getElem?_eq_some_iff.mp listed).1,fun j _ other found => quiet j other found⟩

private theorem closed_of_fit {worker : Worker} {message : JobMessage} {job : ServiceJob}
    (parsed : message.body = some job) (fit : Fit worker job)
    (all : AllSucceed worker job.taskList) : Closed worker.queues (worker.work message).2 := by
  rcases work_cases worker parsed with
    ⟨_,place⟩ | ⟨quiet,after,_,_,⟨_,place⟩ | ⟨some,place⟩⟩
  · rw [place]
    exact caught_closed _
  · rw [place]
    exact deleted_closed _
  · have fits := fit quiet some
    rw [place]
    unfold forward
    rw [produced_taskList]
    cases produced : produced worker.queues job with
    | some answer =>
      cases answer with
      | yes =>
        rw [produced] at fits
        obtain ⟨task,member,unmarked⟩ := some
        obtain ⟨k,listed⟩ := List.mem_iff_getElem?.mp member
        rw [(fits k task listed).mpr (all k task listed)] at unmarked
        cases unmarked
      | no =>
        rw [produced] at fits
        exact ⟨rfl,rfl,fun deletes => absurd ⟨all,deletes⟩ fits⟩
      | throws => exact caught_closed _
    | none =>
      cases buried : worker.queues.bury with
      | yes =>
        rw [produced,buried] at fits
        exact absurd all fits
      | no =>
        rw [produced,buried] at fits
        exact ⟨rfl,rfl,fun deletes => absurd ⟨all,deletes⟩ fits⟩
      | throws => exact caught_closed _

theorem place_iff {parcel : Parcel} (aligned : Aligned parcel) {k : ℕ} {task : ServiceTask}
    (listed : (carried parcel.message)[k]? = some task) (property : ℕ → ServiceTask → Prop) :
    ∃ place, parcel.places[k]? = some place ∧
      ((∃ j other, parcel.places[j]? = some place ∧ (carried parcel.message)[j]? = some other ∧
        property j other) ↔ property k task) := by
  have inside : k < parcel.places.length := by
    rw [aligned.length]
    exact (List.getElem?_eq_some_iff.mp listed).1
  have here := List.getElem?_eq_getElem inside
  refine ⟨_,here,?_,fun holds => ⟨k,task,here,listed,holds⟩⟩
  rintro ⟨j,other,there,found,holds⟩
  obtain rfl : k = j := (List.getElem?_inj inside aligned.nodup).mp (here.trans there.symm)
  rw [listed] at found
  cases found
  exact holds

section Chain
variable (workers : ℕ → Worker) (first : JobMessage)

theorem arriving_handed : Handed (arriving workers first) := by
  intro n next later
  obtain ⟨before,here,sent⟩ := Option.bind_eq_some_iff.mp later
  exact ⟨before,here,.inr ⟨workers n,sent⟩⟩

theorem arriving_aligned (n : ℕ) {parcel : Parcel} (arrived : arriving workers first n = some parcel) :
    Aligned parcel :=
  (arriving_handed workers first).aligned (fun _ start => whole_aligned start) n arrived

theorem places_later {m n : ℕ} (ordered : m ≤ n) {parcel : Parcel}
    (arrived : arriving workers first n = some parcel) :
    ∃ before, arriving workers first m = some before ∧ ∀ place ∈ parcel.places, place ∈ before.places :=
  (arriving_handed workers first).places (fun _ start => whole_aligned start) ordered arrived

/-- A tracked worker that forwards a job got the marks that the replies would set. -/
theorem Tracked.marks {n : ℕ} (tracked : Tracked workers first n) {parcel : Parcel} {job : ServiceJob}
    (arrived : arriving workers first n = some parcel) (parsed : parcel.message.body = some job)
    (quiet : Quiet (workers n) job.taskList) (some : ∃ task ∈ job.taskList, task.success = false)
    (accepted : produced (workers n).queues job = .some .yes) {k : ℕ} {task : ServiceTask}
    (listed : job.taskList[k]? = .some task) :
    task.success = true ↔ Succeeds task ((workers n).invocations k) := by
  rcases executeTasks_spec (workers n).invocations (workers n).logs 0 job.taskList with
    ⟨_,after,ended,same⟩ | ⟨stuck,_⟩
  · obtain ⟨message,sent⟩ : ∃ message, ((workers n).work parcel.message).2.next = .some message :=
      ⟨_,(work_next (workers n) parsed).mpr ⟨quiet,some,accepted,after,ended,rfl⟩⟩
    have next : arriving workers first (n+1) = .some ⟨message,remaining (workers n) parcel⟩ := by
      rw [arriving,arrived,Option.bind_some,forwarded,sent]
      rfl
    rw [← carried_of_parsed parsed] at ended same listed
    have aligned := arriving_aligned workers first n arrived
    obtain ⟨place,here,unmarked⟩ := place_iff aligned listed fun _ task => task.success = false
    obtain ⟨other,there,failed⟩ := place_iff aligned listed fun k task =>
      ¬ Succeeds task ((workers n).invocations k)
    cases here.symm.trans there
    have left := (mem_remaining ended same place).symm.trans
      (tracked.onlyFailed parcel _ arrived next place)
    rw [unmarked,failed] at left
    rw [← Bool.not_eq_false,left,not_not]
  · simp only [Nat.zero_add] at stuck
    exact absurd quiet stuck

theorem Tracked.fit {n : ℕ} (tracked : Tracked workers first n) {parcel : Parcel} {job : ServiceJob}
    (arrived : arriving workers first n = some parcel) (parsed : parcel.message.body = some job) :
    Fit (workers n) job := by
  intro quiet some
  have closed : AllSucceed (workers n) job.taskList →
      Closed (workers n).queues ((workers n).work parcel.message).2 := fun all =>
    tracked.closed parcel job arrived parsed fun k task listed =>
      ⟨work_invoked (workers n) parsed quiet listed,all k task listed⟩
  rcases work_cases (workers n) parsed with
    ⟨stuck,_⟩ | ⟨_,after,_,_,⟨all,_⟩ | ⟨_,place⟩⟩
  · exact absurd quiet stuck
  · obtain ⟨task,member,unmarked⟩ := some
    rw [all task member] at unmarked
    cases unmarked
  · rw [place] at closed
    unfold forward at closed
    rw [produced_taskList] at closed
    cases produced : produced (workers n).queues job with
    | some answer =>
      rw [produced] at closed
      cases answer with
      | yes => exact fun k task => tracked.marks workers first arrived parsed quiet some produced
      | no => exact fun both => by simpa using (closed both.1).2.2 both.2
      | throws => trivial
    | none =>
      rw [produced] at closed
      cases buried : (workers n).queues.bury with
      | yes =>
        rw [buried] at closed
        exact fun all => by simpa using (closed all).2.1
      | no =>
        rw [buried] at closed
        exact fun both => by simpa using (closed both.1).2.2 both.2
      | throws => trivial

private theorem onlyFailed_of_fit {n : ℕ} {parcel next : Parcel}
    (fit : ∀ job, parcel.message.body = some job → Fit (workers n) job)
    (arrived : arriving workers first n = some parcel)
    (later : arriving workers first (n+1) = some next) (place : ℕ) :
    place ∈ next.places ↔ ∃ k task, parcel.places[k]? = some place ∧
      (carried parcel.message)[k]? = some task ∧ ¬ Succeeds task ((workers n).invocations k) := by
  rw [arriving,arrived,Option.bind_some] at later
  obtain ⟨job,parsed,sent,places⟩ := forwarded_some later
  obtain ⟨quiet,some,produced,after,ended,_⟩ := (work_next (workers n) parsed).mp sent
  have fits := fit job parsed quiet some
  rw [produced] at fits
  rcases executeTasks_spec (workers n).invocations (workers n).logs 0 job.taskList with
    ⟨_,other,again,same⟩ | ⟨_,thrown,failed⟩
  · cases ended.symm.trans again
    have tasks := carried_of_parsed parsed
    rw [places,mem_remaining (by rw [tasks]; exact ended) (by rw [tasks]; exact same)]
    refine exists_congr fun k => exists_congr fun task => and_congr_right fun _ =>
      and_congr_right fun listed => ?_
    rw [tasks] at listed
    rw [← fits k task listed,Bool.not_eq_true]
  · rw [ended] at failed
    cases failed

/-- Workers track success exactly in the chains all of whose hops are fit. -/
theorem run_tracked_iff : (∀ n, Tracked workers first n) ↔
    ∀ n parcel job, arriving workers first n = some parcel → parcel.message.body = some job →
      Fit (workers n) job := by
  constructor
  · exact fun tracked n parcel job arrived parsed => (tracked n).fit workers first arrived parsed
  · intro fit n
    constructor
    case onlyFailed =>
      exact fun parcel next arrived later =>
        onlyFailed_of_fit workers first (fun job parsed => fit n parcel job arrived parsed) arrived later
    case once =>
      rintro m earlier place ⟨before,k,task,came,here,_,listed,succeeded⟩
        ⟨parcel,j,arrived,again,_⟩
      obtain ⟨next,later,more⟩ := places_later workers first earlier arrived
      have still := more place (List.mem_of_getElem? again)
      obtain ⟨i,other,same,found,failed⟩ := (onlyFailed_of_fit workers first
        (fun job parsed => fit m before job came parsed) came later place).mp still
      have aligned := arriving_aligned workers first m came
      obtain ⟨own,there,unique⟩ := place_iff aligned listed fun k task =>
        ¬ Succeeds task ((workers m).invocations k)
      cases here.symm.trans there
      exact unique.mp ⟨i,other,same,found,failed⟩ succeeded
    case closed =>
      exact fun parcel job arrived parsed all => closed_of_fit parsed (fit n parcel job arrived parsed)
        fun k task listed => (all k task listed).2

end Chain

def sampleWorker : Worker where
  queues := {produce := some .yes,bury := .yes,delete := .yes,deleteCaught := .yes}
  invocations := fun k => {reply := .answered (if k = 0 then 0 else 1) none none none}
  logs := fun _ => true

theorem succeeded_invoked_again :
    ¬ ∀ n, Tracked (fun _ => sampleWorker) {body := some {taskList := [{},{}]}} n := by
  intro tracked
  refine (tracked 1).once 0 (by decide) 0 ⟨_,0,_,rfl,rfl,by decide +kernel,rfl,0,rfl,.inl rfl⟩ ?_
  exact ⟨_,0,rfl,by decide +kernel,by decide +kernel⟩

end YzFramework.Job.WorkerChain
