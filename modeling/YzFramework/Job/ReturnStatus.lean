import YzFramework.Job.ExecuteTask

/-! What `updateReturnStatus` makes of a task, and of its retries. -/
namespace YzFramework.Job.ReturnStatus
open Library ExecuteTask ServiceTask

/-- No delivery of a job invokes the task. -/
def Finished (task : ServiceTask) : Prop :=
  ∀ invocations (tasks : List ServiceTask) (i : ℕ), tasks[i]? = some task →
    i ∉ (executeTasks invocations 0 tasks).1

/-- The status is kept, success means that it is accepted, and then the retry has ended. -/
def Judged (identityHash : ℕ) (status : ℤ) (task : ServiceTask) : Prop :=
  (updateReturnStatus identityHash status task).returnStatus = status ∧
    ((updateReturnStatus identityHash status task).success = true ↔ Accepts task.successStatus status) ∧
    (Accepts task.successStatus status → Finished (updateReturnStatus identityHash status task))

/-- Where a list is configured, the status and the text of the array are both listed or
both not. -/
def Fit (identityHash : ℕ) (status : ℤ) (task : ServiceTask) : Prop :=
  ∀ listed, task.successStatus = some listed → Text.blank listed = false →
    (toString status ∈ split listed ↔ arrayText identityHash ∈ split listed)

private theorem finished_iff (task : ServiceTask) : Finished task ↔ task.success = true := by
  constructor
  · intro finished
    by_contra unfinished
    have reached : 0 ∈ (executeTasks (fun _ => {reply := .failed}) 0 [task]).1 := by
      rw [executeTasks,if_neg unfinished]
      split
      · exact List.mem_cons_self
      · exact List.mem_cons_self
    exact finished _ [task] 0 rfl reached
  · intro success invocations tasks i found invoked
    obtain ⟨place,other,same,there,unfinished⟩ := executeTasks_invoked invocations 0 tasks invoked
    rw [Nat.zero_add] at same
    rw [← same,found] at there
    rw [← Option.some.inj there,success] at unfinished
    contradiction

theorem updateReturnStatus_success (identityHash : ℕ) (status : ℤ) {task : ServiceTask} {listed : String}
    (configured : task.successStatus = some listed) (written : Text.blank listed = false) :
    (updateReturnStatus identityHash status task).success = true ↔
      arrayText identityHash ∈ split listed := by
  simp [updateReturnStatus,configured,isNullOrEmpty,written]

private theorem accepts_listed (status : ℤ) {listed : String} (written : Text.blank listed = false) :
    Accepts (some listed) status ↔ toString status ∈ split listed := by
  simp [Accepts,isNullOrEmpty,written]

theorem updateReturnStatus_unlisted (identityHash : ℕ) (status : ℤ) {task : ServiceTask}
    (unlisted : isNullOrEmpty task.successStatus = true) :
    (updateReturnStatus identityHash status task).success = true ↔
      Accepts task.successStatus status := by
  simp [updateReturnStatus,Accepts,unlisted]

private theorem success_iff (identityHash : ℕ) (status : ℤ) (task : ServiceTask) :
    ((updateReturnStatus identityHash status task).success = true ↔
      Accepts task.successStatus status) ↔ Fit identityHash status task := by
  by_cases unlisted : isNullOrEmpty task.successStatus = true
  · apply iff_of_true (updateReturnStatus_unlisted identityHash status unlisted)
    intro listed configured written
    simp [isNullOrEmpty,configured,written] at unlisted
  · obtain ⟨listed,configured⟩ : ∃ listed, task.successStatus = some listed := by
      cases configured : task.successStatus with
      | none => simp [isNullOrEmpty,configured] at unlisted
      | some listed => exact ⟨listed,rfl⟩
    have written : Text.blank listed = false := by
      simpa [isNullOrEmpty,configured] using unlisted
    rw [updateReturnStatus_success identityHash status configured written,configured,
      accepts_listed status written]
    constructor
    · intro same other also _
      obtain rfl : listed = other := Option.some.inj (configured.symm.trans also)
      exact same.symm
    · exact fun fit => (fit listed configured written).symm

/-- The verdict is right if and only if no configured list tells the status from the
text of the array. -/
theorem updateReturnStatus_judged_iff (identityHash : ℕ) (status : ℤ) (task : ServiceTask) :
    Judged identityHash status task ↔ Fit identityHash status task := by
  rw [Judged,finished_iff,← success_iff]
  constructor
  · exact fun judged => judged.2.1
  · exact fun same => ⟨rfl,same,same.mpr⟩

theorem listed_status_retried :
    ¬ Judged 0x1b6d3586 200 {successStatus := some "200"} ∧
    (updateReturnStatus 0x1b6d3586 200 {successStatus := some "200"}).success = false := by
  have failed : (updateReturnStatus 0x1b6d3586 200 {successStatus := some "200"}).success = false := by
    decide +kernel
  refine ⟨fun judged => ?_,failed⟩
  have accepted : Accepts (some "200") 200 := by decide +kernel
  exact absurd (judged.2.1.mpr accepted) (by rw [failed]; decide)

end YzFramework.Job.ReturnStatus
