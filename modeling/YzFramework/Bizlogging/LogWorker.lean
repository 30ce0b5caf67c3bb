import YzFramework.Library.Store
import YzFramework.Library.Run

/-! The workers that write queued log entries to a table for each day: `ApiInvokeLogWorker`
with `MySqlApiInvokeLogDao`, and `SqlRunTimeLogWorker` with `MySqlRunTimeLogDao`, which
differ in the prefix of the table. The queue is one of jobs that a worker reserves for a
time. The static name of the table is neither volatile nor guarded: it is locked itself,
and the lock changes with it. So a read may give any name ever assigned, and the lock
orders nothing here. -/
namespace YzFramework.Bizlogging.LogWorker
open Library Library.Run

variable {Job Thread : Type} [DecidableEq Job] [DecidableEq Thread]

/-- How a remote call ends; one that throws may have had its effect. -/
inductive Outcome
  | done
  | refused
  | unanswered
deriving DecidableEq

def Outcome.throws (outcome : Outcome) : Bool := outcome != .done

def Outcome.effective (outcome : Outcome) : Bool := outcome != .refused

inductive Status (Thread : Type)
  | absent
  | ready
  | reserved (thread : Thread)
  | deleted
deriving DecidableEq

/-- A worker's next step: `named` compares the names, `locked` compares them again inside
the block, then come the two statements, the assignment and the insert. -/
inductive Stage (Job : Type)
  | idle
  | reserved (job : Job)
  | named (job : Job) (table : String)
  | locked (job : Job) (table : String)
  | asking (job : Job) (table : String)
  | creating (job : Job) (table : String)
  | assigning (job : Job) (table : String)
  | writing (job : Job) (table : String)
  | deleting (job : Job)
  | releasing (job : Job)
deriving DecidableEq

namespace Stage

/-- The job, as long as the worker may still write or release it. -/
def held : Stage Job → Option Job
  | idle => none
  | deleting _ => none
  | reserved job => some job
  | named job _ => some job
  | locked job _ => some job
  | asking job _ => some job
  | creating job _ => some job
  | assigning job _ => some job
  | writing job _ => some job
  | releasing job => some job

def sought : Stage Job → Option String
  | named _ table => some table
  | locked _ table => some table
  | asking _ table => some table
  | _ => none

/-- The table that the worker takes to be there. -/
def target : Stage Job → Option String
  | assigning _ table => some table
  | writing _ table => some table
  | _ => none

end Stage

/-- `elsewhere` are the tables of other schemas, which `information_schema` lists too, under
the names by which a query without regard to case finds them.
`names` are the assignments to `currentTableName`, the last one first. `again` counts,
for a job, what may make it be written once more: a reservation that runs out, an insert
that throws after its effect, a `delete` that throws. -/
structure State (Job Thread : Type) where
  today : String
  tables : List String
  elsewhere : List String := []
  names : List String := []
  rows : List (String × Job) := []
  status : Job → Status Thread := fun _ => .absent
  workers : Thread → Stage Job := fun _ => .idle
  again : Job → ℕ := fun _ => 0

/-- `work` is a worker's next step, with the outcome if it is a call and the name that it
reads, by its number. `abort` is an `Error`, or the end of the worker. -/
inductive Event (Job Thread : Type)
  | clock (day : String)
  | elsewhere (tables : List String)
  | submit (job : Job)
  | reserve (thread : Thread) (job : Job)
  | work (thread : Thread) (outcome : Outcome) (seen : ℕ)
  | expire (job : Job)
  | abort (thread : Thread)

variable (tablePrefix : String) (parses : Job → Bool)

def tableName (day : String) : String := tablePrefix ++ "_" ++ day

namespace State

variable (state : State Job Thread)

def move (thread : Thread) (stage : Stage Job) : State Job Thread :=
  {state with workers := Function.update state.workers thread stage}

def repeats (job : Job) : State Job Thread := {state with again := Function.update state.again job (state.again job+1)}

def currentTableName (seen : ℕ) : String := state.names.getD seen tablePrefix

/-- How many rows come back. -/
def selectByTableName (table : String) : ℕ :=
  (if table ∈ state.tables then 1 else 0)+state.elsewhere.count table

/-- `selectOne` throws for more than one row. -/
def isTableCreated (table : String) (outcome : Outcome) : Option Bool :=
  if outcome.throws ∨ 1 < state.selectByTableName table then none else some (state.selectByTableName table == 1)

def createDailyLogTable (table : String) (outcome : Outcome) : Bool × State Job Thread :=
  if table ∈ state.tables then (true,state)
  else (outcome.throws,if outcome.effective then {state with tables := table::state.tables} else state)

def insert (table : String) (job : Job) : State Job Thread := {state with rows := state.rows++[(table,job)]}

def writeLog (table : String) (job : Job) (outcome : Outcome) : Bool × State Job Thread :=
  if table ∈ state.tables then
    match outcome with
    | .done => (false,state.insert table job)
    | .refused => (true,state)
    | .unanswered => (true,(state.insert table job).repeats job)
  else (true,state)

/-- Only who holds the reservation deletes or releases; else the queue says no. -/
def delete (thread : Thread) (job : Job) (outcome : Outcome) : State Job Thread :=
  {state with
    status :=
      if outcome.effective ∧ state.status job = .reserved thread then Function.update state.status job .deleted
      else state.status
    again := if outcome.throws then Function.update state.again job (state.again job+1) else state.again}

def release (thread : Thread) (job : Job) (outcome : Outcome) : State Job Thread :=
  {state with
    status :=
      if outcome.effective ∧ state.status job = .reserved thread then Function.update state.status job .ready
      else state.status}

def work (thread : Thread) (outcome : Outcome) (seen : ℕ) : State Job Thread :=
  match state.workers thread with
  | .idle => state
  | .reserved job =>
    state.move thread (if parses job then .named job (tableName tablePrefix state.today) else .releasing job)
  | .named job table =>
    state.move thread (if state.currentTableName tablePrefix seen = table then .writing job table else .locked job table)
  | .locked job table =>
    state.move thread (if state.currentTableName tablePrefix seen = table then .writing job table else .asking job table)
  | .asking job table =>
    state.move thread (match state.isTableCreated table outcome with
      | none => .releasing job
      | some true => .assigning job table
      | some false => .creating job table)
  | .creating job table =>
    let (threw,state) := state.createDailyLogTable table outcome
    state.move thread (if threw then .releasing job else .assigning job table)
  | .assigning job table => {state with names := table::state.names}.move thread (.writing job table)
  | .writing job table =>
    let (threw,state) := state.writeLog table job outcome
    state.move thread (if threw then .releasing job else .deleting job)
  | .deleting job =>
    (state.delete thread job outcome).move thread (if outcome.throws then .releasing job else .idle)
  | .releasing job => (state.release thread job outcome).move thread .idle

end State

def step (state : State Job Thread) : Event Job Thread → State Job Thread
  | .clock day => {state with today := day}
  | .elsewhere tables => {state with elsewhere := tables}
  | .submit job =>
    if state.status job = .absent then {state with status := Function.update state.status job .ready} else state
  | .reserve thread job =>
    if state.workers thread = .idle ∧ state.status job = .ready then
      {state with status := Function.update state.status job (.reserved thread)}.move thread (.reserved job)
    else state
  | .work thread outcome seen => state.work tablePrefix parses thread outcome seen
  | .expire job =>
    match state.status job with
    | .reserved _ => {state.repeats job with status := Function.update state.status job .ready}
    | _ => state
  | .abort thread => state.move thread .idle

/-- No other schema has a table of a day. -/
def Apart : Event Job Thread → Prop
  | .elsewhere tables => ∀ day, tableName tablePrefix day ∉ tables
  | _ => True

/-- A name that has been assigned is that of a table, and so is the one that is written to. -/
structure Named (state : State Job Thread) : Prop where
  elsewhere : ∀ day, tableName tablePrefix day ∉ state.elsewhere
  names : ∀ name ∈ state.names, name ∈ state.tables
  sought : ∀ thread, ∀ table ∈ (state.workers thread).sought, ∃ day, table = tableName tablePrefix day
  target : ∀ thread, ∀ table ∈ (state.workers thread).target, table ∈ state.tables

variable {tablePrefix parses}

/-- What a call leaves as it was. -/
structure Frame (state after : State Job Thread) : Prop where
  elsewhere : after.elsewhere = state.elsewhere
  tables : after.tables = state.tables
  names : after.names = state.names
  workers : after.workers = state.workers

omit [DecidableEq Thread] in
theorem writeLog_frame (state : State Job Thread) (table : String) (job : Job) (outcome : Outcome) :
    Frame state (state.writeLog table job outcome).2 := by
  unfold State.writeLog
  split
  · cases outcome <;> exact ⟨rfl,rfl,rfl,rfl⟩
  · exact ⟨rfl,rfl,rfl,rfl⟩

theorem delete_frame (state : State Job Thread) (thread : Thread) (job : Job) (outcome : Outcome) :
    Frame state (state.delete thread job outcome) := ⟨rfl,rfl,rfl,rfl⟩

theorem release_frame (state : State Job Thread) (thread : Thread) (job : Job) (outcome : Outcome) :
    Frame state (state.release thread job outcome) := ⟨rfl,rfl,rfl,rfl⟩

omit [DecidableEq Job] in
theorem move_workers (state : State Job Thread) (thread place : Thread) (stage : Stage Job) :
    (state.move thread stage).workers place = if place = thread then stage else state.workers place :=
  Function.update_apply ..

omit [DecidableEq Job] [DecidableEq Thread] in
theorem isTableCreated_named {state : State Job Thread} (named : Named tablePrefix state) {table : String}
    (dated : ∃ day, table = tableName tablePrefix day) {outcome : Outcome}
    (created : state.isTableCreated table outcome = some true) : table ∈ state.tables := by
  obtain ⟨day,rfl⟩ := dated
  have alone : state.elsewhere.count (tableName tablePrefix day) = 0 := List.count_eq_zero.mpr (named.elsewhere day)
  unfold State.isTableCreated State.selectByTableName at created
  rw [alone] at created
  by_contra absent
  simp [absent] at created

theorem tableName_ne (day : String) : tableName tablePrefix day ≠ tablePrefix := by
  intro same
  have longer := congrArg String.length same
  have one : "_".length = 1 := rfl
  rw [tableName,String.length_append,String.length_append,one] at longer
  omega

omit [DecidableEq Job] [DecidableEq Thread] in
theorem named_frame {state after : State Job Thread} (named : Named tablePrefix state) (frame : Frame state after) :
    Named tablePrefix after := by
  obtain ⟨elsewhere,tables,names,workers⟩ := frame
  constructor
  · rw [elsewhere]
    exact named.elsewhere
  · rw [names,tables]
    exact named.names
  · rw [workers]
    exact named.sought
  · rw [workers,tables]
    exact named.target

omit [DecidableEq Job] [DecidableEq Thread] in
theorem named_tables {state : State Job Thread} (named : Named tablePrefix state) (table : String) :
    Named tablePrefix {state with tables := table::state.tables} where
  elsewhere := named.elsewhere
  names := fun name inside => List.mem_cons_of_mem _ (named.names name inside)
  sought := named.sought
  target := fun thread name taken => List.mem_cons_of_mem _ (named.target thread name taken)

omit [DecidableEq Job] in
theorem named_move {state : State Job Thread} (named : Named tablePrefix state) (thread : Thread) {stage : Stage Job}
    (sought : ∀ table ∈ stage.sought, ∃ day, table = tableName tablePrefix day)
    (target : ∀ table ∈ stage.target, table ∈ state.tables) :
    Named tablePrefix (state.move thread stage) where
  elsewhere := named.elsewhere
  names := named.names
  sought := by
    intro place
    rw [move_workers]
    split
    · exact sought
    · exact named.sought place
  target := by
    intro place
    rw [move_workers]
    split
    · exact target
    · exact named.target place

omit [DecidableEq Job] [DecidableEq Thread] in
/-- A name found equal to the one that is sought has been assigned. -/
theorem currentTableName_mem {state : State Job Thread} (named : Named tablePrefix state) {seen : ℕ} {table : String}
    (dated : ∃ day, table = tableName tablePrefix day) (same : state.currentTableName tablePrefix seen = table) : table ∈ state.tables := by
  obtain ⟨day,rfl⟩ := dated
  apply named.names
  rw [State.currentTableName,List.getD_eq_getElem?_getD] at same
  cases found : state.names[seen]? with
  | none =>
    rw [found] at same
    exact absurd same.symm (tableName_ne day)
  | some name =>
    rw [found] at same
    exact same ▸ List.mem_of_getElem? found

theorem named_work {state : State Job Thread} (named : Named tablePrefix state) (thread : Thread) (outcome : Outcome)
    (seen : ℕ) : Named tablePrefix (state.work tablePrefix parses thread outcome seen) := by
  have sought := named.sought thread
  have target := named.target thread
  unfold State.work
  cases stage : state.workers thread with
  | idle => exact named
  | reserved job =>
    apply named_move named
    · split
      · rintro _ ⟨⟩
        exact ⟨_,rfl⟩
      · rintro _ ⟨⟩
    · split <;> rintro _ ⟨⟩
  | named job table =>
    rw [stage] at sought
    apply named_move named
    · split
      · rintro _ ⟨⟩
      · exact sought
    · split
      next same =>
        rintro _ ⟨⟩
        exact currentTableName_mem named (sought table rfl) same
      next => rintro _ ⟨⟩
  | locked job table =>
    rw [stage] at sought
    apply named_move named
    · split
      · rintro _ ⟨⟩
      · exact sought
    · split
      next same =>
        rintro _ ⟨⟩
        exact currentTableName_mem named (sought table rfl) same
      next => rintro _ ⟨⟩
  | asking job table =>
    rw [stage] at sought
    apply named_move named
    · split <;> rintro _ ⟨⟩
    · split
      next => rintro _ ⟨⟩
      next created =>
        rintro _ ⟨⟩
        exact isTableCreated_named named (sought table rfl) created
      next => rintro _ ⟨⟩
  | creating job table =>
    dsimp only
    rw [State.createDailyLogTable]
    split
    · apply named_move named <;> rintro _ ⟨⟩
    · cases outcome with
      | refused => apply named_move named <;> rintro _ ⟨⟩
      | done =>
        apply named_move (named_tables named table)
        · rintro _ ⟨⟩
        · rintro _ ⟨⟩
          exact List.mem_cons_self
      | unanswered => apply named_move (named_tables named table) <;> rintro _ ⟨⟩
  | assigning job table =>
    rw [stage] at target
    apply named_move
    · exact ⟨named.elsewhere,List.forall_mem_cons.mpr ⟨target table rfl,named.names⟩,named.sought,named.target⟩
    · rintro _ ⟨⟩
    · exact target
  | writing job table =>
    have kept := named_frame named (writeLog_frame state table job outcome)
    dsimp only
    generalize state.writeLog table job outcome = written at kept
    obtain ⟨threw,after⟩ := written
    apply named_move kept <;> cases threw <;> rintro _ ⟨⟩
  | deleting job =>
    apply named_move (named_frame named (delete_frame state thread job outcome)) <;> split <;> rintro _ ⟨⟩
  | releasing job =>
    apply named_move (named_frame named (release_frame state thread job outcome)) <;> rintro _ ⟨⟩

theorem named_step (state : State Job Thread) (event : Event Job Thread) (named : Named tablePrefix state)
    (apart : Apart tablePrefix event) : Named tablePrefix (step tablePrefix parses state event) := by
  cases event with
  | clock day => exact named_frame named ⟨rfl,rfl,rfl,rfl⟩
  | elsewhere tables => exact ⟨apart,named.names,named.sought,named.target⟩
  | submit job =>
    rw [step]
    split
    · exact named_frame named ⟨rfl,rfl,rfl,rfl⟩
    · exact named
  | reserve thread job =>
    rw [step]
    split
    · have kept : Named tablePrefix {state with status := Function.update state.status job (.reserved thread)} :=
        named_frame named ⟨rfl,rfl,rfl,rfl⟩
      apply named_move kept <;> rintro _ ⟨⟩
    · exact named
  | work thread outcome seen => exact named_work named thread outcome seen
  | expire job =>
    rw [step]
    split
    · exact named_frame named ⟨rfl,rfl,rfl,rfl⟩
    · exact named
  | abort thread => apply named_move named <;> rintro _ ⟨⟩

/-- However the workers interleave, also around midnight, a worker that is to write its
entry writes it to a table that is there, if no other schema ever has a table of a day. -/
theorem written_table_exists (today : String) (tables : List String) (events : List (Event Job Thread))
    (apart : ∀ event ∈ events, Apart tablePrefix event) (thread : Thread) {job : Job} {table : String}
    (writes : (final (step tablePrefix parses) {today := today,tables := tables} events).workers thread = .writing job table) :
    table ∈ (final (step tablePrefix parses) {today := today,tables := tables} events).tables := by
  have initial : Named tablePrefix ({today := today,tables := tables} : State Job Thread) :=
    ⟨by simp,by simp,by simp [Stage.sought],by simp [Stage.target]⟩
  have named : Named tablePrefix (final (step tablePrefix parses) {today := today,tables := tables} events) :=
    final_invariant named_step _ events initial (along_forall _ _ apart)
  apply named.target thread
  rw [writes]
  rfl

/-- Around midnight one worker creates the table that another one has asked for in vain. -/
def midnightRun : List (Event ℕ Bool) :=
  [.elsewhere ["user"],.submit 0,.submit 1,.reserve false 0,.reserve true 1,.clock "20160302",.work false .done 0,.work true .done 0,
    .work false .done 0,.work true .done 0,.work false .done 0,.work true .done 0,.work false .done 0,.work true .done 0,
    .work false .done 0,.work true .done 0,.work false .done 0]

theorem written_table_exists_midnight : "api_invoke_log_20160302" ∈
    (final (step "api_invoke_log" fun _ => true) {today := "20160301",tables := []} midnightRun).tables := by
  have writes : (final (step "api_invoke_log" fun _ => true) {today := "20160301",tables := []} midnightRun).workers false =
      .writing 0 "api_invoke_log_20160302" := by decide
  have apart : ∀ event ∈ midnightRun, Apart "api_invoke_log" event := by
    have long (day : String) : tableName "api_invoke_log" day ≠ "user" := fun same => by
      have sizes := congrArg String.length same
      rw [tableName,String.length_append,String.length_append] at sizes
      exact absurd (sizes.symm.trans_ge (Nat.le_add_right _ _)) (by decide)
    simp [midnightRun,Apart,long]
  exact written_table_exists "20160301" [] midnightRun apart false writes

/-- A table of the day in another schema is taken for the own one. -/
example : ∃ run : List (Event ℕ Unit), (final (step "log" fun _ => true) {today := "1",tables := []} run).workers () =
      .writing 0 "log_1" ∧ (final (step "log" fun _ => true) {today := "1",tables := []} run).tables = [] :=
  ⟨[.elsewhere ["log_1"],.submit 0,.reserve () 0,.work () .done 0,.work () .done 0,.work () .done 0,.work () .done 0,
    .work () .done 0],by decide⟩

omit [DecidableEq Job] in
/-- What a worker is to do replaces what it was to do in every sum over the workers. -/
theorem sum_move [Fintype Thread] (state : State Job Thread) (thread : Thread) (stage : Stage Job) (amount : Stage Job → ℕ) :
    ∑ place, amount ((state.move thread stage).workers place)+amount (state.workers thread) =
      ∑ place, amount (state.workers place)+amount stage :=
  Parties.sum_update state.workers thread stage amount

def written (state : State Job Thread) (job : Job) : ℕ := (state.rows.map Prod.snd).count job

def share (job : Job) (stage : Stage Job) : ℕ := if stage.held = some job then 1 else 0

def Status.waiting : Status Thread → ℕ
  | ready => 1
  | _ => 0

def Status.submitted : Status Thread → ℕ
  | absent => 0
  | _ => 1

/-- The rows of a job, and one more that the queue may still lead to. -/
def owed (state : State Job Thread) (job : Job) : ℕ := written state job+(state.status job).waiting

def allowed (state : State Job Thread) (job : Job) : ℕ := state.again job+(state.status job).submitted

/-- Every row and every worker that may write one goes back to the submission of the job or
to a repetition. What has left the queue has been written. -/
structure Accounted [Fintype Thread] (state : State Job Thread) : Prop where
  rows : ∀ job, owed state job+∑ thread, share job (state.workers thread) ≤ allowed state job
  deleting : ∀ thread job, state.workers thread = .deleting job → 0 < written state job
  deleted : ∀ job, state.status job = .deleted → 0 < written state job

variable [Fintype Thread]

theorem accounted_move {state after : State Job Thread} (accounted : Accounted state) {thread : Thread} {stage : Stage Job}
    (workers : after.workers = state.workers)
    (rows : ∀ job, owed after job+share job stage+allowed state job ≤
      owed state job+share job (state.workers thread)+allowed after job)
    (more : ∀ job, written state job ≤ written after job) (deleting : ∀ job, stage = .deleting job → 0 < written after job)
    (deleted : ∀ job, after.status job = .deleted → state.status job = .deleted ∨ 0 < written after job) :
    Accounted (after.move thread stage) where
  rows := by
    intro job
    have sum := sum_move after thread stage (share job)
    have before := accounted.rows job
    have change := rows job
    rw [workers] at sum
    change owed after job+_ ≤ allowed after job
    omega
  deleting := by
    intro place job at_
    rw [move_workers] at at_
    split at at_
    · exact deleting job at_
    · rw [workers] at at_
      exact (accounted.deleting place job at_).trans_le (more job)
  deleted := by
    intro job at_
    rcases deleted job at_ with before | now
    · exact (accounted.deleted job before).trans_le (more job)
    · exact now

/-- A step that concerns neither the queue nor the rows, of a worker that keeps its job or drops it. -/
theorem accounted_keep {state after : State Job Thread} (accounted : Accounted state) {thread : Thread} {stage : Stage Job}
    (workers : after.workers = state.workers) (queue : after.status = state.status) (same : after.rows = state.rows)
    (again : after.again = state.again) (held : ∀ job ∈ stage.held, (state.workers thread).held = some job)
    (open_ : ∀ job, stage ≠ .deleting job) : Accounted (after.move thread stage) := by
  have less (job : Job) : share job stage ≤ share job (state.workers thread) := by
    unfold share
    split
    next holds => rw [if_pos (held job holds)]
    next => exact Nat.zero_le _
  apply accounted_move accounted workers
  · intro job
    unfold owed allowed written
    rw [queue,same,again]
    exact Nat.add_le_add_right (Nat.add_le_add_left (less job) _) _
  · exact fun job => by rw [written,written,same]
  · exact fun job at_ => absurd at_ (open_ job)
  · exact fun job at_ => Or.inl (queue ▸ at_)

omit [DecidableEq Thread] [Fintype Thread] in
theorem share_held {stage : Stage Job} {job : Job} (held : stage.held = some job) (other : Job) :
    share other stage = if job = other then 1 else 0 := by
  simp only [share,held,Option.some.injEq]

omit [DecidableEq Thread] [Fintype Thread] in
theorem written_insert (state : State Job Thread) (table : String) (job other : Job) :
    written (state.insert table job) other = written state other+if job = other then 1 else 0 := by
  simp [written,State.insert,List.count_singleton,beq_iff_eq]

omit [DecidableEq Thread] [Fintype Thread] in
theorem owed_insert (state : State Job Thread) (table : String) (job other : Job) :
    owed (state.insert table job) other = owed state other+if job = other then 1 else 0 := by
  rw [owed,owed,written_insert]
  exact Nat.add_right_comm _ _ _

omit [DecidableEq Thread] [Fintype Thread] in
theorem allowed_repeats (state : State Job Thread) (job other : Job) :
    allowed (state.repeats job) other = allowed state other+if job = other then 1 else 0 := by
  unfold allowed State.repeats
  dsimp only
  rw [Function.update_apply]
  by_cases same : other = job
  · rw [if_pos same,if_pos same.symm,same]
    omega
  · rw [if_neg same,if_neg (Ne.symm same)]
    rfl

private theorem accounted_writeLog {state : State Job Thread} (accounted : Accounted state) {thread : Thread}
    {job : Job}
    {table : String} (outcome : Outcome) (stage : state.workers thread = .writing job table) :
    Accounted ((state.writeLog table job outcome).2.move thread
      (if (state.writeLog table job outcome).1 then .releasing job else .deleting job)) := by
  have gives : Accounted (state.move thread (.releasing job)) := by
    apply accounted_keep accounted rfl rfl rfl rfl
    · rw [stage]
      exact fun _ holds => holds
    · simp
  have held (other : Job) : share other (state.workers thread) = if job = other then 1 else 0 := by
    apply share_held
    rw [stage]
    rfl
  have more (other : Job) : written state other ≤ written (state.insert table job) other := by
    rw [written_insert]
    exact Nat.le_add_right _ _
  unfold State.writeLog
  split
  · cases outcome with
    | refused => exact gives
    | done =>
      change Accounted ((state.insert table job).move thread (.deleting job))
      apply accounted_move accounted
      · rfl
      · intro other
        change owed (state.insert table job) other+0+allowed state other ≤ _+_+allowed state other
        rw [owed_insert,held,Nat.add_zero]
      · exact more
      · rintro other ⟨⟩
        rw [written_insert,if_pos rfl]
        exact Nat.succ_pos _
      · exact fun other at_ => Or.inl at_
    | unanswered =>
      change Accounted (((state.insert table job).repeats job).move thread (.releasing job))
      apply accounted_move accounted
      · rfl
      · intro other
        have rows := owed_insert state table job other
        have again := allowed_repeats (state.insert table job) job other
        change owed (state.insert table job) other+share other (.releasing job)+_ ≤ _
        change allowed _ other = allowed state other+_ at again
        rw [rows,again,held,share_held rfl]
        omega
      · exact more
      · simp
      · exact fun other at_ => Or.inl at_
  · exact gives

private theorem accounted_delete {state : State Job Thread} (accounted : Accounted state) {thread : Thread}
    {job : Job}
    (outcome : Outcome) (stage : state.workers thread = .deleting job) :
    Accounted ((state.delete thread job outcome).move thread (if outcome.throws then .releasing job else .idle)) := by
  have row := accounted.deleting thread job stage
  have status (other : Job) : (state.delete thread job outcome).status other = state.status other ∨
      other = job ∧ state.status other = .reserved thread ∧ (state.delete thread job outcome).status other = .deleted := by
    unfold State.delete
    dsimp only
    split
    next own =>
      rw [Function.update_apply]
      by_cases same : other = job
      · rw [if_pos same]
        exact Or.inr ⟨same,same ▸ own.2,rfl⟩
      · exact Or.inl (if_neg same)
    next => exact Or.inl rfl
  have queue (other : Job) : owed (state.delete thread job outcome) other ≤ owed state other := by
    apply Nat.add_le_add_left
    rcases status other with same | ⟨_,_,deleted⟩
    · rw [same]
    · rw [deleted]
      exact Nat.zero_le _
  have again (other : Job) : allowed (state.delete thread job outcome) other =
      allowed state other+if outcome.throws then (if job = other then 1 else 0) else 0 := by
    have known : ((state.delete thread job outcome).status other).submitted = (state.status other).submitted := by
      rcases status other with same | ⟨_,reserved,deleted⟩
      · rw [same]
      · rw [reserved,deleted]
        rfl
    have counted := allowed_repeats state job other
    unfold allowed at counted ⊢
    rw [known]
    cases throws : outcome.throws with
    | true =>
      have same : (state.delete thread job outcome).again = (state.repeats job).again := by
        simp [State.delete,State.repeats,throws]
      rw [if_pos rfl,← counted,same]
      rfl
    | false => simp [State.delete,throws]
  apply accounted_move accounted
  · rfl
  · intro other
    have less := queue other
    rw [again,stage]
    cases outcome.throws with
    | true =>
      rw [if_pos rfl,if_pos rfl,share_held rfl]
      omega
    | false =>
      change _+0+_ ≤ _+0+(_+0)
      omega
  · exact fun _ => le_refl _
  · intro other at_
    split at at_ <;> cases at_
  · intro other at_
    rcases status other with same | ⟨rfl,_,_⟩
    · exact Or.inl (same ▸ at_)
    · exact Or.inr row

private theorem accounted_release {state : State Job Thread} (accounted : Accounted state) {thread : Thread}
    {job : Job}
    (outcome : Outcome) (stage : state.workers thread = .releasing job) :
    Accounted ((state.release thread job outcome).move thread .idle) := by
  have status (other : Job) : (state.release thread job outcome).status other = state.status other ∨
      other = job ∧ state.status other = .reserved thread ∧ (state.release thread job outcome).status other = .ready := by
    unfold State.release
    dsimp only
    split
    next own =>
      rw [Function.update_apply]
      by_cases same : other = job
      · rw [if_pos same]
        exact Or.inr ⟨same,same ▸ own.2,rfl⟩
      · exact Or.inl (if_neg same)
    next => exact Or.inl rfl
  apply accounted_move accounted
  · rfl
  · intro other
    rw [stage]
    change written state other+_+0+_ ≤ written state other+_+_+(state.again other+_)
    unfold allowed
    rcases status other with same | ⟨rfl,reserved,ready⟩
    · rw [same]
      omega
    · rw [reserved,ready,share_held rfl,if_pos rfl]
      change _+1+0+(_+1) ≤ _+0+1+(_+1)
      omega
  · exact fun _ => le_refl _
  · simp
  · intro other at_
    rcases status other with same | ⟨_,_,ready⟩
    · exact Or.inl (same ▸ at_)
    · rw [ready] at at_
      cases at_

private theorem accounted_work {state : State Job Thread} (accounted : Accounted state) (thread : Thread)
    (outcome : Outcome)
    (seen : ℕ) : Accounted (state.work tablePrefix parses thread outcome seen) := by
  unfold State.work
  cases stage : state.workers thread with
  | idle => exact accounted
  | reserved job =>
    apply accounted_keep accounted rfl rfl rfl rfl
    · rw [stage]
      split <;> exact fun _ held => held
    · intro other
      split <;> simp
  | named job table =>
    apply accounted_keep accounted rfl rfl rfl rfl
    · rw [stage]
      split <;> exact fun _ held => held
    · intro other
      split <;> simp
  | locked job table =>
    apply accounted_keep accounted rfl rfl rfl rfl
    · rw [stage]
      split <;> exact fun _ held => held
    · intro other
      split <;> simp
  | asking job table =>
    apply accounted_keep accounted rfl rfl rfl rfl
    · rw [stage]
      repeat' split
      all_goals exact fun _ held => held
    · intro other
      repeat' split
      all_goals simp
  | creating job table =>
    dsimp only
    have kept : (state.createDailyLogTable table outcome).2.workers = state.workers ∧
        (state.createDailyLogTable table outcome).2.status = state.status ∧
        (state.createDailyLogTable table outcome).2.rows = state.rows ∧
        (state.createDailyLogTable table outcome).2.again = state.again := by
      unfold State.createDailyLogTable
      split
      · exact ⟨rfl,rfl,rfl,rfl⟩
      · cases outcome <;> exact ⟨rfl,rfl,rfl,rfl⟩
    apply accounted_keep accounted kept.1 kept.2.1 kept.2.2.1 kept.2.2.2
    · rw [stage]
      split <;> exact fun _ held => held
    · intro other
      split <;> simp
  | assigning job table =>
    apply accounted_keep accounted
    · rfl
    · rfl
    · rfl
    · rfl
    · rw [stage]
      exact fun _ held => held
    · simp
  | writing job table => exact accounted_writeLog accounted outcome stage
  | deleting job => exact accounted_delete accounted outcome stage
  | releasing job => exact accounted_release accounted outcome stage

private theorem accounted_step (state : State Job Thread) (event : Event Job Thread)
    (accounted : Accounted state) :
    Accounted (step tablePrefix parses state event) := by
  cases event with
  | clock day => exact ⟨accounted.rows,accounted.deleting,accounted.deleted⟩
  | elsewhere tables => exact ⟨accounted.rows,accounted.deleting,accounted.deleted⟩
  | submit job =>
    rw [step]
    split
    next absent =>
      constructor
      · intro other
        have before := accounted.rows other
        unfold owed allowed at before ⊢
        change written state other+_+_ ≤ state.again other+_
        dsimp only
        rw [Function.update_apply]
        split
        next same =>
          subst same
          rw [absent] at before
          change _+0+_ ≤ _+0 at before
          change _+1+_ ≤ _+1
          omega
        next => exact before
      · exact accounted.deleting
      · intro other at_
        dsimp only at at_
        rw [Function.update_apply] at at_
        split at at_
        · cases at_
        · exact accounted.deleted other at_
    next => exact accounted
  | reserve thread job =>
    rw [step]
    split
    next both =>
      obtain ⟨idle,ready⟩ := both
      apply accounted_move accounted
      · rfl
      · intro other
        rw [idle,share_held rfl]
        change written state other+_+_+_ ≤ written state other+_+0+(state.again other+_)
        unfold allowed
        dsimp only
        rw [Function.update_apply]
        by_cases same : other = job
        · subst same
          rw [if_pos rfl,if_pos rfl,ready]
          change _+0+1+(_+1) ≤ _+1+0+(_+1)
          omega
        · rw [if_neg same,if_neg (Ne.symm same)]
      · exact fun _ => le_refl _
      · simp
      · intro other at_
        dsimp only at at_
        rw [Function.update_apply] at at_
        split at at_
        · cases at_
        · exact Or.inl at_
    next => exact accounted
  | work thread outcome seen => exact accounted_work accounted thread outcome seen
  | expire job =>
    rw [step]
    split
    next holder reserved =>
      constructor
      · intro other
        have before := accounted.rows other
        have again := allowed_repeats state job other
        unfold owed allowed at before again ⊢
        change written state other+_+∑ thread, share other (state.workers thread) ≤ (state.repeats job).again other+_
        dsimp only
        rw [Function.update_apply]
        by_cases same : other = job
        · subst same
          rw [if_pos rfl] at again ⊢
          rw [reserved] at before
          change _+0+_ ≤ _+1 at before
          change _+1+_ ≤ _+1
          change _+(state.status other).submitted = _ at again
          rw [reserved] at again
          change _+1 = _+1+1 at again
          omega
        · rw [if_neg same]
          rw [if_neg (Ne.symm same)] at again
          change _+(state.status other).submitted = _ at again
          omega
      · exact accounted.deleting
      · intro other at_
        dsimp only at at_
        rw [Function.update_apply] at at_
        split at at_
        · cases at_
        · exact accounted.deleted other at_
    next => exact accounted
  | abort thread =>
    apply accounted_keep accounted rfl rfl rfl rfl
    · rintro _ ⟨⟩
    · simp

/-- An entry that has left the queue has a row, and a second one only after a reservation
that ran out, an insert that threw after its effect, or a `delete` that threw. -/
theorem entry_rows (today : String) (tables : List String) (events : List (Event Job Thread)) (job : Job) :
    ((final (step tablePrefix parses) {today := today,tables := tables} events).status job = .deleted →
      0 < written (final (step tablePrefix parses) {today := today,tables := tables} events) job) ∧
    written (final (step tablePrefix parses) {today := today,tables := tables} events) job ≤
      (final (step tablePrefix parses) {today := today,tables := tables} events).again job+1 := by
  have initial : Accounted ({today := today,tables := tables} : State Job Thread) :=
    ⟨by simp [owed,written,share,Stage.held,Status.waiting],by simp,by simp⟩
  have accounted : Accounted (final (step tablePrefix parses) {today := today,tables := tables} events) :=
    final_always accounted_step _ events initial
  refine ⟨accounted.deleted job,?_⟩
  have bound := accounted.rows job
  unfold owed allowed at bound
  have once : ∀ status : Status Thread, status.submitted ≤ 1 := fun status => by cases status <;> simp [Status.submitted]
  have most := once ((final (step tablePrefix parses) {today := today,tables := tables} events).status job)
  omega

/-- One worker, and the table of the day is there. -/
def oneEntry : List (Event ℕ Unit) :=
  [.submit 0,.reserve () 0,.work () .done 0,.work () .done 0,.work () .done 0,.work () .done 0,.work () .done 0,
    .work () .done 0,.work () .done 0]

theorem entry_rows_one :
    0 < written (final (step "log" fun _ => true) {today := "1",tables := ["log_1"]} oneEntry) 0 ∧
      written (final (step "log" fun _ => true) {today := "1",tables := ["log_1"]} oneEntry) 0 ≤ 1 :=
  ⟨(entry_rows "1" ["log_1"] oneEntry 0).1 (by decide),(entry_rows "1" ["log_1"] oneEntry 0).2⟩

end YzFramework.Bizlogging.LogWorker
