import YzFramework.Data.MapperFactory

/-! `CheckFilter` over `MapperFactory`: one service thread, request after request. After a
request that does not throw past the filter, a transaction left open is rolled back and the
answer is an error; `ConnectionCleanInterceptor` does the same and only logs. -/
namespace YzFramework.Data
open Library.Run

def Physical.shift (offset : ℕ) : Physical → Physical
  | .getTransaction id => .getTransaction (offset+id)
  | .commit id => .commit (offset+id)
  | .rollback id => .rollback (offset+id)

/-- What a fresh manager would have done, done after `base`. -/
def TransactionManager.append (base alone : TransactionManager) : TransactionManager where
  opened := base.opened+alone.opened
  completed := alone.completed.map (base.opened+·)++base.completed
  log := base.log++alone.log.map (Physical.shift base.opened)

/-- Only transactions that have been opened are completed. -/
def TransactionManager.Bounded (manager : TransactionManager) : Prop := ∀ id ∈ manager.completed, id < manager.opened

namespace MapperFactory

/-- The status that `beginTransaction` gives back. -/
def beginStatus (factory : MapperFactory) : ℕ :=
  match factory.transactionstatusLocal with
  | none => factory.tranactionManager.opened
  | some status => status.transactionStatus

/-- The overload with a status, which may be null. A commit that throws has completed the
transaction, and the thread-local stays. -/
def commitStatus (factory : MapperFactory) (transactionStatus : Option ℕ) (throws : Bool) : MapperFactory :=
  match transactionStatus with
  | none => factory
  | some status =>
    if factory.tranactionManager.isCompleted status then {factory with transactionstatusLocal := none}
    else
      {transactionstatusLocal := if throws then factory.transactionstatusLocal else none,
        tranactionManager := factory.tranactionManager.commit status}

def realRollbackTransaction (factory : MapperFactory) : Bool × MapperFactory :=
  match factory.transactionstatusLocal with
  | some status => (true,factory.doRollback status)
  | none => (false,factory)

end MapperFactory

/-- `commitStatus` is given the status of a begin of the same request, by its number. -/
inductive Operation
  | call (call : Call)
  | commitStatus (index : ℕ) (throws : Bool)
deriving DecidableEq

structure Request where
  operations : List Operation
  throws : Bool := false
deriving DecidableEq

inductive Response
  | returned
  | uncomplete
  | threw
deriving DecidableEq

structure Invocation where
  factory : MapperFactory := {}
  statuses : List ℕ := []
deriving DecidableEq

namespace Invocation

def operate (invocation : Invocation) : Operation → Invocation
  | .call .begin =>
    ⟨invocation.factory.beginTransaction,invocation.statuses++[invocation.factory.beginStatus]⟩
  | .call call => {invocation with factory := Session.invoke invocation.factory call}
  | .commitStatus index throws =>
    {invocation with factory := invocation.factory.commitStatus invocation.statuses[index]? throws}

end Invocation

/-- `CheckFilter.invoke`. -/
def serve (factory : MapperFactory) (request : Request) : Response × MapperFactory :=
  let factory := (final Invocation.operate {factory := factory} request.operations).factory
  if request.throws then (.threw,factory)
  else
    let (found,factory) := factory.realRollbackTransaction
    (if found then .uncomplete else .returned,factory)

def serveAll (factory : MapperFactory) : List Request → List Response × MapperFactory
  | [] => ([],factory)
  | request::rest =>
    let (response,factory) := serve factory request
    let (responses,factory) := serveAll factory rest
    (response::responses,factory)

namespace CheckFilter
open TransactionManager

def onto (base : TransactionManager) (alone : MapperFactory) : MapperFactory where
  transactionstatusLocal := alone.transactionstatusLocal.map fun status =>
    {status with transactionStatus := base.opened+status.transactionStatus}
  tranactionManager := base.append alone.tranactionManager

def ontoInvocation (base : TransactionManager) (alone : Invocation) : Invocation :=
  ⟨onto base alone.factory,alone.statuses.map (base.opened+·)⟩

theorem onto_fresh (base : TransactionManager) : onto base {} = ⟨none,base⟩ := by
  simp [onto,append]

section
variable {base : TransactionManager} (bounded : base.Bounded)
include bounded

theorem append_isCompleted (alone : TransactionManager) (id : ℕ) :
    (base.append alone).isCompleted (base.opened+id) = alone.isCompleted id := by
  have before : base.opened+id ∉ base.completed := fun inside => absurd (bounded _ inside) (by omega)
  simp [isCompleted,append,before]

omit bounded in
theorem append_commit (alone : TransactionManager) (id : ℕ) :
    (base.append alone).commit (base.opened+id) = base.append (alone.commit id) := by
  simp [commit,append,Physical.shift]

omit bounded in
theorem append_rollback (alone : TransactionManager) (id : ℕ) :
    (base.append alone).rollback (base.opened+id) = base.append (alone.rollback id) := by
  simp [rollback,append,Physical.shift]

omit bounded in
theorem onto_beginTransaction (alone : MapperFactory) :
    (onto base alone).beginTransaction = onto base alone.beginTransaction := by
  unfold MapperFactory.beginTransaction
  cases held : alone.transactionstatusLocal with
  | none =>
    simp [onto,held,append,getTransaction,Physical.shift,CounterTransactionStatus.inreaseCounter,Nat.add_assoc]
  | some status => simp [onto,held,CounterTransactionStatus.inreaseCounter]

omit bounded in
theorem onto_beginStatus (alone : MapperFactory) : (onto base alone).beginStatus = base.opened+alone.beginStatus := by
  unfold MapperFactory.beginStatus
  cases held : alone.transactionstatusLocal <;> simp [onto,held,append]

theorem onto_doRollback (alone : MapperFactory) (status : CounterTransactionStatus) :
    (onto base alone).doRollback {status with transactionStatus := base.opened+status.transactionStatus} =
      onto base (alone.doRollback status) := by
  unfold MapperFactory.doRollback
  simp only [onto,append_isCompleted bounded,append_rollback,Option.map_none]
  split <;> rfl

theorem onto_commitTransaction (alone : MapperFactory) :
    (onto base alone).commitTransaction = onto base alone.commitTransaction := by
  unfold MapperFactory.commitTransaction
  cases held : alone.transactionstatusLocal with
  | none => simp [onto,held]
  | some status =>
    simp only [onto,held,Option.map_some,append_isCompleted bounded,append_commit]
    split
    · split <;> rfl
    · rw [held]
      rfl

theorem onto_rollbackTransaction (alone : MapperFactory) :
    (onto base alone).rollbackTransaction = onto base alone.rollbackTransaction := by
  unfold MapperFactory.rollbackTransaction
  cases held : alone.transactionstatusLocal with
  | none => simp [onto,held]
  | some status =>
    have outer : (onto base alone).transactionstatusLocal =
        some {status with transactionStatus := base.opened+status.transactionStatus} := by simp [onto,held]
    rw [outer]
    dsimp only
    by_cases zero : (status.decreaseCounter.counter == 0) = true
    · rw [if_pos zero]
      apply (if_pos zero).trans
      exact onto_doRollback bounded {alone with transactionstatusLocal := some status.decreaseCounter}
        status.decreaseCounter
    · rw [if_neg zero]
      exact if_neg zero

theorem onto_commitStatus (alone : MapperFactory) (transactionStatus : Option ℕ) (throws : Bool) :
    (onto base alone).commitStatus (transactionStatus.map (base.opened+·)) throws =
      onto base (alone.commitStatus transactionStatus throws) := by
  cases transactionStatus with
  | none => rfl
  | some status =>
    simp only [MapperFactory.commitStatus,Option.map_some,onto,append_isCompleted bounded,append_commit]
    split
    · rfl
    · cases throws <;> rfl

theorem onto_realRollbackTransaction (alone : MapperFactory) : (onto base alone).realRollbackTransaction =
    (alone.realRollbackTransaction.1,onto base alone.realRollbackTransaction.2) := by
  unfold MapperFactory.realRollbackTransaction
  cases held : alone.transactionstatusLocal with
  | none => simp [onto,held]
  | some status =>
    have moved := onto_doRollback bounded alone status
    simp only [onto,held,Option.map_some] at moved ⊢
    rw [moved]

theorem onto_operate (alone : Invocation) (operation : Operation) :
    (ontoInvocation base alone).operate operation = ontoInvocation base (alone.operate operation) := by
  match operation with
  | .call .begin => simp [Invocation.operate,ontoInvocation,onto_beginTransaction,onto_beginStatus]
  | .call .commit => simp [Invocation.operate,ontoInvocation,Session.invoke,onto_commitTransaction bounded]
  | .call .rollback => simp [Invocation.operate,ontoInvocation,Session.invoke,onto_rollbackTransaction bounded]
  | .commitStatus index throws =>
    have moved := onto_commitStatus bounded alone.factory alone.statuses[index]? throws
    simp only [Invocation.operate,ontoInvocation,List.getElem?_map,moved]

theorem onto_final (alone : Invocation) (operations : List Operation) :
    final Invocation.operate (ontoInvocation base alone) operations =
      ontoInvocation base (final Invocation.operate alone operations) := by
  induction operations generalizing alone with
  | nil => rfl
  | cons operation rest ih => rw [final_cons,final_cons,onto_operate bounded,ih]

/-- A thread without a transaction serves a request as a fresh one does. -/
theorem serve_onto (request : Request) :
    serve ⟨none,base⟩ request = ((serve {} request).1,onto base (serve {} request).2) := by
  have moved := onto_final bounded {} request.operations
  have start : ontoInvocation base {} = {factory := ⟨none,base⟩} := by
    rw [ontoInvocation,onto_fresh]
    rfl
  rw [start] at moved
  unfold serve
  rw [moved]
  dsimp only [ontoInvocation]
  split
  · rfl
  · rw [onto_realRollbackTransaction bounded]

end

/-- Every status that is about, held, given back or completed, is of an opened transaction. -/
structure Within (invocation : Invocation) : Prop where
  held : ∀ status ∈ invocation.factory.transactionstatusLocal,
    status.transactionStatus < invocation.factory.tranactionManager.opened
  completed : invocation.factory.tranactionManager.Bounded
  statuses : ∀ id ∈ invocation.statuses, id < invocation.factory.tranactionManager.opened

private theorem bounded_commit {manager : TransactionManager} (bounded : manager.Bounded) {id : ℕ}
    (inside : id < manager.opened) :
    (manager.commit id).Bounded := List.forall_mem_cons.mpr ⟨inside,bounded⟩

private theorem bounded_rollback {manager : TransactionManager} (bounded : manager.Bounded) {id : ℕ}
    (inside : id < manager.opened) : (manager.rollback id).Bounded := List.forall_mem_cons.mpr ⟨inside,bounded⟩

/-- What became of the thread's transaction: nothing or its end. -/
theorem within_ends {invocation : Invocation} (within : Within invocation) {manager : TransactionManager}
    {held : Option CounterTransactionStatus} (opened : manager.opened = invocation.factory.tranactionManager.opened)
    (bounded : manager.Bounded)
    (kept : ∀ status ∈ held, ∃ old ∈ invocation.factory.transactionstatusLocal,
      status.transactionStatus = old.transactionStatus) :
    Within ⟨⟨held,manager⟩,invocation.statuses⟩ where
  held := by
    intro status inside
    obtain ⟨old,before,same⟩ := kept status inside
    rw [same,opened]
    exact within.held old before
  completed := bounded
  statuses := by
    rw [opened]
    exact within.statuses

private theorem within_doRollback {invocation : Invocation} (within : Within invocation)
    {status old : CounterTransactionStatus}
    (held : old ∈ invocation.factory.transactionstatusLocal) (same : status.transactionStatus = old.transactionStatus) :
    Within ⟨invocation.factory.doRollback status,invocation.statuses⟩ := by
  unfold MapperFactory.doRollback
  split
  · exact within_ends within rfl within.completed (by simp)
  · apply within_ends within
    · rfl
    · apply bounded_rollback within.completed
      rw [same]
      exact within.held old held
    · simp

private theorem within_operate {invocation : Invocation} (within : Within invocation) (operation : Operation) :
    Within (invocation.operate operation) := by
  obtain ⟨factory,statuses⟩ := invocation
  match operation with
  | .call .begin =>
    unfold Invocation.operate MapperFactory.beginTransaction MapperFactory.beginStatus
    cases held : factory.transactionstatusLocal with
    | none =>
      constructor
      · intro status inside
        obtain rfl := Option.some.inj inside
        exact Nat.lt_succ_self _
      · exact fun id inside => (within.completed id inside).trans (Nat.lt_succ_self _)
      · intro id inside
        rcases List.mem_append.mp inside with before | now
        · exact (within.statuses id before).trans (Nat.lt_succ_self _)
        · rw [List.mem_singleton.mp now]
          exact Nat.lt_succ_self _
    | some status =>
      have inside := within.held status held
      constructor
      · intro next same
        obtain rfl := Option.some.inj same
        exact inside
      · exact within.completed
      · intro id member
        rcases List.mem_append.mp member with before | now
        · exact within.statuses id before
        · rw [List.mem_singleton.mp now]
          exact inside
  | .call .commit =>
    unfold Invocation.operate Session.invoke MapperFactory.commitTransaction
    dsimp only
    split
    · exact within
    next status held =>
      split
      · apply within_ends within
        · split <;> rfl
        · split
          · exact within.completed
          · exact bounded_commit within.completed (within.held status held)
        · simp
      · exact within
  | .call .rollback =>
    unfold Invocation.operate Session.invoke MapperFactory.rollbackTransaction
    dsimp only
    split
    · exact within
    next status held =>
      have lower : Within ⟨{factory with transactionstatusLocal := some status.decreaseCounter},statuses⟩ := by
        apply within_ends within rfl within.completed
        intro next same
        obtain rfl := Option.some.inj same
        exact ⟨status,held,rfl⟩
      split
      · exact within_doRollback lower rfl rfl
      · exact lower
  | .commitStatus index throws =>
    unfold Invocation.operate MapperFactory.commitStatus
    dsimp only
    split
    · exact within
    next status given =>
      split
      · exact within_ends within rfl within.completed (by simp)
      · apply within_ends within
        · rfl
        · exact bounded_commit within.completed (within.statuses status (List.mem_of_getElem? given))
        · intro next same
          cases throws with
          | true => exact ⟨next,same,rfl⟩
          | false => simp at same

private theorem within_final (operations : List Operation) :
    Within (final Invocation.operate {} operations) := by
  have start : Within {} := ⟨by simp,by simp [Bounded],by simp⟩
  have kept (invocation : Invocation) (operation : Operation) (within : Within invocation) :
      Within (invocation.operate operation) := within_operate within operation
  exact final_always kept _ operations start

theorem serve_returns (factory : MapperFactory) {request : Request} (returns : request.throws = false) :
    serve factory request =
      let checked := (final Invocation.operate {factory := factory} request.operations).factory.realRollbackTransaction
      (if checked.1 then .uncomplete else .returned,checked.2) := by
  unfold serve
  rw [returns]
  rfl

theorem serve_bounded (request : Request) : (serve {} request).2.tranactionManager.Bounded := by
  have within := within_final request.operations
  cases throws : request.throws with
  | true =>
    unfold serve
    rw [throws]
    exact within.completed
  | false =>
    rw [serve_returns {} throws]
    dsimp only
    unfold MapperFactory.realRollbackTransaction
    split
    next status held => exact (within_doRollback within held rfl).completed
    next => exact within.completed

theorem append_bounded {base alone : TransactionManager} (before : base.Bounded) (bounded : alone.Bounded) :
    (base.append alone).Bounded := by
  intro id inside
  rcases List.mem_append.mp inside with moved | old
  · obtain ⟨inner,member,rfl⟩ := List.mem_map.mp moved
    exact Nat.add_lt_add_left (bounded inner member) _
  · exact (before id old).trans_le (Nat.le_add_right _ _)

theorem serve_returns_closed (factory : MapperFactory) {request : Request} (returns : request.throws = false) :
    (serve factory request).2.transactionstatusLocal = none := by
  rw [serve_returns factory returns]
  dsimp only
  unfold MapperFactory.realRollbackTransaction
  split
  next => rfl
  next held => exact held

theorem serve_closed {request : Request}
    (closed : request.throws → (serve {} request).2.transactionstatusLocal = none) :
    (serve {} request).2.transactionstatusLocal = none := by
  cases throws : request.throws with
  | true => exact closed throws
  | false => exact serve_returns_closed {} throws

theorem serveAll_eq (requests : List Request)
    (closed : ∀ request ∈ requests, request.throws → (serve {} request).2.transactionstatusLocal = none) :
    serveAll {} requests = (requests.map fun request => (serve {} request).1,
      ⟨none,(requests.map fun request => (serve {} request).2.tranactionManager).foldl append {}⟩) := by
  suffices each : ∀ base : TransactionManager, base.Bounded → serveAll ⟨none,base⟩ requests =
      (requests.map fun request => (serve {} request).1,
        ⟨none,(requests.map fun request => (serve {} request).2.tranactionManager).foldl append base⟩) by
    exact each {} (by simp [Bounded])
  induction requests with
  | nil => exact fun _ _ => rfl
  | cons request rest ih =>
    intro base bounded
    have left := serve_closed (closed request List.mem_cons_self)
    have next : onto base (serve {} request).2 = ⟨none,base.append (serve {} request).2.tranactionManager⟩ := by
      rw [onto,left]
      rfl
    rw [serveAll,serve_onto bounded]
    dsimp only
    rw [next,ih (fun other inside => closed other (List.mem_cons_of_mem _ inside)) _
      (append_bounded bounded (serve_bounded request))]
    rfl

/-- A request that throws with its transaction open hands it on to the next one. -/
example : serveAll {} [⟨[.call .begin],true⟩,⟨[],false⟩] =
    ([.threw,.uncomplete],⟨none,⟨1,[0],[.getTransaction 0,.rollback 0]⟩⟩) := by decide

/-- A commit by status that takes effect on the thread-local finds there no other transaction
that is still open. -/
def Own (invocation : Invocation) : Operation → Prop
  | .call _ => True
  | .commitStatus index throws => ∀ status ∈ invocation.statuses[index]?,
      (throws = true → status ∈ invocation.factory.tranactionManager.completed) →
      ∀ held ∈ invocation.factory.transactionstatusLocal,
        held.transactionStatus ∉ invocation.factory.tranactionManager.completed → held.transactionStatus = status

structure Ended (factory : MapperFactory) : Prop where
  once : factory.tranactionManager.completed.Nodup
  all : ∀ id < factory.tranactionManager.opened, id ∈ factory.tranactionManager.completed ∨
    ∃ status ∈ factory.transactionstatusLocal, status.transactionStatus = id

private theorem not_isCompleted {manager : TransactionManager} {id : ℕ} :
    ¬ manager.isCompleted id = true ↔ id ∉ manager.completed := by
  simp [isCompleted]

theorem ended_commit {factory : MapperFactory} (ended : Ended factory) {id : ℕ}
    (live : ¬ factory.tranactionManager.isCompleted id = true) {held : Option CounterTransactionStatus}
    (kept : ∀ status ∈ factory.transactionstatusLocal, status.transactionStatus ∈ id::factory.tranactionManager.completed ∨
      ∃ next ∈ held, next.transactionStatus = status.transactionStatus) :
    Ended ⟨held,factory.tranactionManager.commit id⟩ ∧ Ended ⟨held,factory.tranactionManager.rollback id⟩ := by
  have once : (id::factory.tranactionManager.completed).Nodup := List.nodup_cons.mpr ⟨not_isCompleted.mp live,ended.once⟩
  have all : ∀ other < factory.tranactionManager.opened, other ∈ id::factory.tranactionManager.completed ∨
      ∃ status ∈ held, status.transactionStatus = other := by
    intro other inside
    rcases ended.all other inside with before | ⟨status,here,rfl⟩
    · exact Or.inl (List.mem_cons_of_mem _ before)
    · exact kept status here
  exact ⟨⟨once,all⟩,⟨once,all⟩⟩

/-- The thread-local may be removed or changed when its transaction is completed or goes on. -/
theorem ended_local {factory : MapperFactory} (ended : Ended factory) {held : Option CounterTransactionStatus}
    (kept : ∀ status ∈ factory.transactionstatusLocal, status.transactionStatus ∈ factory.tranactionManager.completed ∨
      ∃ next ∈ held, next.transactionStatus = status.transactionStatus) :
    Ended {factory with transactionstatusLocal := held} where
  once := ended.once
  all := by
    intro id inside
    rcases ended.all id inside with before | ⟨status,here,rfl⟩
    · exact Or.inl before
    · exact kept status here

private theorem ended_doRollback {factory : MapperFactory} (ended : Ended factory)
    {status : CounterTransactionStatus}
    (held : factory.transactionstatusLocal = some status) : Ended (factory.doRollback status) := by
  unfold MapperFactory.doRollback
  split
  next done =>
    apply ended_local ended
    rw [held]
    rintro _ ⟨⟩
    exact Or.inl (by simpa [isCompleted] using done)
  next live =>
    apply (ended_commit ended live ?_).2
    rw [held]
    rintro _ ⟨⟩
    exact Or.inl List.mem_cons_self

private theorem ended_operate {invocation : Invocation} (operation : Operation)
    (ended : Ended invocation.factory)
    (own : Own invocation operation) : Ended (invocation.operate operation).factory := by
  obtain ⟨factory,statuses⟩ := invocation
  match operation with
  | .call .begin =>
    unfold Invocation.operate MapperFactory.beginTransaction
    dsimp only
    split
    next held =>
      refine ⟨ended.once,fun id inside => ?_⟩
      rcases Nat.lt_succ_iff_lt_or_eq.mp inside with before | rfl
      · rcases ended.all id before with done | ⟨status,here,_⟩
        · exact Or.inl done
        · exact absurd (held.symm.trans here) (by simp)
      · exact Or.inr ⟨_,rfl,rfl⟩
    next status held =>
      apply ended_local ended
      rw [held]
      rintro _ ⟨⟩
      exact Or.inr ⟨_,rfl,rfl⟩
  | .call .commit =>
    unfold Invocation.operate Session.invoke MapperFactory.commitTransaction
    dsimp only
    split
    · exact ended
    next status held =>
      split
      · split
        next done =>
          apply ended_local ended
          rw [held]
          rintro _ ⟨⟩
          exact Or.inl (by simpa [isCompleted] using done)
        next live =>
          apply (ended_commit ended live ?_).1
          rw [held]
          rintro _ ⟨⟩
          exact Or.inl List.mem_cons_self
      · exact ended
  | .call .rollback =>
    unfold Invocation.operate Session.invoke MapperFactory.rollbackTransaction
    dsimp only
    split
    · exact ended
    next status held =>
      have lower : Ended {factory with transactionstatusLocal := some status.decreaseCounter} := by
        apply ended_local ended
        rw [held]
        rintro _ ⟨⟩
        exact Or.inr ⟨_,rfl,rfl⟩
      split
      · exact ended_doRollback lower rfl
      · exact lower
  | .commitStatus index throws =>
    unfold Invocation.operate MapperFactory.commitStatus
    dsimp only
    split
    · exact ended
    next status given =>
      have same := own status given
      split
      next done =>
        have inside : status ∈ factory.tranactionManager.completed := by simpa [isCompleted] using done
        apply ended_local ended
        intro held here
        apply Or.inl
        by_contra live
        exact live (same (fun _ => inside) held here live ▸ inside)
      next live =>
        apply (ended_commit ended live ?_).1
        intro held here
        cases throws with
        | true => exact Or.inr ⟨held,here,rfl⟩
        | false =>
          apply Or.inl
          by_cases done : held.transactionStatus ∈ factory.tranactionManager.completed
          · exact List.mem_cons_of_mem _ done
          · rw [same (by simp) held here done]
            exact List.mem_cons_self

private theorem ended_perm {factory : MapperFactory} (ended : Ended factory)
    (bounded : factory.tranactionManager.Bounded)
    (closed : factory.transactionstatusLocal = none) :
    factory.tranactionManager.completed.Perm (List.range factory.tranactionManager.opened) := by
  apply (List.perm_ext_iff_of_nodup ended.once List.nodup_range).mpr
  intro id
  rw [List.mem_range]
  refine ⟨bounded id,fun inside => ?_⟩
  rcases ended.all id inside with done | ⟨_,here,_⟩
  · exact done
  · rw [closed] at here
    exact absurd here (by simp)

private theorem ended_start : Ended ({} : Invocation).factory := ⟨List.nodup_nil,by simp⟩

private theorem ended_final {operations : List Operation} (own : Along Invocation.operate Own {} operations) :
    Ended (final Invocation.operate {} operations).factory := by
  have kept (invocation : Invocation) (operation : Operation) (ended : Ended invocation.factory)
      (fit : Own invocation operation) : Ended (invocation.operate operation).factory :=
    ended_operate operation ended fit
  exact final_invariant kept _ operations ended_start own

theorem serve_ended {request : Request} (own : Along Invocation.operate Own {} request.operations) :
    Ended (serve {} request).2 := by
  have ended := ended_final own
  cases throws : request.throws with
  | true =>
    unfold serve
    rw [throws]
    exact ended
  | false =>
    rw [serve_returns {} throws]
    dsimp only
    unfold MapperFactory.realRollbackTransaction
    split
    next status held => exact ended_doRollback ended held
    next => exact ended

theorem append_perm {base alone : TransactionManager} (before : base.completed.Perm (List.range base.opened))
    (now : alone.completed.Perm (List.range alone.opened)) :
    (base.append alone).completed.Perm (List.range (base.append alone).opened) := by
  simp only [append]
  rw [List.range_add]
  exact List.perm_append_comm.trans (before.append (now.map _))

theorem serveAll_perm (requests : List Request)
    (closed : ∀ request ∈ requests, request.throws → (serve {} request).2.transactionstatusLocal = none)
    (own : ∀ request ∈ requests, Along Invocation.operate Own {} request.operations) :
    (serveAll {} requests).2.tranactionManager.completed.Perm
      (List.range (serveAll {} requests).2.tranactionManager.opened) := by
  rw [serveAll_eq requests closed]
  suffices each : ∀ base : TransactionManager, base.completed.Perm (List.range base.opened) →
      ((requests.map fun request => (serve {} request).2.tranactionManager).foldl append base).completed.Perm
        (List.range ((requests.map fun request => (serve {} request).2.tranactionManager).foldl append base).opened) by
    exact each {} (List.Perm.refl [])
  induction requests with
  | nil => exact fun _ before => before
  | cons request rest ih =>
    intro base before
    have ended := serve_ended (own request List.mem_cons_self)
    apply ih (fun other inside => closed other (List.mem_cons_of_mem _ inside))
      (fun other inside => own other (List.mem_cons_of_mem _ inside))
    exact append_perm before
      (ended_perm ended (serve_bounded request) (serve_closed (closed request List.mem_cons_self)))

/-- A begin that asks for a transaction finds none open on the thread that it would join. -/
def Unjoined (invocation : Invocation) : Operation → Prop
  | .call .begin => invocation.factory.transactionstatusLocal = none →
      ∀ id < invocation.factory.tranactionManager.opened, id ∈ invocation.factory.tranactionManager.completed
  | _ => True

private theorem unjoined_of_ended {invocation : Invocation} (ended : Ended invocation.factory)
    (operation : Operation) :
    Unjoined invocation operation := by
  match operation with
  | .call .begin =>
    intro none id inside
    rcases ended.all id inside with done | ⟨status,here,_⟩
    · exact done
    · exact absurd (none.symm.trans here) (by simp)
  | .call .commit => trivial
  | .call .rollback => trivial
  | .commitStatus index throws => trivial

private theorem unjoined_onto {base : TransactionManager} (done : ∀ id < base.opened, id ∈ base.completed)
    {alone : Invocation} {operation : Operation} (unjoined : Unjoined alone operation) :
    Unjoined (ontoInvocation base alone) operation := by
  match operation with
  | .call .begin =>
    intro none id inside
    have alone' := unjoined (by simpa [ontoInvocation,onto] using none)
    change id < base.opened+alone.factory.tranactionManager.opened at inside
    refine List.mem_append.mpr ?_
    rcases Nat.lt_or_ge id base.opened with before | now
    · exact Or.inr (done id before)
    · refine Or.inl (List.mem_map.mpr ⟨id-base.opened,alone' _ (by omega),by omega⟩)
  | .call .commit => trivial
  | .call .rollback => trivial
  | .commitStatus index throws => trivial

private theorem along_unjoined {base : TransactionManager} (perm : base.completed.Perm (List.range base.opened))
    {alone : Invocation} {operations : List Operation} (ended : Ended alone.factory)
    (own : Along Invocation.operate Own alone operations) :
    Along Invocation.operate Unjoined (ontoInvocation base alone) operations := by
  have done (id : ℕ) (inside : id < base.opened) : id ∈ base.completed := perm.mem_iff.mpr (List.mem_range.mpr inside)
  have bounded : base.Bounded := fun id inside => List.mem_range.mp (perm.mem_iff.mp inside)
  induction operations generalizing alone with
  | nil => trivial
  | cons operation rest ih =>
    refine ⟨unjoined_onto done (unjoined_of_ended ended operation),?_⟩
    rw [onto_operate bounded]
    exact ih (ended_operate operation ended own.1) own.2

/-- However requests follow each other on a thread, each is answered and works on the data
source as if it were the thread's first, and no begin finds a transaction to join, as long
as a request that throws has none open and no commit by status closes another's bracket. -/
theorem serveAll_isolated (requests : List Request)
    (closed : ∀ request ∈ requests, request.throws → (serve {} request).2.transactionstatusLocal = none)
    (own : ∀ request ∈ requests, Along Invocation.operate Own {} request.operations) :
    serveAll {} requests = (requests.map fun request => (serve {} request).1,
        ⟨none,(requests.map fun request => (serve {} request).2.tranactionManager).foldl append {}⟩) ∧
      ∀ before request after, requests = before++request::after →
        Along Invocation.operate Unjoined {factory := (serveAll {} before).2} request.operations := by
  refine ⟨serveAll_eq requests closed,?_⟩
  rintro before request after rfl
  have earlier (other : Request) (inside : other ∈ before) : other ∈ before++request::after :=
    List.mem_append_left _ inside
  have perm := serveAll_perm before (fun other inside => closed other (earlier other inside))
    fun other inside => own other (earlier other inside)
  have along := along_unjoined perm ended_start (own request (by simp))
  have start : ontoInvocation (serveAll {} before).2.tranactionManager {} = {factory := (serveAll {} before).2} := by
    rw [ontoInvocation,onto_fresh,serveAll_eq before fun other inside => closed other (earlier other inside)]
    rfl
  rwa [start] at along

theorem serveAll_isolated_leak :
    serveAll {} [⟨[.call .begin,.call .begin,.call .commit],false⟩,⟨[.call .begin,.commitStatus 0 false],true⟩,
        ⟨[.call .begin,.call .commit],false⟩] =
      ([.uncomplete,.threw,.returned],⟨none,⟨3,[2,1,0],[.getTransaction 0,.rollback 0,.getTransaction 1,.commit 1,
        .getTransaction 2,.commit 2]⟩⟩) :=
  (serveAll_isolated [⟨[.call .begin,.call .begin,.call .commit],false⟩,⟨[.call .begin,.commitStatus 0 false],true⟩,
    ⟨[.call .begin,.call .commit],false⟩] (by decide) (by
      simp [Invocation.operate,Own,MapperFactory.beginTransaction,MapperFactory.beginStatus,getTransaction,
        CounterTransactionStatus.inreaseCounter])).1

/-- When all requests return and no commit by status closes the bracket of another open
transaction, every transaction that the thread has opened is ended, and once. -/
theorem serveAll_completed (requests : List Request) (returns : ∀ request ∈ requests, request.throws = false)
    (own : ∀ request ∈ requests, Along Invocation.operate Own {} request.operations) :
    (serveAll {} requests).2.tranactionManager.completed.Perm
      (List.range (serveAll {} requests).2.tranactionManager.opened) :=
  serveAll_perm requests (fun request inside throws => absurd throws (by simp [returns request inside])) own

theorem serveAll_completed_two :
    (serveAll {} [⟨[.call .begin,.call .begin,.commitStatus 1 false],false⟩,⟨[.call .begin],false⟩]).2.tranactionManager.completed.Perm
      (List.range 2) := by
  apply serveAll_completed [⟨[.call .begin,.call .begin,.commitStatus 1 false],false⟩,⟨[.call .begin],false⟩] (by decide)
  simp [Invocation.operate,Own,MapperFactory.beginTransaction,MapperFactory.beginStatus,getTransaction,
    CounterTransactionStatus.inreaseCounter]

/-- A commit by the status of an earlier bracket forgets the open transaction. -/
example : (serve {} ⟨[.call .begin,.commitStatus 0 false,.call .begin,.commitStatus 0 false],false⟩).2.tranactionManager =
    ⟨2,[0],[.getTransaction 0,.commit 0,.getTransaction 1]⟩ := by decide

/-- No close without an open bracket. -/
def Opens (session : Session) (call : Call) : Prop := call ≠ .begin → 0 < session.nested.depth

/-- No commit inside another bracket. -/
def Outer (session : Session) (call : Call) : Prop := call = .commit → session.nested.depth < 2

/-- The counter is ahead of the brackets, so that no close brings it down: the transaction
stays, and the manager is asked for nothing. -/
structure Stuck (session : Session) (id : ℕ) (manager : TransactionManager) (bound : ℕ) : Prop where
  manager : session.factory.tranactionManager = manager
  held : ∃ counter, session.factory.transactionstatusLocal = some ⟨id,counter⟩ ∧
    session.nested.depth < counter.toNat ∧ counter.toNat ≤ bound

private theorem slt_two {counter : BitVec 32} (small : counter.toNat < 2^31) :
    counter.slt 2 = true ↔ counter.toNat < 2 := by
  rw [BitVec.slt_iff_toInt_lt,Library.Word.toInt_of_small _ (by omega),show (2 : BitVec 32).toInt = 2 by decide]
  omega

section
variable {id bound : ℕ} {manager : TransactionManager}

private theorem stuck_step {session : Session} {call : Call} (stuck : Stuck session id manager bound)
    (small : bound+1 < 2^31)
    (opens : Opens session call) : Stuck (session.step call) id manager (bound+1) := by
  obtain ⟨unasked,counter,held,ahead,below⟩ := stuck
  cases call with
  | begin =>
    have begun : session.factory.beginTransaction =
        {session.factory with transactionstatusLocal := some ⟨id,counter+1⟩} := by
      simp [MapperFactory.beginTransaction,held,CounterTransactionStatus.inreaseCounter]
    have counted : (counter+1).toNat = counter.toNat+1 := by bv_omega
    have deeper : (session.nested.step .begin).depth = session.nested.depth+1 := by
      simp only [Nested.step]
      split
      next zero => rw [zero]
      next => rfl
    refine ⟨?_,counter+1,?_,?_,?_⟩
    · rw [Session.step,Session.invoke,begun]
      exact unasked
    · rw [Session.step,Session.invoke,begun]
    · rw [Session.step,deeper,counted]
      omega
    · omega
  | commit =>
    have deep := opens (by simp)
    have above : ¬ counter.slt 2 = true := by
      rw [slt_two (by omega)]
      omega
    have waits := MapperFactory.commitTransaction_waits held above
    refine ⟨?_,counter,?_,?_,by omega⟩
    · rw [Session.step,Session.invoke,waits]
      exact unasked
    · rw [Session.step,Session.invoke,waits,held]
    · rw [Session.step,Nested.step,Nested.close_depth]
      omega
  | rollback =>
    have deep := opens (by simp)
    have more : counter ≠ 1 := by
      rintro rfl
      exact absurd ahead (by simp; omega)
    have waits := MapperFactory.rollbackTransaction_waits held more
    have counted : (counter-1).toNat = counter.toNat-1 := by bv_omega
    refine ⟨?_,counter-1,?_,?_,?_⟩
    · rw [Session.step,Session.invoke,waits]
      exact unasked
    · rw [Session.step,Session.invoke,waits]
    · rw [Session.step,Nested.step,Nested.close_depth,counted]
      omega
    · rw [counted]
      omega

private theorem stuck_final {session : Session} (calls : List Call) (stuck : Stuck session id manager bound)
    (small : bound+calls.length < 2^31) (opens : Along Session.step Opens session calls) :
    ∃ later, Stuck (final Session.step session calls) id manager later := by
  induction calls generalizing session bound with
  | nil => exact ⟨bound,stuck⟩
  | cons call rest ih =>
    rw [List.length_cons] at small
    exact ih (stuck_step stuck (by omega) opens.1) (by omega) opens.2

end

theorem countInner_outer {session : Session} {call : Call} (none : session.innerCommits = 0) (outer : Outer session call) :
    (session.step call).innerCommits = 0 := by
  cases call with
  | begin => simp [Session.step,Session.countInner,none]
  | commit =>
    have shallow := outer rfl
    rw [Session.step,Session.countInner,if_neg (by omega),none]
  | rollback => exact none

private theorem stuck_inner {session : Session} (tracks : Session.Tracks session)
    (none : session.innerCommits = 0)
    (deep : 2 ≤ session.nested.depth) (small : session.nested.depth < 2^31) :
    Stuck (session.step .commit) (session.nested.opened-1) session.factory.tranactionManager session.nested.depth := by
  have held := tracks.held (show session.nested.depth = (session.nested.depth-1)+1 by omega)
  have counted : session.weight.toNat = session.nested.depth := by
    rw [Session.weight,none,BitVec.toNat_ofNat]
    omega
  have waits := MapperFactory.commitTransaction_waits held fun below => by
    rw [slt_two (by rw [counted]; exact small),counted] at below
    omega
  refine ⟨?_,session.weight,?_,?_,counted.le⟩
  · rw [Session.step,Session.invoke,waits]
  · rw [Session.step,Session.invoke,waits,held]
  · rw [Session.step,Nested.step,Nested.close_depth,counted]
    omega

/-- Until a commit is nested the factory follows the brackets. -/
theorem outer_tracks {session : Session} (calls : List Call) (tracks : Session.Tracks session)
    (none : session.innerCommits = 0) (small : session.nested.depth+calls.length < 2^31)
    (outer : Along Session.step Outer session calls) :
    Session.Tracks (final Session.step session calls) ∧ (final Session.step session calls).innerCommits = 0 ∧
      (final Session.step session calls).nested.depth ≤ session.nested.depth+calls.length := by
  induction calls generalizing session with
  | nil => exact ⟨tracks,none,Nat.le_refl _⟩
  | cons call rest ih =>
    rw [List.length_cons] at small ⊢
    have fits := (Session.fits_iff_plain session call (by omega)).mpr fun _ _ => none
    have grows := Session.step_small session call
    have stays := countInner_outer none outer.1
    obtain ⟨kept,later,deep⟩ := ih ((Session.step_tracks tracks call).2 fits) stays (by omega) outer.2
    exact ⟨kept,later,by rw [final_cons]; omega⟩

theorem final_calls (calls : List Call) (invocation : Invocation) (session : Session)
    (same : invocation.factory = session.factory) :
    (final Invocation.operate invocation (calls.map .call)).factory = (final Session.step session calls).factory := by
  induction calls generalizing invocation session with
  | nil => exact same
  | cons call rest ih =>
    rw [List.map_cons,final_cons,final_cons]
    apply ih
    cases call <;> simp [Invocation.operate,Session.step,Session.invoke,same]

theorem serve_calls (calls : List Call) : serve {} ⟨calls.map .call,false⟩ =
    let checked := (final Session.step {} calls).factory.realRollbackTransaction
    (if checked.1 then .uncomplete else .returned,checked.2) := by
  rw [serve_returns {} rfl]
  dsimp only
  rw [final_calls calls {} {} rfl]

theorem serve_outer {calls : List Call} (closed : (final Session.step {} calls).nested.depth = 0)
    (small : calls.length < 2^31) (outer : Along Session.step Outer {} calls) :
    (serve {} ⟨calls.map .call,false⟩).1 = .returned ∧
      (serve {} ⟨calls.map .call,false⟩).2.tranactionManager.log = (final Session.step {} calls).nested.log := by
  obtain ⟨tracks,_⟩ := outer_tracks calls Session.start_tracks rfl (by simpa using small) outer
  rw [serve_calls,MapperFactory.realRollbackTransaction,tracks.unheld closed]
  exact ⟨rfl,tracks.agrees.log⟩

/-- From the first inner commit on the factory is stuck, and the filter rolls back. -/
theorem serve_inner {before after : List Call} (opens : Along Session.step Opens {} (before++.commit::after))
    (small : (before++.commit::after).length < 2^31) (outer : Along Session.step Outer {} before)
    (deep : 2 ≤ (final Session.step {} before).nested.depth) :
    (serve {} ⟨(before++.commit::after).map .call,false⟩).1 = .uncomplete ∧
      (serve {} ⟨(before++.commit::after).map .call,false⟩).2.tranactionManager.log =
        (final Session.step {} before).nested.log++
          [.rollback ((final Session.step {} before).nested.opened-1)] := by
  rw [List.length_append,List.length_cons] at small
  obtain ⟨tracks,none,depth⟩ := outer_tracks before Session.start_tracks rfl (by simp; omega) outer
  have start : (({} : Session).nested).depth = 0 := rfl
  rw [start] at depth
  obtain ⟨_,stuck⟩ := stuck_final after (stuck_inner tracks none deep (by omega)) (by omega)
    ((along_append _ _ _ before (.commit::after)).mp opens).2.2
  have whole : final Session.step {} (before++.commit::after) =
      final Session.step ((final Session.step {} before).step .commit) after := by
    simp [final]
  obtain ⟨unasked,counter,held,_⟩ := stuck
  have live := tracks.isCompleted (show (final Session.step {} before).nested.depth =
    ((final Session.step {} before).nested.depth-1)+1 by omega)
  rw [serve_calls,whole,MapperFactory.realRollbackTransaction,held]
  dsimp only
  rw [MapperFactory.doRollback,unasked,live]
  exact ⟨rfl,congrArg (·++_) tracks.agrees.log⟩

example : (serve {} ⟨[Call.begin,.begin,.commit,.commit].map .call,false⟩).1 = .uncomplete := by decide

end CheckFilter
end YzFramework.Data
