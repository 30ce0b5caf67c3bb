import YzFramework.Library.Run
import YzFramework.Library.Word

/-! `MapperFactory`: nested transactions counted on one thread.
The counter is the Java int of `CounterTransactionStatus`; the transaction manager
is seen through the physical operations it is asked for, and asked for a transaction
where none is open on the thread: one that is it would join. Its own exceptions make
no difference here, because the thread-local is removed in a finally block. -/
namespace YzFramework.Data
open Library.Run Library.Word

inductive Physical
  | getTransaction (id : ℕ)
  | commit (id : ℕ)
  | rollback (id : ℕ)
deriving DecidableEq

structure TransactionManager where
  opened : ℕ := 0
  completed : List ℕ := []
  log : List Physical := []
deriving DecidableEq

namespace TransactionManager

def getTransaction (manager : TransactionManager) : ℕ × TransactionManager :=
  (manager.opened,
    {manager with opened := manager.opened+1,log := manager.log++[.getTransaction manager.opened]})

def isCompleted (manager : TransactionManager) (id : ℕ) : Bool := manager.completed.contains id

def commit (manager : TransactionManager) (id : ℕ) : TransactionManager :=
  {manager with completed := id::manager.completed,log := manager.log++[.commit id]}

def rollback (manager : TransactionManager) (id : ℕ) : TransactionManager :=
  {manager with completed := id::manager.completed,log := manager.log++[.rollback id]}

end TransactionManager

structure CounterTransactionStatus where
  transactionStatus : ℕ
  counter : BitVec 32 := 0
deriving DecidableEq

namespace CounterTransactionStatus

def inreaseCounter (status : CounterTransactionStatus) : CounterTransactionStatus :=
  {status with counter := status.counter+1}

def decreaseCounter (status : CounterTransactionStatus) : CounterTransactionStatus :=
  {status with counter := status.counter-1}

end CounterTransactionStatus

structure MapperFactory where
  transactionstatusLocal : Option CounterTransactionStatus := none
  tranactionManager : TransactionManager := {}
deriving DecidableEq

namespace MapperFactory

def beginTransaction (factory : MapperFactory) : MapperFactory :=
  match factory.transactionstatusLocal with
  | none =>
    let (status,manager) := factory.tranactionManager.getTransaction
    {transactionstatusLocal := some (CounterTransactionStatus.inreaseCounter {transactionStatus := status}),
      tranactionManager := manager}
  | some status => {factory with transactionstatusLocal := some status.inreaseCounter}

def commitTransaction (factory : MapperFactory) : MapperFactory :=
  match factory.transactionstatusLocal with
  | none => factory
  | some status =>
    if status.counter.slt 2 then
      {transactionstatusLocal := none,
        tranactionManager :=
          if factory.tranactionManager.isCompleted status.transactionStatus then factory.tranactionManager
          else factory.tranactionManager.commit status.transactionStatus}
    else factory

def doRollback (factory : MapperFactory) (status : CounterTransactionStatus) : MapperFactory :=
  {transactionstatusLocal := none,
    tranactionManager :=
      if factory.tranactionManager.isCompleted status.transactionStatus then factory.tranactionManager
      else factory.tranactionManager.rollback status.transactionStatus}

def rollbackTransaction (factory : MapperFactory) : MapperFactory :=
  match factory.transactionstatusLocal with
  | none => factory
  | some status =>
    let status := status.decreaseCounter
    let factory := {factory with transactionstatusLocal := some status}
    if status.counter == 0 then factory.doRollback status else factory

section
variable {factory : MapperFactory} {status : CounterTransactionStatus}
  (held : factory.transactionstatusLocal = some status)
include held

theorem commitTransaction_ends
    (live : factory.tranactionManager.isCompleted status.transactionStatus = false)
    (below : status.counter.slt 2 = true) : factory.commitTransaction =
      ⟨none,factory.tranactionManager.commit status.transactionStatus⟩ := by
  unfold commitTransaction
  rw [held]
  dsimp only
  rw [if_pos below,live]
  rfl

theorem commitTransaction_waits (above : ¬ status.counter.slt 2 = true) :
    factory.commitTransaction = factory := by
  unfold commitTransaction
  rw [held]
  exact if_neg above

theorem rollbackTransaction_ends
    (live : factory.tranactionManager.isCompleted status.transactionStatus = false)
    (last : status.counter = 1) : factory.rollbackTransaction =
      ⟨none,factory.tranactionManager.rollback status.transactionStatus⟩ := by
  simp [rollbackTransaction,held,doRollback,CounterTransactionStatus.decreaseCounter,last,live]

theorem rollbackTransaction_waits (more : status.counter ≠ 1) : factory.rollbackTransaction =
    {factory with transactionstatusLocal := some ⟨status.transactionStatus,status.counter-1⟩} := by
  have nonzero : ¬ (status.counter-1 == 0) = true := by
    rw [beq_iff_eq]
    intro zero
    exact more (by bv_omega)
  unfold rollbackTransaction
  rw [held]
  exact if_neg nonzero

end

end MapperFactory

inductive Call
  | begin
  | commit
  | rollback
deriving DecidableEq

/-- What nesting is for: only the outermost brackets reach the manager, and each
outermost begin has a transaction of its own. A close without a begin is ignored. -/
structure Nested where
  depth : ℕ := 0
  opened : ℕ := 0
  log : List Physical := []
deriving DecidableEq

namespace Nested

def close (nested : Nested) (operation : ℕ → Physical) : Nested :=
  match nested.depth with
  | 0 => nested
  | 1 => {nested with depth := 0,log := nested.log++[operation (nested.opened-1)]}
  | depth+2 => {nested with depth := depth+1}

theorem close_depth (nested : Nested) (operation : ℕ → Physical) :
    (nested.close operation).depth = nested.depth-1 := by
  unfold close
  split <;> simp_all

def step (nested : Nested) : Call → Nested
  | .begin =>
    if nested.depth = 0 then
      {depth := 1,opened := nested.opened+1,log := nested.log++[.getTransaction nested.opened]}
    else {nested with depth := nested.depth+1}
  | .commit => nested.close .commit
  | .rollback => nested.close .rollback

def current (nested : Nested) : Option ℕ := if nested.depth = 0 then none else some (nested.opened-1)

end Nested

/-- The factory beside the nesting of the calls made so far and the number of
inner commits since the outermost begin. -/
structure Session where
  factory : MapperFactory := {}
  nested : Nested := {}
  innerCommits : ℕ := 0
deriving DecidableEq

namespace Session

def invoke (factory : MapperFactory) : Call → MapperFactory
  | .begin => factory.beginTransaction
  | .commit => factory.commitTransaction
  | .rollback => factory.rollbackTransaction

def countInner (session : Session) : Call → ℕ
  | .begin => if session.nested.depth = 0 then 0 else session.innerCommits
  | .commit => if 2 ≤ session.nested.depth then session.innerCommits+1 else session.innerCommits
  | .rollback => session.innerCommits

def step (session : Session) (call : Call) : Session :=
  ⟨invoke session.factory call,session.nested.step call,session.countInner call⟩

/-- The physical operations are those of the nesting, and the thread-local holds
the transaction of the open brackets or nothing. -/
structure Agrees (session : Session) : Prop where
  log : session.factory.tranactionManager.log = session.nested.log
  opened : session.factory.tranactionManager.opened = session.nested.opened
  status : session.factory.transactionstatusLocal.map CounterTransactionStatus.transactionStatus =
    session.nested.current

/-- Depth and inner commits together, as the int the counter has become. -/
def weight (session : Session) : BitVec 32 :=
  BitVec.ofNat 32 (session.nested.depth + session.innerCommits)

/-- The call meets a counter on the right side of its comparison. -/
def Fits (session : Session) (call : Call) : Prop :=
  match call,session.nested.depth with
  | .begin,_ => True
  | _,0 => True
  | .commit,1 => session.weight.slt 2 = true
  | .commit,_+2 => ¬ session.weight.slt 2 = true
  | .rollback,1 => session.weight = 1
  | .rollback,_+2 => session.weight ≠ 1

structure Tracks (session : Session) : Prop where
  agrees : Agrees session
  counter : ∀ status ∈ session.factory.transactionstatusLocal, status.counter = session.weight
  live : ∀ status ∈ session.factory.transactionstatusLocal,
    status.transactionStatus ∉ session.factory.tranactionManager.completed
  finished : ∀ id ∈ session.factory.tranactionManager.completed, id < session.nested.opened
  begun : 0 < session.nested.depth → 0 < session.nested.opened

theorem start_tracks : Tracks {} where
  agrees := ⟨rfl,rfl,rfl⟩
  counter := by simp
  live := by simp
  finished := by simp
  begun := by simp

theorem Tracks.local_cases {session : Session} (tracks : Tracks session) :
    session.nested.depth = 0 ∧ session.factory.transactionstatusLocal = none ∨
    0 < session.nested.depth ∧ session.factory.transactionstatusLocal =
      some ⟨session.nested.opened-1,session.weight⟩ := by
  have status := tracks.agrees.status
  unfold Nested.current at status
  cases held : session.factory.transactionstatusLocal with
  | none =>
    rw [held] at status
    refine .inl ⟨?_,rfl⟩
    by_contra positive
    simp [positive] at status
  | some found =>
    rw [held] at status
    have counter := tracks.counter found held
    by_cases zero : session.nested.depth = 0
    · simp [zero] at status
    · simp only [zero,if_false,Option.map_some,Option.some.injEq] at status
      exact .inr ⟨Nat.pos_of_ne_zero zero,by rw [← status,← counter]⟩

theorem Tracks.held {session : Session} (tracks : Tracks session) {depth : ℕ}
    (deep : session.nested.depth = depth+1) : session.factory.transactionstatusLocal =
      some ⟨session.nested.opened-1,session.weight⟩ := by
  rcases tracks.local_cases with ⟨zero,_⟩ | ⟨_,held⟩
  · omega
  · exact held

theorem Tracks.isCompleted {session : Session} (tracks : Tracks session) {depth : ℕ}
    (deep : session.nested.depth = depth+1) :
    session.factory.tranactionManager.isCompleted (session.nested.opened-1) = false := by
  have live := tracks.live _ (tracks.held deep)
  simpa [TransactionManager.isCompleted] using live

theorem Tracks.stays {session : Session} (tracks : Tracks session) {depth : ℕ}
    (deep : session.nested.depth = depth+1) (deeper inner : ℕ) (counter : BitVec 32)
    (same : counter = BitVec.ofNat 32 (deeper+1+inner)) :
    Tracks ⟨{session.factory with
        transactionstatusLocal := some ⟨session.nested.opened-1,counter⟩},
      {session.nested with depth := deeper+1},inner⟩ where
  agrees := ⟨tracks.agrees.log,tracks.agrees.opened,by simp [Nested.current]⟩
  counter := by
    intro status held
    cases held
    exact same
  live := by
    intro status held
    cases held
    exact tracks.live ⟨_,session.weight⟩ (tracks.held deep)
  finished := tracks.finished
  begun := fun _ => tracks.begun (by omega)

theorem Tracks.ends {session : Session} (tracks : Tracks session) {depth : ℕ}
    (deep : session.nested.depth = depth+1) (operation : Physical) (inner : ℕ) :
    Tracks ⟨⟨none,{session.factory.tranactionManager with
        completed := (session.nested.opened-1)::session.factory.tranactionManager.completed,
        log := session.factory.tranactionManager.log++[operation]}⟩,
      {session.nested with depth := 0,log := session.nested.log++[operation]},inner⟩ where
  agrees := ⟨by simp [tracks.agrees.log],tracks.agrees.opened,by simp [Nested.current]⟩
  counter := by simp
  live := by simp
  finished := by
    have begun := tracks.begun (by omega)
    intro id member
    rcases List.mem_cons.mp member with rfl | earlier
    · exact Nat.sub_lt begun Nat.one_pos
    · exact tracks.finished id earlier
  begun := by simp

private theorem begin_tracks {session : Session} (tracks : Tracks session) :
    Tracks (session.step .begin) := by
  rcases tracks.local_cases with ⟨zero,held⟩ | ⟨positive,held⟩
  · have stepped : session.step .begin =
        ⟨⟨some ⟨session.nested.opened,1⟩,session.factory.tranactionManager.getTransaction.2⟩,
          ⟨1,session.nested.opened+1,session.nested.log++[.getTransaction session.nested.opened]⟩,0⟩ := by
      simp [step,invoke,MapperFactory.beginTransaction,held,Nested.step,zero,countInner,
        TransactionManager.getTransaction,CounterTransactionStatus.inreaseCounter,tracks.agrees.opened]
    rw [stepped]
    refine ⟨⟨?_,?_,?_⟩,?_,?_,?_,by simp⟩
    · simp [TransactionManager.getTransaction,tracks.agrees.log,tracks.agrees.opened]
    · simp [TransactionManager.getTransaction,tracks.agrees.opened]
    · simp [Nested.current]
    · simp [weight]
    · intro status held completed
      cases held
      exact absurd (tracks.finished _ completed) (lt_irrefl _)
    · exact fun id completed => (tracks.finished id completed).trans (Nat.lt_succ_self _)
  · have nonzero : session.nested.depth ≠ 0 := positive.ne'
    have stepped : session.step .begin =
        ⟨{session.factory with
            transactionstatusLocal := some ⟨session.nested.opened-1,session.weight+1⟩},
          {session.nested with depth := session.nested.depth+1},session.innerCommits⟩ := by
      simp [step,invoke,MapperFactory.beginTransaction,held,Nested.step,nonzero,countInner,
        CounterTransactionStatus.inreaseCounter]
    rw [stepped]
    apply tracks.stays (Nat.succ_pred nonzero).symm
    unfold weight
    bv_omega

theorem Tracks.unheld {session : Session} (tracks : Tracks session)
    (closed : session.nested.depth = 0) : session.factory.transactionstatusLocal = none := by
  rcases tracks.local_cases with ⟨_,held⟩ | ⟨positive,_⟩
  · exact held
  · omega

theorem missing {session next : Session} (operation : Physical) (tracks : Tracks session)
    (silent : next.factory.tranactionManager.log = session.factory.tranactionManager.log)
    (closed : next.nested.log = session.nested.log++[operation]) : ¬ Agrees next := by
  intro agrees
  have same := agrees.log
  rw [silent,closed,tracks.agrees.log] at same
  simp at same

theorem surplus {session next : Session} (operation : Physical) (tracks : Tracks session)
    (early : next.factory.tranactionManager.log = session.factory.tranactionManager.log++[operation])
    (inner : next.nested.log = session.nested.log) : ¬ Agrees next := by
  intro agrees
  have same := agrees.log
  rw [early,inner,tracks.agrees.log] at same
  simp at same

theorem judged {session : Session} {call : Call} {right : Prop} (same : Fits session call ↔ right)
    (tracks : right → Tracks (session.step call)) (wrong : ¬ right → ¬ Agrees (session.step call)) :
    (Agrees (session.step call) → Fits session call) ∧
      (Fits session call → Tracks (session.step call)) := by
  refine ⟨fun agrees => ?_,fun fits => tracks (same.mp fits)⟩
  by_contra unfit
  exact wrong (mt same.mpr unfit) agrees

/-- A close that meets the counter with a comparison `last`, which is right where it
tells the outermost bracket from an inner one. -/
theorem close_tracks {session : Session} (tracks : Tracks session) (call : Call)
    (operation : ℕ → Physical) (last : Prop) (counter : BitVec 32)
    (closes : session.nested.step call = session.nested.close operation)
    (idle : session.nested.depth = 0 → Fits session call ∧ session.step call = session)
    (outermost : session.nested.depth = 1 → (Fits session call ↔ last))
    (inner : ∀ {depth}, session.nested.depth = depth+2 → (Fits session call ↔ ¬ last) ∧
      counter = BitVec.ofNat 32 (depth+1+session.countInner call))
    (ended : ∀ {depth}, session.nested.depth = depth+1 → last → invoke session.factory call =
      ⟨none,{session.factory.tranactionManager with
        completed := (session.nested.opened-1)::session.factory.tranactionManager.completed,
        log := session.factory.tranactionManager.log++[operation (session.nested.opened-1)]}⟩)
    (waited : ∀ {depth}, session.nested.depth = depth+1 → ¬ last → invoke session.factory call =
      {session.factory with transactionstatusLocal := some ⟨session.nested.opened-1,counter⟩}) :
    (Agrees (session.step call) → Fits session call) ∧
      (Fits session call → Tracks (session.step call)) := by
  match deep : session.nested.depth with
  | 0 =>
    obtain ⟨fits,same⟩ := idle deep
    rw [same]
    exact ⟨fun _ => fits,fun _ => tracks⟩
  | 1 =>
    refine judged (outermost deep) (fun now => ?_) fun later => ?_
    · rw [step,ended deep now,closes,Nested.close,deep]
      exact tracks.ends deep (operation (session.nested.opened-1)) (session.countInner call)
    · apply missing (operation (session.nested.opened-1)) tracks
      · rw [step,waited deep later]
      · rw [step,closes,Nested.close,deep]
  | depth+2 =>
    obtain ⟨fits,counted⟩ := inner deep
    refine judged fits (fun later => ?_) fun now => ?_
    · rw [step,waited deep later,closes,Nested.close,deep]
      apply tracks.stays deep depth
      exact counted
    · apply surplus (operation (session.nested.opened-1)) tracks
      · rw [step,ended deep (not_not.mp now)]
      · rw [step,closes,Nested.close,deep]

theorem commit_tracks {session : Session} (tracks : Tracks session) :
    (Agrees (session.step .commit) → Fits session .commit) ∧
      (Fits session .commit → Tracks (session.step .commit)) := by
  refine close_tracks tracks .commit .commit (session.weight.slt 2 = true) session.weight rfl ?_ ?_ ?_ ?_ ?_
  · intro closed
    refine ⟨by simp [Fits,closed],?_⟩
    simp [step,invoke,MapperFactory.commitTransaction,tracks.unheld closed,Nested.step,
      Nested.close,closed,countInner]
  · intro outermost
    simp only [Fits,outermost]
  · intro depth deep
    refine ⟨by simp only [Fits,deep],?_⟩
    -- The counter keeps its value: one bracket less, one inner commit more.
    rw [weight,deep,countInner,deep,if_pos (by omega)]
    congr 1
    omega
  · intro depth deep below
    rw [invoke,MapperFactory.commitTransaction_ends (tracks.held deep) (tracks.isCompleted deep) below]
    rfl
  · intro depth deep above
    rw [invoke,MapperFactory.commitTransaction_waits (tracks.held deep) above,← tracks.held deep]

theorem rollback_tracks {session : Session} (tracks : Tracks session) :
    (Agrees (session.step .rollback) → Fits session .rollback) ∧
      (Fits session .rollback → Tracks (session.step .rollback)) := by
  refine close_tracks tracks .rollback .rollback (session.weight = 1) (session.weight-1) rfl ?_ ?_ ?_ ?_ ?_
  · intro closed
    refine ⟨by simp [Fits,closed],?_⟩
    simp [step,invoke,MapperFactory.rollbackTransaction,tracks.unheld closed,Nested.step,
      Nested.close,closed,countInner]
  · intro outermost
    simp only [Fits,outermost]
  · intro depth deep
    refine ⟨by simp only [Fits,deep,ne_eq],?_⟩
    rw [weight,deep,countInner]
    bv_omega
  · intro depth deep last
    rw [invoke,MapperFactory.rollbackTransaction_ends (tracks.held deep) (tracks.isCompleted deep) last]
    rfl
  · exact fun deep => MapperFactory.rollbackTransaction_waits (tracks.held deep)

theorem step_tracks {session : Session} (tracks : Tracks session) (call : Call) :
    (Agrees (session.step call) → Fits session call) ∧
      (Fits session call → Tracks (session.step call)) := by
  cases call with
  | begin => exact ⟨fun _ => by simp [Fits],fun _ => begin_tracks tracks⟩
  | commit => exact commit_tracks tracks
  | rollback => exact rollback_tracks tracks

/-- On every sequence of calls the physical operations and the thread-local are
those of the nesting at each moment exactly when no call meets the counter on the
wrong side of its comparison. -/
theorem run_agrees_iff (calls : List Call) :
    (∀ before, before <+: calls → Agrees (final step {} before)) ↔ Along step Fits {} calls := by
  apply (along_reached ({} : Session) calls start_tracks.agrees).symm.trans
  apply along_iff ?_ ?_ ({} : Session) calls start_tracks
  · intro session call tracks
    exact ⟨(step_tracks tracks call).1,fun fits => ((step_tracks tracks call).2 fits).agrees⟩
  · exact fun session call tracks => (step_tracks tracks call).2

/-- An outermost bracket is closed without an inner commit having come before. -/
def Plain (session : Session) (call : Call) : Prop :=
  call ≠ .begin → session.nested.depth = 1 → session.innerCommits = 0

theorem weight_slt (session : Session) (small : session.nested.depth + session.innerCommits < 2^31) :
    session.weight.slt 2 = true ↔ session.nested.depth + session.innerCommits < 2 := by
  have value : session.weight.toInt = (session.nested.depth + session.innerCommits : ℕ) := by
    rw [weight,toInt_of_small _ (by rw [BitVec.toNat_ofNat]; omega),BitVec.toNat_ofNat,
      Nat.mod_eq_of_lt (by omega)]
  rw [BitVec.slt_iff_toInt_lt,value,show (2 : BitVec 32).toInt = 2 by decide]
  omega

theorem weight_one (session : Session) (small : session.nested.depth + session.innerCommits < 2^31) :
    session.weight = 1 ↔ session.nested.depth + session.innerCommits = 1 := by
  unfold weight
  constructor <;> intro same <;> bv_omega

theorem fits_iff_plain (session : Session) (call : Call)
    (small : session.nested.depth + session.innerCommits < 2^31) :
    Fits session call ↔ Plain session call := by
  have below := weight_slt session small
  have one := weight_one session small
  match call,deep : session.nested.depth with
  | .begin,_ => simp [Fits,Plain]
  | .commit,0 => simp [Fits,Plain,deep]
  | .rollback,0 => simp [Fits,Plain,deep]
  | .commit,1 =>
    have plain : Plain session .commit ↔ session.innerCommits = 0 := by simp [Plain,deep]
    simp only [Fits,deep,below,plain]
    omega
  | .rollback,1 =>
    have plain : Plain session .rollback ↔ session.innerCommits = 0 := by simp [Plain,deep]
    simp only [Fits,deep,one,plain]
    omega
  | .commit,depth+2 =>
    have plain : Plain session .commit := by simp [Plain,deep]
    simp only [Fits,deep,below,plain,iff_true]
    omega
  | .rollback,depth+2 =>
    have plain : Plain session .rollback := by simp [Plain,deep]
    simp only [Fits,deep,ne_eq,one,plain,iff_true]
    omega

theorem step_small (session : Session) (call : Call) :
    (session.step call).nested.depth + (session.step call).innerCommits ≤
      session.nested.depth + session.innerCommits + 1 := by
  cases call with
  | begin =>
    by_cases zero : session.nested.depth = 0
    · simp [step,Nested.step,countInner,zero]
    · simp only [step,Nested.step,countInner,zero,if_false]
      omega
  | commit =>
    simp only [step,Nested.step,countInner,Nested.close_depth]
    split <;> omega
  | rollback =>
    simp only [step,Nested.step,countInner,Nested.close_depth]
    omega

/-- Below 2^31 calls the int never wraps, and only inner commits do harm. -/
theorem along_fits_iff_plain (session : Session) (calls : List Call)
    (small : session.nested.depth + session.innerCommits + calls.length < 2^31) :
    Along step Fits session calls ↔ Along step Plain session calls := by
  induction calls generalizing session with
  | nil => exact Iff.rfl
  | cons call rest ih =>
    have grows := step_small session call
    rw [List.length_cons] at small
    simp only [along_cons]
    rw [fits_iff_plain session call (by omega),ih _ (by omega)]

theorem nested_commit_lost :
    ¬ ∀ before, before <+: [Call.begin,.begin,.commit,.commit] →
      Agrees (final step {} before) := by
  intro agrees
  have lost := (agrees _ List.prefix_rfl).log
  exact absurd lost (by decide)

end Session
end YzFramework.Data
