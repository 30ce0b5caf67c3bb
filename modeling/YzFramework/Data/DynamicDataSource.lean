import YzFramework.Library.Run
import Mathlib.Tactic.Tauto

/-! Read/write routing: `DataSourceHolder`, the transaction manager and the SQL
session template of one thread. A begin that fails inside `super.doBegin` is not
followed by `doCleanupAfterCompletion`; a suspended outer transaction stays active. -/
namespace YzFramework.Data
open Library.Run

inductive DataSource
  | master
  | slave
deriving DecidableEq

/-- One thread: the thread-local and the number of transactions begun and not
completed, which is also when transaction synchronization is active. -/
structure Thread where
  dataSources : Option DataSource := none
  active : ℕ := 0
deriving DecidableEq

namespace DataSourceHolder

def setMaster (thread : Thread) : Thread := {thread with dataSources := some .master}
def setSlave (thread : Thread) : Thread := {thread with dataSources := some .slave}
def isMaster (thread : Thread) : Bool := thread.dataSources == some .master
def isSlave (thread : Thread) : Bool := thread.dataSources == some .slave
def clearDataSource (thread : Thread) : Thread := {thread with dataSources := none}

end DataSourceHolder

/-- `DynamicDataSource.determineTargetDataSource`; which of the slaves serves a
call is the counter's business. -/
def determineTargetDataSource (thread : Thread) : DataSource :=
  if DataSourceHolder.isMaster thread then .master
  else if DataSourceHolder.isSlave thread then .slave
  else .master

namespace DynamicDataSourceTransactionManager

/-- `doBegin` with the definition's read-only flag, where `super.doBegin` may throw. -/
def doBegin (readOnly superThrows : Bool) (thread : Thread) : Thread :=
  let thread := if readOnly then DataSourceHolder.setSlave thread else DataSourceHolder.setMaster thread
  if superThrows then thread else {thread with active := thread.active+1}

def doCleanupAfterCompletion (thread : Thread) : Thread :=
  DataSourceHolder.clearDataSource {thread with active := thread.active-1}

end DynamicDataSourceTransactionManager

/-- A call on `DynamicSqlSessionTemplate`. The SQL of a select is what its mapped
statement yields, none where looking it up throws. -/
structure TemplateCall where
  methodName : String
  sql : Option String := none
deriving DecidableEq

namespace DynamicSqlSessionTemplate

def startsWith (text start : String) : Bool := start.toList.isPrefixOf text.toList

def hinted (sql : String) : Bool := startsWith sql "/*master*/"

def isSelect (call : TemplateCall) : Bool := startsWith call.methodName "select"

def isUpdate (call : TemplateCall) : Bool :=
  startsWith call.methodName "insert" || startsWith call.methodName "update" ||
    startsWith call.methodName "delete"

theorem startsWith_cons {text start : String} (first : Char) (rest : List Char)
    (begins : start.toList = first::rest) (matched : startsWith text start = true) :
    text.toList.head? = some first := by
  rw [startsWith,begins,List.isPrefixOf_iff_prefix] at matched
  obtain ⟨tail,eq⟩ := matched
  rw [← eq]
  rfl

theorem isSelect_of_isUpdate {call : TemplateCall} (update : isUpdate call = true) :
    isSelect call = false := by
  by_contra select
  have selected : startsWith call.methodName "select" = true := eq_true_of_ne_false select
  have first := startsWith_cons 's' "elect".toList (by rfl) selected
  simp only [isUpdate,Bool.or_eq_true] at update
  rcases update with (insert | update) | delete
  · simp [startsWith_cons 'i' "nsert".toList (by rfl) insert] at first
  · simp [startsWith_cons 'u' "pdate".toList (by rfl) update] at first
  · simp [startsWith_cons 'd' "elete".toList (by rfl) delete] at first

/-- The interceptor outside transactions, up to `method.invoke`; none where the
statement lookup throws. `getConfiguration` goes through the proxy itself and
leaves the holder cleared. -/
def route (call : TemplateCall) (thread : Thread) : Option Thread :=
  if isSelect call then
    call.sql.map fun sql =>
      let thread := DataSourceHolder.clearDataSource thread
      if hinted sql then DataSourceHolder.setMaster thread else DataSourceHolder.setSlave thread
  else if isUpdate call then some (DataSourceHolder.setMaster thread)
  else some thread

/-- The data source `method.invoke` meets (none if it is not reached) and the
thread afterwards. Whether the method throws makes no difference to either. -/
def invoke (call : TemplateCall) (thread : Thread) : Option DataSource × Thread :=
  if thread.active = 0 then
    match route call thread with
    | none => (none,DataSourceHolder.clearDataSource thread)
    | some thread => (some (determineTargetDataSource thread),DataSourceHolder.clearDataSource thread)
  else (some (determineTargetDataSource thread),thread)

end DynamicSqlSessionTemplate

namespace Thread
open DynamicDataSourceTransactionManager DynamicSqlSessionTemplate

/-- What happens on the thread; `access` is any other use of the data source. -/
inductive Event
  | begin (readOnly superThrows : Bool)
  | complete
  | template (call : TemplateCall)
  | access
deriving DecidableEq

def step (thread : Thread) : Event → Thread
  | .begin readOnly superThrows => doBegin readOnly superThrows thread
  | .complete => if thread.active = 0 then thread else doCleanupAfterCompletion thread
  | .template call => (invoke call thread).2
  | .access => thread

def Clean (thread : Thread) : Prop := thread.active = 0 → thread.dataSources = none

def Routed (thread : Thread) (event : Event) : Prop :=
  thread.active = 0 →
    match event with
    | .template call =>
      (isUpdate call = true → (invoke call thread).1 = some .master) ∧
      (isSelect call = true → ∀ sql ∈ call.sql, hinted sql = false →
        (invoke call thread).1 = some .slave)
    | .access => determineTargetDataSource thread = .master
    | _ => True

/-- A begin that fails does so inside a transaction that is still to complete. -/
def Sheltered (thread : Thread) (event : Event) : Prop :=
  ∀ readOnly, event = .begin readOnly true → thread.active ≠ 0

private theorem template_clean (call : TemplateCall) (thread : Thread) (clean : Clean thread) :
    Clean (thread.step (.template call)) := by
  change Clean (invoke call thread).2
  unfold invoke
  split
  · split <;> exact fun _ => rfl
  · exact clean

private theorem template_routed (call : TemplateCall) (thread : Thread) :
    Routed thread (.template call) := by
  intro idle
  dsimp only
  constructor
  · intro update
    have notSelect := isSelect_of_isUpdate update
    simp [invoke,idle,route,notSelect,update,determineTargetDataSource,DataSourceHolder.setMaster,
      DataSourceHolder.isMaster]
  · intro select sql found unhinted
    simp [invoke,idle,route,select,Option.mem_def.mp found,unhinted,determineTargetDataSource,
      DataSourceHolder.setSlave,DataSourceHolder.isMaster,DataSourceHolder.isSlave]

private theorem begin_clean_iff (readOnly superThrows : Bool) (thread : Thread) :
    Clean (thread.step (.begin readOnly superThrows)) ↔
      (superThrows = true → thread.active ≠ 0) := by
  cases superThrows <;> cases readOnly <;>
    simp [Clean,step,doBegin,DataSourceHolder.setMaster,DataSourceHolder.setSlave]

theorem complete_clean (thread : Thread) (clean : Clean thread) : Clean (thread.step .complete) := by
  unfold step
  dsimp only
  split
  · exact clean
  · exact fun _ => rfl

private theorem access_routed (thread : Thread) (clean : Clean thread) : Routed thread .access := by
  intro idle
  simp [determineTargetDataSource,DataSourceHolder.isMaster,DataSourceHolder.isSlave,clean idle]

theorem step_clean_iff (thread : Thread) (event : Event) (clean : Clean thread) :
    Clean (thread.step event) ∧ Routed thread event ↔ Sheltered thread event := by
  cases event with
  | begin readOnly superThrows =>
    rw [begin_clean_iff]
    simp only [Routed,imp_true_iff,and_true,Sheltered,Event.begin.injEq]
    constructor
    · intro sheltered _ failure
      obtain ⟨_,failed⟩ := failure
      exact sheltered failed
    · exact fun sheltered failed => sheltered readOnly ⟨rfl,failed⟩
  | complete => simp [complete_clean thread clean,Routed,Sheltered]
  | template call => simp [template_clean call thread clean,template_routed call thread,Sheltered]
  | access =>
    have kept : Clean (thread.step .access) := clean
    simp [kept,access_routed thread clean,Sheltered]

/-- The holder is unset between transactions and every use outside them goes where
it belongs exactly in the runs in which no begin fails outside a transaction. -/
theorem run_clean_iff (events : List Event) :
    Along step (fun thread event => Clean (thread.step event) ∧ Routed thread event) {} events ↔
      Along step Sheltered {} events :=
  along_iff step_clean_iff
    (fun thread event clean sheltered => ((step_clean_iff thread event clean).mpr sheltered).1)
    ({} : Thread) events (fun _ => rfl)

theorem failed_begin_leaks :
    ¬ Along step (fun thread event => Clean (thread.step event) ∧ Routed thread event) {}
      [.begin true true,.access] := by
  intro held
  obtain ⟨_,⟨_,routed⟩,_⟩ := held
  exact absurd (routed rfl) (by decide)

end Thread
end YzFramework.Data
