import Mathlib.Data.List.Perm.Basic
import YzFramework.Library.Run
import YzFramework.Bizlogging.LogWorker

/-! The log of the calls on a provider. `InvokeLogFilter` hands what is known of a call to
`InvokeLogger`, whose one thread turns it into an entry (`InvokeLogWoker`), and `BizLogger` puts
the entry on the queue from a pool of threads. Each thread's last exception given to a logger
waits in `LAST_EXEPTION` for the next entry made on that thread. -/
namespace YzFramework.Dubbo.InvokeLog
open Library.Run
open Bizlogging.LogWorker (Outcome)

variable {Thread Throwable Value Argument : Type}

def SYS_ERROR : ℤ := 10001

def DEFAULT_WORK_NUM : ℕ := 100

def NO_EXCEPTION : String := "没有异常，没有返回值，不可能，请检查代码"

structure Result (Throwable Value : Type) where
  value : Option Value := none
  exception : Option Throwable := none

/-- How the invoker ends: `thrown` is a throwable that is no `RpcException`. -/
inductive Answer (Throwable Value : Type)
  | returned (result : Option (Result Throwable Value))
  | rpcException (ex : Throwable)
  | thrown (ex : Throwable)

namespace Answer

def result : Answer Throwable Value → Option (Result Throwable Value)
  | returned result => result
  | _ => none

def rpc : Answer Throwable Value → Option Throwable
  | rpcException ex => some ex
  | _ => none

end Answer

structure Call (Throwable Value Argument : Type) where
  interfaceName : String
  methodName : String
  arguments : Argument
  application : Option String
  host : String
  remoteAddress : Option (String × String)
  requestTime : ℕ
  returnTime : ℕ
  answer : Answer Throwable Value

structure InvokeLogWoker (Throwable Value Argument : Type) where
  arguments : Argument
  api : String
  serviceName : Option String
  serverIP : String
  invokerHostName : String
  invokerIP : String
  requestTime : ℕ
  returnTime : ℕ
  result : Option (Result Throwable Value)
  exception : Option Throwable

structure ApiInvokeLogEntry where
  api : String
  message : String
  invoker : String
  sign : String
  requestTime : ℕ
  returnTime : ℕ
  returnStatus : ℤ
  returnMessage : Option String
  returnData : String
  invokerIP : String
  serverIP : String
  service : Option String
  application : String
deriving DecidableEq

/-- What the entries read through Java and fastjson: a value's "status" and "message", a text
of the arguments (`none` where fastjson or the cast throws), a text in quotes. -/
structure Reading (Throwable Value Argument : Type) where
  text : Throwable → String
  getStackTrace : Throwable → List String
  toJSON : Value → Option (ℤ × Option String)
  toJSONString : Argument → Option String
  escape : String → String
  application : String

namespace Reading

variable (reading : Reading Throwable Value Argument)

def getDetailMessage (e : Throwable) : String :=
  (reading.getStackTrace e).foldl (fun detail element => detail ++ " \n " ++ element) (reading.text e)

def getReturnData : Option String → String
  | none => ""
  | some returnData => "\"" ++ reading.escape returnData ++ "\""

def buildApiInvokeJobMessage (woker : InvokeLogWoker Throwable Value Argument) (message : String) (returnStatus : ℤ)
    (returnMessage returnData : Option String) : ApiInvokeLogEntry where
  api := woker.api
  message := message
  invoker := woker.invokerHostName
  sign := ""
  requestTime := woker.requestTime
  returnTime := woker.returnTime
  returnStatus := returnStatus
  returnMessage := returnMessage
  returnData := reading.getReturnData returnData
  invokerIP := woker.invokerIP
  serverIP := woker.serverIP
  service := woker.serviceName
  application := reading.application

/-- Status, message and data of a call's entry. -/
def returned (result : Option (Result Throwable Value)) (exception : Option Throwable) :
    Option (ℤ × Option String × Option String) :=
  match result with
  | none =>
    match exception with
    | some e => some (-1,some (reading.getDetailMessage e),none)
    | none => some (-1,some NO_EXCEPTION,none)
  | some result =>
    match result.value with
    | none =>
      match result.exception with
      | some bizException => some (-1,some (reading.text bizException),some (reading.getDetailMessage bizException))
      | none => some (-1,none,none)
    | some bizResult =>
      match reading.toJSON bizResult with
      | none => none
      | some (status,returnMessage) =>
        some (status,returnMessage,if status = SYS_ERROR then exception.map reading.getDetailMessage else none)

/-- What goes wrong here is caught, and nothing is logged. -/
def run (woker : InvokeLogWoker Throwable Value Argument) : Option ApiInvokeLogEntry :=
  match reading.toJSONString woker.arguments with
  | none => none
  | some message =>
    (reading.returned woker.result woker.exception).map fun (status,returnMessage,returnData) =>
      reading.buildApiInvokeJobMessage woker message status returnMessage returnData

end Reading

/-- What `logInvoke` hands over for a call, with the exception it has found. -/
def Call.woker (call : Call Throwable Value Argument) (lastException : Option Throwable) :
    InvokeLogWoker Throwable Value Argument where
  arguments := call.arguments
  api := call.interfaceName ++ "." ++ call.methodName
  serviceName := call.application
  serverIP := call.host
  invokerHostName := (call.remoteAddress.map Prod.fst).getD ""
  invokerIP := (call.remoteAddress.map Prod.snd).getD ""
  requestTime := call.requestTime
  returnTime := call.returnTime
  result := call.answer.result
  exception := call.answer.rpc.or lastException

/-- `handed` are all tasks ever made, whether the executor took them or not; the entries of
the pool stand in the order in which they came. -/
structure State (Thread Throwable Value Argument : Type) where
  lastException : Thread → Option Throwable := fun _ => none
  executor : List (InvokeLogWoker Throwable Value Argument) := []
  executorShutdown : Bool := false
  pool : List ApiInvokeLogEntry := []
  poolShutdown : Bool := false
  jobs : List ApiInvokeLogEntry := []
  handed : List (InvokeLogWoker Throwable Value Argument) := []

/-- `error` is a call of a logger with a throwable, `work` one task of the executor's thread,
`produce` the end of one of the entries that the pool's threads have in hand. -/
inductive Event (Thread Throwable Value Argument : Type)
  | error (thread : Thread) (e : Throwable)
  | invoke (thread : Thread) (call : Call Throwable Value Argument)
  | work
  | produce (index : ℕ) (outcome : Outcome)
  | destroyInvokeLogger
  | destroyBizLogger (running : ℕ)

namespace State

variable [DecidableEq Thread] (reading : Reading Throwable Value Argument)
  (state : State Thread Throwable Value Argument)

def setLastException (thread : Thread) (e : Option Throwable) : State Thread Throwable Value Argument :=
  {state with lastException := Function.update state.lastException thread e}

def getLastException (thread : Thread) : Option Throwable × State Thread Throwable Value Argument :=
  (state.lastException thread,state.setLastException thread none)

/-- False where the executor refuses the task, with an exception. -/
def execute (woker : InvokeLogWoker Throwable Value Argument) : Bool × State Thread Throwable Value Argument :=
  if state.executorShutdown then (false,{state with handed := state.handed++[woker]})
  else (true,{state with handed := state.handed++[woker],executor := state.executor++[woker]})

/-- An `RpcException` is the exception of the call; the thread's own stays where it is. -/
def logInvoke (thread : Thread) (call : Call Throwable Value Argument) : Bool × State Thread Throwable Value Argument :=
  match call.answer.rpc with
  | some ex => state.execute (call.woker (some ex))
  | none => (state.getLastException thread).2.execute (call.woker (state.getLastException thread).1)

/-- The filter answers with the invoker's answer, unless its own `finally` throws. -/
def invoke (thread : Thread) (call : Call Throwable Value Argument) :
    Option (Answer Throwable Value) × State Thread Throwable Value Argument :=
  let (accepted,after) := state.logInvoke thread call
  (if accepted then some call.answer else none,after)

/-- The executor's thread runs its oldest task; a pool that is shut down throws. -/
def work : State Thread Throwable Value Argument :=
  match state.executor with
  | [] => state
  | woker::executor =>
    match reading.run woker with
    | some entry =>
      if state.poolShutdown then {state with executor} else {state with executor,pool := state.pool++[entry]}
    | none => {state with executor}

/-- One of the entries in hand is produced; a call that throws is logged and forgotten. -/
def produce (index : ℕ) (outcome : Outcome) : State Thread Throwable Value Argument :=
  match (state.pool.take DEFAULT_WORK_NUM)[index]? with
  | none => state
  | some entry => {state with
      pool := state.pool.eraseIdx index
      jobs := if outcome.effective then state.jobs++[entry] else state.jobs}

def step : Event Thread Throwable Value Argument → State Thread Throwable Value Argument
  | .error thread e => state.setLastException thread (some e)
  | .invoke thread call => (state.invoke thread call).2
  | .work => state.work reading
  | .produce index outcome => state.produce index outcome
  | .destroyInvokeLogger => {state with executorShutdown := true}
  -- `shutdownNow` drops what no thread of the pool has begun
  | .destroyBizLogger running =>
    {state with poolShutdown := true,pool := state.pool.take (min running DEFAULT_WORK_NUM)}

end State

/-- The log that a call on its own would give: an entry shows only what its thread has given
to a logger since the thread's entry before. -/
structure OwnLog (Thread Throwable Value Argument : Type) where
  lastException : Thread → Option Throwable := fun _ => none
  handed : List (InvokeLogWoker Throwable Value Argument) := []

variable [DecidableEq Thread] {reading : Reading Throwable Value Argument}

def OwnLog.step (log : OwnLog Thread Throwable Value Argument) :
    Event Thread Throwable Value Argument → OwnLog Thread Throwable Value Argument
  | .error thread e => {log with lastException := Function.update log.lastException thread (some e)}
  | .invoke thread call =>
    ⟨Function.update log.lastException thread none,log.handed++[call.woker (log.lastException thread)]⟩
  | _ => log

/-- What an event writes into `LAST_EXEPTION` of a thread. -/
def writes (thread : Thread) : Event Thread Throwable Value Argument → Option (Option Throwable)
  | .error other e => if other = thread then some (some e) else none
  | .invoke other call => if other = thread ∧ call.answer.rpc.isNone then some none else none
  | _ => none

def ownWrites (thread : Thread) : Event Thread Throwable Value Argument → Option (Option Throwable)
  | .error other e => if other = thread then some (some e) else none
  | .invoke other _ => if other = thread then some none else none
  | _ => none

/-- An exception given to a logger before an earlier entry of the thread is still there:
all calls since then have ended with an `RpcException`. -/
def Left (thread : Thread) (before : List (Event Thread Throwable Value Argument)) : Prop :=
  ∃ first e second, before = first++.error thread e::second ∧ (∀ other, .error thread other ∉ second) ∧
    (∃ call, .invoke thread call ∈ second) ∧ ∀ call, .invoke thread call ∈ second → call.answer.rpc.isSome

/-- The entry of the call shows the exception of its thread, if there is one. -/
def Shows (reading : Reading Throwable Value Argument) (call : Call Throwable Value Argument) : Prop :=
  call.answer.rpc = none ∧ reading.toJSONString call.arguments ≠ none ∧
    ∀ result, call.answer.result = some result →
      ∃ bizResult returnMessage, result.value = some bizResult ∧
        reading.toJSON bizResult = some (SYS_ERROR,returnMessage)

theorem woker_rpc {call : Call Throwable Value Argument} {ex : Throwable} (rpc : call.answer.rpc = some ex)
    (lastException other : Option Throwable) : call.woker lastException = call.woker other := by
  simp only [Call.woker,rpc,Option.some_or]

theorem logInvoke_eq (state : State Thread Throwable Value Argument) (thread : Thread)
    (call : Call Throwable Value Argument) :
    state.logInvoke thread call =
      (if call.answer.rpc.isNone then state.setLastException thread none else state).execute
        (call.woker (state.lastException thread)) := by
  unfold State.logInvoke
  cases rpc : call.answer.rpc with
  | none => rfl
  | some ex => simp only [woker_rpc rpc (some ex) (state.lastException thread),Option.isNone_some,Bool.false_eq_true,if_false]

omit [DecidableEq Thread] in
theorem execute_lastException (state : State Thread Throwable Value Argument)
    (woker : InvokeLogWoker Throwable Value Argument) : (state.execute woker).2.lastException = state.lastException := by
  unfold State.execute
  split <;> rfl

omit [DecidableEq Thread] in
theorem execute_handed (state : State Thread Throwable Value Argument)
    (woker : InvokeLogWoker Throwable Value Argument) : (state.execute woker).2.handed = state.handed++[woker] := by
  unfold State.execute
  split <;> rfl

theorem invoke_handed (state : State Thread Throwable Value Argument) (thread : Thread)
    (call : Call Throwable Value Argument) :
    (state.invoke thread call).2.handed = state.handed++[call.woker (state.lastException thread)] := by
  change (state.logInvoke thread call).2.handed = _
  rw [logInvoke_eq,execute_handed]
  split <;> rfl

omit [DecidableEq Thread] in
theorem work_frame (state : State Thread Throwable Value Argument) :
    (state.work reading).lastException = state.lastException ∧ (state.work reading).handed = state.handed := by
  unfold State.work
  cases state.executor with
  | nil => exact ⟨rfl,rfl⟩
  | cons woker executor =>
    dsimp only
    split
    · split <;> exact ⟨rfl,rfl⟩
    · exact ⟨rfl,rfl⟩

omit [DecidableEq Thread] in
theorem produce_frame (state : State Thread Throwable Value Argument) (index : ℕ) (outcome : Outcome) :
    (state.produce index outcome).lastException = state.lastException ∧
      (state.produce index outcome).handed = state.handed := by
  unfold State.produce
  split <;> exact ⟨rfl,rfl⟩

theorem step_lastException (state : State Thread Throwable Value Argument)
    (event : Event Thread Throwable Value Argument) (thread : Thread) :
    (state.step reading event).lastException thread = (writes thread event).getD (state.lastException thread) := by
  cases event with
  | error other e =>
    by_cases same : other = thread
    · subst same
      simp [State.step,State.setLastException,writes]
    · simp [State.step,State.setLastException,writes,same,Ne.symm same]
  | invoke other call =>
    change (state.logInvoke other call).2.lastException thread = _
    rw [logInvoke_eq,execute_lastException]
    by_cases rpc : call.answer.rpc.isNone
    · by_cases same : other = thread
      · subst same
        simp [State.setLastException,writes,rpc]
      · simp [State.setLastException,writes,rpc,same,Ne.symm same]
    · simp [writes,rpc]
  | work => exact congrFun (work_frame state).1 thread
  | produce index outcome => exact congrFun (produce_frame state index outcome).1 thread
  | destroyInvokeLogger => rfl
  | destroyBizLogger running => rfl

theorem ownStep_lastException (log : OwnLog Thread Throwable Value Argument)
    (event : Event Thread Throwable Value Argument) (thread : Thread) :
    (log.step event).lastException thread = (ownWrites thread event).getD (log.lastException thread) := by
  cases event with
  | error other e =>
    by_cases same : other = thread
    · subst same
      simp [OwnLog.step,ownWrites]
    · simp [OwnLog.step,ownWrites,same,Ne.symm same]
  | invoke other call =>
    by_cases same : other = thread
    · subst same
      simp [OwnLog.step,ownWrites]
    · simp [OwnLog.step,ownWrites,same,Ne.symm same]
  | work => rfl
  | produce index outcome => rfl
  | destroyInvokeLogger => rfl
  | destroyBizLogger running => rfl

theorem final_lastException (state : State Thread Throwable Value Argument)
    (events : List (Event Thread Throwable Value Argument)) (thread : Thread) :
    (final (State.step reading) state events).lastException thread =
      final (fun held event => (writes thread event).getD held) (state.lastException thread) events :=
  @final_register _ _ _ _ (fun state => state.lastException thread) _
    (fun state event => step_lastException state event thread) state events

theorem final_ownLastException (log : OwnLog Thread Throwable Value Argument)
    (events : List (Event Thread Throwable Value Argument)) (thread : Thread) :
    (final OwnLog.step log events).lastException thread =
      final (fun held event => (ownWrites thread event).getD held) (log.lastException thread) events :=
  @final_register _ _ _ _ (fun log => log.lastException thread) _
    (fun log event => ownStep_lastException log event thread) log events

theorem final_ownError (thread : Thread) (held : Option Throwable) (e : Throwable)
    (first second : List (Event Thread Throwable Value Argument)) :
    final (fun held event => (ownWrites thread event).getD held) held (first++.error thread e::second) =
      final (fun held event => (ownWrites thread event).getD held) (some e) second := by
  simp only [final,List.foldl_append,List.foldl_cons,ownWrites,if_true,Option.getD_some]

/-- Without a further exception, an entry made on the thread is all that ends one's wait. -/
theorem own_quiet {thread : Thread} (held : Option Throwable) {events : List (Event Thread Throwable Value Argument)}
    (quiet : ∀ other, .error thread other ∉ events) :
    (final (fun held event => (ownWrites thread event).getD held) held events = held ∧
        ∀ call, .invoke thread call ∉ events) ∨
      (final (fun held event => (ownWrites thread event).getD held) held events = none ∧
        ∃ call, .invoke thread call ∈ events) := by
  induction events generalizing held with
  | nil => exact .inl ⟨rfl,by simp⟩
  | cons event rest ih =>
    have later : ∀ other, .error thread other ∉ rest := fun other inside => quiet other (List.mem_cons_of_mem _ inside)
    rw [final_cons]
    by_cases here : ∃ call, event = .invoke thread call
    · obtain ⟨call,rfl⟩ := here
      simp only [ownWrites,if_true,Option.getD_some]
      refine .inr ⟨?_,call,List.mem_cons_self⟩
      rcases ih none later with ⟨same,-⟩ | ⟨same,-⟩ <;> exact same
    · have silent : ownWrites thread event = none := by
        cases event with
        | error other e =>
          have away : other ≠ thread := by
            rintro rfl
            exact quiet e List.mem_cons_self
          simp [ownWrites,away]
        | invoke other call =>
          have away : other ≠ thread := by
            rintro rfl
            exact here ⟨call,rfl⟩
          simp [ownWrites,away]
        | _ => rfl
      rw [silent,Option.getD_none]
      rcases ih held later with ⟨same,absent⟩ | ⟨same,call,inside⟩
      · refine .inl ⟨same,fun call inside => ?_⟩
        rcases List.mem_cons.mp inside with rfl | inside
        · exact here ⟨call,rfl⟩
        · exact absent call inside
      · exact .inr ⟨same,call,List.mem_cons_of_mem _ inside⟩

theorem writes_none_iff {thread : Thread} {events : List (Event Thread Throwable Value Argument)} :
    (∀ event ∈ events, writes thread event = none) ↔
      (∀ other, .error thread other ∉ events) ∧ ∀ call, .invoke thread call ∈ events → call.answer.rpc.isSome := by
  constructor
  · intro silent
    refine ⟨fun other inside => ?_,fun call inside => ?_⟩
    · simpa [writes] using silent _ inside
    · have kept := silent _ inside
      cases rpc : call.answer.rpc with
      | none => simp [writes,rpc] at kept
      | some ex => rfl
  · rintro ⟨quiet,rpc⟩ event inside
    cases event with
    | error other e =>
      have away : other ≠ thread := by
        rintro rfl
        exact quiet e inside
      simp [writes,away]
    | invoke other call =>
      by_cases here : other = thread
      · subst here
        obtain ⟨ex,ended⟩ := Option.isSome_iff_exists.mp (rpc call inside)
        simp [writes,ended]
      · simp [writes,here]
    | _ => rfl

theorem writes_some {thread : Thread} {event : Event Thread Throwable Value Argument} {e : Throwable}
    (written : writes thread event = some (some e)) : event = .error thread e := by
  cases event with
  | error other cause =>
    simp only [writes] at written
    split at written
    · next here => rw [← here,Option.some.inj (Option.some.inj written)]
    · cases written
  | invoke other call =>
    simp only [writes] at written
    split at written <;> cases written
  | _ => cases written

variable (reading) in
/-- What is left over from an earlier call is what an entry can show that is not its own. -/
theorem left_iff (thread : Thread) (before : List (Event Thread Throwable Value Argument)) :
    Left thread before ↔
      (final OwnLog.step {} before).lastException thread = none ∧
        (final (State.step reading) {} before).lastException thread ≠ none := by
  rw [final_lastException,final_ownLastException]
  constructor
  · rintro ⟨first,e,second,rfl,quiet,called,rpc⟩
    have wrote : final (fun held event => (writes thread event).getD held) none (first++.error thread e::second) = some e :=
      (final_write_iff _ _ _ _).mpr (.inr ⟨first,_,second,rfl,by simp [writes],writes_none_iff.mpr ⟨quiet,rpc⟩⟩)
    refine ⟨?_,by rw [wrote]; simp⟩
    rw [final_ownError]
    rcases own_quiet (some e) quiet with ⟨-,absent⟩ | ⟨cleared,-⟩
    · obtain ⟨call,inside⟩ := called
      exact absurd inside (absent call)
    · exact cleared
  · rintro ⟨own,kept⟩
    obtain ⟨e,held⟩ := Option.ne_none_iff_exists'.mp kept
    rcases (final_write_iff _ _ _ _).mp held with ⟨absurdity,-⟩ | ⟨first,event,second,rfl,written,silent⟩
    · cases absurdity
    · obtain rfl := writes_some written
      obtain ⟨quiet,rpc⟩ := writes_none_iff.mp silent
      refine ⟨first,e,second,rfl,quiet,?_,rpc⟩
      rw [final_ownError] at own
      rcases own_quiet (some e) quiet with ⟨same,-⟩ | ⟨-,called⟩
      · cases same.symm.trans own
      · exact called

variable (reading) in
private theorem own_or_none (log : OwnLog Thread Throwable Value Argument)
    (state : State Thread Throwable Value Argument)
    (events : List (Event Thread Throwable Value Argument)) (thread : Thread)
    (initial : log.lastException thread = none ∨ log.lastException thread = state.lastException thread) :
    (final OwnLog.step log events).lastException thread = none ∨
      (final OwnLog.step log events).lastException thread =
        (final (State.step reading) state events).lastException thread := by
  induction events generalizing log state with
  | nil => exact initial
  | cons event rest ih =>
    refine ih _ _ ?_
    rw [step_lastException,ownStep_lastException]
    cases event with
    | error other e =>
      by_cases here : other = thread
      · simp [ownWrites,writes,here]
      · simpa [ownWrites,writes,here] using initial
    | invoke other call =>
      by_cases here : other = thread
      · simp [ownWrites,here]
      · simpa [ownWrites,writes,here] using initial
    | _ => exact initial

omit [DecidableEq Thread] in
theorem getReturnData_ne (returnData : String) : reading.getReturnData (some returnData) ≠ reading.getReturnData none := by
  intro same
  have sizes := congrArg String.length same
  simp [Reading.getReturnData] at sizes

omit [DecidableEq Thread] in
theorem run_read {call : Call Throwable Value Argument} (rpc : call.answer.rpc = none) {message : String}
    (read : reading.toJSONString call.arguments = some message) (lastException : Option Throwable) :
    reading.run (call.woker lastException) = (reading.returned call.answer.result lastException).map
      fun (status,returnMessage,returnData) =>
        reading.buildApiInvokeJobMessage (call.woker none) message status returnMessage returnData := by
  simp only [Reading.run,Call.woker,read,rpc,Option.none_or]
  rfl

omit [DecidableEq Thread] in
theorem run_eq_iff (call : Call Throwable Value Argument) {e : Throwable}
    (named : reading.getDetailMessage e ≠ NO_EXCEPTION) :
    reading.run (call.woker (some e)) = reading.run (call.woker none) ↔ ¬ Shows reading call := by
  cases rpc : call.answer.rpc with
  | some ex => simp [woker_rpc rpc (some e) none,Shows,rpc]
  | none =>
    cases read : reading.toJSONString call.arguments with
    | none => simp [Reading.run,Call.woker,Shows,read]
    | some message =>
      rw [run_read rpc read,run_read rpc read]
      cases ended : call.answer.result with
      | none =>
        refine iff_of_false (fun same => ?_) (fun hidden => hidden ⟨rpc,by simp [read],by simp [ended]⟩)
        have messages := congrArg ApiInvokeLogEntry.returnMessage (Option.some.inj same)
        exact named (Option.some.inj messages)
      | some result =>
        cases value : result.value with
        | none =>
          refine iff_of_true (by simp only [Reading.returned,value]) ?_
          rintro ⟨-,-,shown⟩
          obtain ⟨bizResult,-,absurdity,-⟩ := shown result ended
          rw [value] at absurdity
          cases absurdity
        | some bizResult =>
          cases reply : reading.toJSON bizResult with
          | none =>
            refine iff_of_true (by simp only [Reading.returned,value,reply]) ?_
            rintro ⟨-,-,shown⟩
            obtain ⟨other,returnMessage,same,absurdity⟩ := shown result ended
            rw [value] at same
            cases same
            rw [reply] at absurdity
            cases absurdity
          | some answer =>
            obtain ⟨status,returnMessage⟩ := answer
            by_cases failed : status = SYS_ERROR
            · refine iff_of_false (fun same => ?_) (fun hidden => hidden ⟨rpc,by simp [read],?_⟩)
              · simp only [Reading.returned,value,reply,failed,if_true,Option.map_some,Option.some.injEq] at same
                exact getReturnData_ne _ (congrArg ApiInvokeLogEntry.returnData same)
              · rintro other returned
                rw [ended] at returned
                cases returned
                exact ⟨bizResult,returnMessage,value,by rw [reply,failed]⟩
            · refine iff_of_true (by simp only [Reading.returned,value,reply,failed,if_false]) ?_
              rintro ⟨-,-,shown⟩
              obtain ⟨other,otherMessage,same,shows⟩ := shown result ended
              rw [value] at same
              cases same
              rw [reply] at shows
              exact failed (congrArg Prod.fst (Option.some.inj shows))

private theorem handed_invoke (before : List (Event Thread Throwable Value Argument)) (thread : Thread)
    (call : Call Throwable Value Argument) :
    (final (State.step reading) {} (before++[.invoke thread call])).handed =
      (final (State.step reading) {} before).handed++
        [call.woker ((final (State.step reading) {} before).lastException thread)] := by
  rw [final,List.foldl_append]
  exact invoke_handed _ thread call

private theorem ownHanded_invoke (before : List (Event Thread Throwable Value Argument)) (thread : Thread)
    (call : Call Throwable Value Argument) :
    (final OwnLog.step {} (before++[.invoke thread call])).handed =
      (final OwnLog.step {} before).handed++[call.woker ((final OwnLog.step {} before).lastException thread)] := by
  rw [final,List.foldl_append]
  rfl

variable (reading) in
private theorem handed_other (before : List (Event Thread Throwable Value Argument))
    {event : Event Thread Throwable Value Argument} (other : ∀ thread call, event ≠ .invoke thread call) :
    (final (State.step reading) {} (before++[event])).handed = (final (State.step reading) {} before).handed ∧
      (final OwnLog.step {} (before++[event])).handed = (final OwnLog.step {} before).handed := by
  simp only [final,List.foldl_append,List.foldl_cons,List.foldl_nil]
  cases event with
  | invoke thread call => exact absurd rfl (other thread call)
  | work => exact ⟨(work_frame _).2,rfl⟩
  | produce index outcome => exact ⟨(produce_frame _ index outcome).2,rfl⟩
  | _ => exact ⟨rfl,rfl⟩

omit [DecidableEq Thread] in
private theorem each_invoke_append {property : List (Event Thread Throwable Value Argument) → Thread →
      Call Throwable Value Argument → Prop} (events : List (Event Thread Throwable Value Argument))
    (event : Event Thread Throwable Value Argument) :
    (∀ before thread call after, events++[event] = before++.invoke thread call::after → property before thread call) ↔
      (∀ before thread call after, events = before++.invoke thread call::after → property before thread call) ∧
        ∀ thread call, event = .invoke thread call → property events thread call := by
  constructor
  · intro each
    refine ⟨fun before thread call after split => ?_,fun thread call last => ?_⟩
    · exact each before thread call (after++[event]) (by rw [split,List.append_assoc,List.cons_append])
    · exact each events thread call [] (by rw [last])
  · rintro ⟨earlier,last⟩ before thread call after split
    rcases List.eq_nil_or_concat after with rfl | ⟨inner,ending,rfl⟩
    · obtain ⟨rfl,same⟩ := List.append_inj' split rfl
      exact last thread call (List.cons.inj same).1
    · rw [List.concat_eq_append,← List.cons_append,← List.append_assoc] at split
      exact earlier before thread call inner (List.append_inj' split rfl).1

theorem entry_own_iff (named : ∀ e, reading.getDetailMessage e ≠ NO_EXCEPTION)
    (before : List (Event Thread Throwable Value Argument)) (thread : Thread) (call : Call Throwable Value Argument) :
    reading.run (call.woker ((final (State.step reading) {} before).lastException thread)) =
        reading.run (call.woker ((final OwnLog.step {} before).lastException thread)) ↔
      (Shows reading call → ¬ Left thread before) := by
  rw [left_iff reading]
  rcases own_or_none reading {} {} before thread (.inl rfl) with own | own
  · cases last : (final (State.step reading) {} before).lastException thread with
    | none => simp [own]
    | some e => simp [own,run_eq_iff call (named e)]
  · simp [own]

/-- Over every interleaving of the threads, the log is the one in which each call shows its
own exceptions only, exactly if no call that shows an exception comes while one is left over. -/
theorem log_own_iff (named : ∀ e, reading.getDetailMessage e ≠ NO_EXCEPTION)
    (events : List (Event Thread Throwable Value Argument)) :
    (final (State.step reading) {} events).handed.map reading.run = (final OwnLog.step {} events).handed.map reading.run ↔
      ∀ before thread call after, events = before++.invoke thread call::after → Shows reading call →
        ¬ Left thread before := by
  induction events using List.reverseRecOn with
  | nil => simp
  | append_singleton events event ih =>
    rw [each_invoke_append,← ih]
    by_cases called : ∃ thread call, event = .invoke thread call
    · obtain ⟨thread,call,rfl⟩ := called
      rw [handed_invoke,ownHanded_invoke,List.map_append,List.map_append]
      constructor
      · intro same
        obtain ⟨earlier,last⟩ := List.append_inj' same rfl
        refine ⟨earlier,fun other next split => ?_⟩
        cases split
        exact (entry_own_iff named events thread call).mp (List.cons.inj last).1
      · rintro ⟨earlier,last⟩
        rw [earlier]
        exact congrArg _ (congrArg (fun entry => [entry])
          ((entry_own_iff named events thread call).mpr (last thread call rfl)))
    · have other : ∀ thread call, event ≠ .invoke thread call := fun thread call same => called ⟨thread,call,same⟩
      obtain ⟨here,own⟩ := handed_other reading events other
      rw [here,own]
      exact ⟨fun same => ⟨same,fun thread call split => absurd split (other thread call)⟩,And.left⟩

def statusReading : Reading Unit ℤ Unit where
  text := fun _ => "java.lang.IllegalStateException: stock"
  getStackTrace := fun _ => ["com.yz.StockService.decrease(StockService.java:31)"]
  toJSON := fun status => some (status,none)
  toJSONString := fun _ => some "[]"
  escape := id
  application := "stock"

def stockCall (answer : Answer Unit ℤ) : Call Unit ℤ Unit :=
  ⟨"com.yz.StockService","decrease",(),some "stock","10.0.0.2",some ("web","10.0.0.1"),100,200,answer⟩

def failedCall : Call Unit ℤ Unit := stockCall (.returned (some {value := some SYS_ERROR}))

/-- The first call logs an exception and ends with an `RpcException`; the next one shows it. -/
theorem log_own_left : (final (State.step statusReading) {} [.error true (),.invoke true (stockCall (.rpcException ())),
      .invoke false failedCall,.invoke true failedCall]).handed.map statusReading.run ≠
    (final OwnLog.step {} [.error true (),.invoke true (stockCall (.rpcException ())),
      .invoke false failedCall,.invoke true failedCall]).handed.map statusReading.run := by
  intro same
  refine (log_own_iff (fun ⟨⟩ => by decide) _).mp same
    [.error true (),.invoke true (stockCall (.rpcException ())),.invoke false failedCall] true failedCall [] rfl ?_ ?_
  · refine ⟨rfl,by decide,fun result ended => ?_⟩
    cases ended
    exact ⟨SYS_ERROR,none,rfl,rfl⟩
  · refine ⟨[],(),_,rfl,by simp,⟨_,List.mem_cons_self⟩,fun call inside => ?_⟩
    rcases List.mem_cons.mp inside with same | inside
    · cases same
      rfl
    · simp at inside

/-- The entries on their way: still to be made, in the pool, on the queue. -/
def State.entries (reading : Reading Throwable Value Argument) (state : State Thread Throwable Value Argument) :
    List ApiInvokeLogEntry :=
  state.executor.filterMap reading.run++state.pool++state.jobs

def State.made (reading : Reading Throwable Value Argument) (state : State Thread Throwable Value Argument) :
    List ApiInvokeLogEntry :=
  state.handed.filterMap reading.run

/-- The event drops no entry: nothing is refused after a shutdown, thrown away by
`shutdownNow`, or lost in a call that throws before its effect. -/
def Kept (reading : Reading Throwable Value Argument) (state : State Thread Throwable Value Argument) :
    Event Thread Throwable Value Argument → Prop
  | .invoke thread call => state.executorShutdown = true →
      reading.run (call.woker (state.lastException thread)) = none
  | .work => state.poolShutdown = true → ∀ woker ∈ state.executor.head?, reading.run woker = none
  | .produce index outcome => outcome.effective = true ∨ (state.pool.take DEFAULT_WORK_NUM)[index]? = none
  | .destroyBizLogger running => state.pool.length ≤ min running DEFAULT_WORK_NUM
  | _ => True

/-- What a step makes and what it drops. -/
structure Moves (reading : Reading Throwable Value Argument) (state after : State Thread Throwable Value Argument)
    (new lost : List ApiInvokeLogEntry) : Prop where
  made : after.made reading = state.made reading++new
  entries : (lost++after.entries reading).Perm (new++state.entries reading)

omit [DecidableEq Thread] in
private theorem moves_same (state : State Thread Throwable Value Argument) : Moves reading state state [] [] :=
  ⟨by simp,.rfl⟩

omit [DecidableEq Thread] in
private theorem moves_execute (state : State Thread Throwable Value Argument)
    (woker : InvokeLogWoker Throwable Value Argument) :
    Moves reading state (state.execute woker).2 (reading.run woker).toList
      (if state.executorShutdown then (reading.run woker).toList else []) := by
  unfold State.execute
  cases state.executorShutdown with
  | true => exact ⟨by cases read : reading.run woker <;> simp [State.made,read],.rfl⟩
  | false =>
    refine ⟨by cases read : reading.run woker <;> simp [State.made,read],?_⟩
    cases read : reading.run woker with
    | none => simp [State.entries,read]
    | some entry =>
      rw [List.perm_iff_count]
      intro other
      simp [State.entries,read,List.count_cons]
      omega

omit [DecidableEq Thread] in
private theorem moves_work (state : State Thread Throwable Value Argument) :
    ∃ lost, Moves reading state (state.work reading) [] lost ∧ (lost = [] ↔ Kept reading state .work) := by
  unfold State.work
  cases tasks : state.executor with
  | nil => exact ⟨[],moves_same state,by simp [Kept,tasks]⟩
  | cons woker executor =>
    dsimp only
    cases read : reading.run woker with
    | none => exact ⟨[],⟨by simp [State.made],by simp [State.entries,tasks,read]⟩,by simp [Kept,tasks,read]⟩
    | some entry =>
      cases closed : state.poolShutdown with
      | true =>
        refine ⟨[entry],⟨by simp [State.made],?_⟩,by simp [Kept,tasks,read,closed]⟩
        simp [State.entries,tasks,read]
      | false =>
        refine ⟨[],⟨by simp [State.made],?_⟩,by simp [Kept,closed]⟩
        rw [List.perm_iff_count]
        intro other
        simp [State.entries,tasks,read,List.count_cons]
        omega

omit [DecidableEq Thread] in
private theorem moves_produce (state : State Thread Throwable Value Argument) (index : ℕ) (outcome : Outcome) :
    ∃ lost, Moves reading state (state.produce index outcome) [] lost ∧
      (lost = [] ↔ Kept reading state (.produce index outcome)) := by
  unfold State.produce
  cases held : (state.pool.take DEFAULT_WORK_NUM)[index]? with
  | none => exact ⟨[],moves_same state,by simp [Kept,held]⟩
  | some entry =>
    obtain ⟨inside,found⟩ := List.getElem?_eq_some_iff.mp held
    rw [List.getElem_take] at found
    have inPool : index < state.pool.length := lt_of_lt_of_le inside (List.length_take_le' _ _)
    have parts : (entry::state.pool.eraseIdx index).Perm state.pool := found ▸ List.getElem_cons_eraseIdx_perm inPool
    dsimp only
    cases effective : outcome.effective with
    | true =>
      refine ⟨[],⟨by simp [State.made],?_⟩,by simp [Kept,effective]⟩
      rw [List.perm_iff_count]
      intro other
      have counts := List.perm_iff_count.mp parts other
      simp [State.entries,List.count_cons] at counts ⊢
      omega
    | false =>
      refine ⟨[entry],⟨by simp [State.made],?_⟩,by simp [Kept,effective,held]⟩
      rw [List.perm_iff_count]
      intro other
      have counts := List.perm_iff_count.mp parts other
      simp [State.entries,List.count_cons] at counts ⊢
      omega

private theorem moves_destroy (state : State Thread Throwable Value Argument) (running : ℕ) :
    Moves reading state (state.step reading (.destroyBizLogger running)) []
      (state.pool.drop (min running DEFAULT_WORK_NUM)) := by
  refine ⟨by simp [State.step,State.made],?_⟩
  have parts := List.perm_iff_count.mp
    (List.Perm.of_eq (List.take_append_drop (min running DEFAULT_WORK_NUM) state.pool))
  rw [List.perm_iff_count]
  intro other
  have counts := parts other
  simp only [State.entries,State.step,List.count_append,List.count_nil] at counts ⊢
  omega

private theorem moves_invoke (state : State Thread Throwable Value Argument) (thread : Thread)
    (call : Call Throwable Value Argument) :
    Moves reading state (state.step reading (.invoke thread call))
      (reading.run (call.woker (state.lastException thread))).toList
      (if state.executorShutdown then (reading.run (call.woker (state.lastException thread))).toList else []) := by
  change Moves reading state (state.logInvoke thread call).2 _ _
  rw [logInvoke_eq]
  cases call.answer.rpc.isNone with
  | false => exact moves_execute state _
  | true =>
    obtain ⟨made,entries⟩ := moves_execute (state.setLastException thread none)
      (call.woker (state.lastException thread))
    exact ⟨made,entries⟩

theorem step_moves (state : State Thread Throwable Value Argument) (event : Event Thread Throwable Value Argument) :
    ∃ new lost, Moves reading state (state.step reading event) new lost ∧ (lost = [] ↔ Kept reading state event) := by
  cases event with
  | error thread e => exact ⟨[],[],⟨by simp [State.step,State.setLastException,State.made],.rfl⟩,by simp [Kept]⟩
  | invoke thread call =>
    refine ⟨_,_,moves_invoke state thread call,?_⟩
    cases closed : state.executorShutdown <;>
      cases read : reading.run (call.woker (state.lastException thread)) <;> simp [Kept,closed,read]
  | work => exact ⟨[],moves_work state⟩
  | produce index outcome => exact ⟨[],moves_produce state index outcome⟩
  | destroyInvokeLogger => exact ⟨[],[],⟨by simp [State.step,State.made],.rfl⟩,by simp [Kept]⟩
  | destroyBizLogger running => exact ⟨[],_,moves_destroy state running,by simp [Kept,List.drop_eq_nil_iff]⟩

theorem run_moves (start : State Thread Throwable Value Argument)
    (events : List (Event Thread Throwable Value Argument)) (before : List ApiInvokeLogEntry)
    (accounted : (before++start.entries reading).Perm (start.made reading)) :
    ∃ dropped, (dropped++before++(final (State.step reading) start events).entries reading).Perm
        ((final (State.step reading) start events).made reading) ∧
      (dropped = [] ↔ Along (State.step reading) (Kept reading) start events) := by
  induction events generalizing start before with
  | nil => exact ⟨[],accounted,by simp⟩
  | cons event rest ih =>
    obtain ⟨new,lost,⟨made,entries⟩,kept⟩ := step_moves start event
    have next : (lost++before++(start.step reading event).entries reading).Perm ((start.step reading event).made reading) := by
      rw [made,List.perm_iff_count]
      intro other
      have moved := List.perm_iff_count.mp entries other
      have same := List.perm_iff_count.mp accounted other
      simp only [List.count_append] at moved same ⊢
      omega
    obtain ⟨dropped,reached,later⟩ := ih _ _ next
    refine ⟨dropped++lost,by simpa [List.append_assoc] using reached,?_⟩
    rw [List.append_eq_nil_iff,later,kept,along_cons,and_comm]

/-- In every run, whatever is made of the calls is on its way or dropped, nothing twice; and
nothing is dropped exactly if no event of the run drops an entry. -/
theorem entries_kept_iff (events : List (Event Thread Throwable Value Argument)) :
    ∃ dropped, (dropped++(final (State.step reading) {} events).entries reading).Perm
        ((final (State.step reading) {} events).made reading) ∧
      (dropped = [] ↔ Along (State.step reading) (Kept reading) {} events) := by
  simpa using run_moves {} events [] .rfl

end YzFramework.Dubbo.InvokeLog
