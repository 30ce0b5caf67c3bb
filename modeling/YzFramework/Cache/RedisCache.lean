import YzFramework.Cache.RetryWorkers
import YzFramework.Library.Store
import YzFramework.Library.Text

/-! `RedisCache` on several instances over one Redis and one backend. What a worker
fetches and what it stores are separate steps; JSON is a parameter. -/
namespace YzFramework.Cache.RedisCache
open Library Library.Run Library.RetryQueue
open RetryWorkers.RedisCache (buildRedisKey updates removes)

variable {Instances Value : Type} [DecidableEq Instances]
variable (toJSONString : Value → String) (keyPrefix : String)

/-- How a call to Redis ends; one that throws may have had its effect. -/
inductive Outcome
  | done
  | refused
  | unanswered
deriving DecidableEq

def Outcome.throws (outcome : Outcome) : Bool := outcome != .done

def Outcome.effective (outcome : Outcome) : Bool := outcome != .refused

/-- The two queues with their workers, and what the update worker has fetched for the
key that it executes. -/
structure Instance (Value : Type) where
  updateQueue : RetryQueue.State String := {}
  fetched : Option (Option Value) := none
  removeQueue : RetryQueue.State String := {}

/-- `written` is bookkeeping. -/
structure State (Instances Value : Type) where
  backend : Store String Value
  redis : Store String String
  instances : Instances → Instance Value := fun _ => {}
  written : List String := []

/-- The steps of a queue that touch nothing else. -/
inductive Motion
  | put (position : ℕ)
  | take
  | putBack
  | wake

def Motion.event {Call : Type} : Motion → RetryQueue.Event Call
  | .put position => .put position
  | .take => .take
  | .putBack => .putBack
  | .wake => .wake

/-- A write is followed by `update` or `add` of its key; `delete` of one code is the
one of a list with it. `fetch` and `store` are the halves of `fetchAndAddToCache`. -/
inductive Event (Instances Value : Type)
  | write (site : Instances) (key : String) (value : Option Value)
  | delete (site : Instances) (keyList : List String) (outcome : Outcome)
  | update (site : Instances) (motion : Motion)
  | fetch (site : Instances) (fails : Bool)
  | store (site : Instances) (outcome : Outcome)
  | remove (site : Instances) (motion : Motion)
  | execute (site : Instances) (outcome : Outcome)

namespace Instance

def move (inst : Instance Value) (motion : Motion) : Instance Value :=
  {inst with
    updateQueue := RetryQueue.step updates inst.updateQueue motion.event
    fetched :=
      match inst.updateQueue.worker with
      | .executing _ => inst.fetched
      | _ => none}

/-- The update worker is through with its key, or puts it back. -/
def conclude (inst : Instance Value) (throws : Bool) : Instance Value :=
  {inst with
    updateQueue := RetryQueue.step updates inst.updateQueue (.execute throws)
    fetched := none}

def moveRemove (inst : Instance Value) (event : RetryQueue.Event RetryWorkers.RedisCache.Delete) :
    Instance Value :=
  {inst with removeQueue := RetryQueue.step (removes keyPrefix) inst.removeQueue event}

end Instance

/-- The deletion of what the backend has no value for, or the set of `add`. -/
def fetchAndAddToCache (redis : Store String String) (key : String) : Option Value → Store String String
  | none => Store.delete redis (buildRedisKey keyPrefix key)
  | some value => Store.put redis (buildRedisKey keyPrefix key) (toJSONString value)

def State.set (state : State Instances Value) (site : Instances) (inst : Instance Value) :
    State Instances Value :=
  {state with instances := Function.update state.instances site inst}

def step (state : State Instances Value) : Event Instances Value → State Instances Value
  | .write site key value =>
    let inst := state.instances site
    let called := RetryQueue.step updates inst.updateQueue (.call (.update key))
    {state.set site {inst with updateQueue := called} with
      backend := Function.update state.backend key value
      written := key::state.written}
  | .delete site keyList outcome =>
    {state.set site ((state.instances site).moveRemove keyPrefix (.call (.deleteAll keyList outcome.throws))) with
      redis := if outcome.effective then
          Store.deleteAll state.redis (keyList.map (buildRedisKey keyPrefix))
        else state.redis}
  | .update site motion => state.set site ((state.instances site).move motion)
  | .fetch site fails =>
    match (state.instances site).updateQueue.worker,(state.instances site).fetched with
    | .executing key,none =>
      if fails then state.set site ((state.instances site).conclude true)
      else state.set site {state.instances site with fetched := some (state.backend key)}
    | _,_ => state
  | .store site outcome =>
    match (state.instances site).updateQueue.worker,(state.instances site).fetched with
    | .executing key,some value =>
      {state.set site ((state.instances site).conclude outcome.throws) with
        redis := if outcome.effective then fetchAndAddToCache toJSONString keyPrefix state.redis key value
          else state.redis}
    | _,_ => state
  | .remove site motion => state.set site ((state.instances site).moveRemove keyPrefix motion.event)
  | .execute site outcome =>
    match (state.instances site).removeQueue.worker with
    | .executing redisKey =>
      {state.set site ((state.instances site).moveRemove keyPrefix (.execute outcome.throws)) with
        redis := if outcome.effective then Store.delete state.redis redisKey else state.redis}
    | _ => state

/-- Absent, or the JSON of what the backend has. -/
def Fresh (state : State Instances Value) (key : String) : Prop :=
  state.redis (buildRedisKey keyPrefix key) = none ∨
    state.redis (buildRedisKey keyPrefix key) = (state.backend key).map toJSONString

def Quiescent (state : State Instances Value) : Prop :=
  ∀ site, Idle (state.instances site).updateQueue ∧ Idle (state.instances site).removeQueue

/-- The instance is still to refresh the entry with the current value, or to remove it. -/
def Repairs (current : Option Value) (key : String) (inst : Instance Value) : Prop :=
  Due inst.updateQueue key ∨
  (inst.updateQueue.worker = .executing key ∧ ∀ value, inst.fetched = some (some value) →
    some (toJSONString value) = current.map toJSONString) ∨
  Holds inst.removeQueue (buildRedisKey keyPrefix key)

/-- A set that goes through writes what the backend has by now, or what is written is
still to be repaired. -/
def Fit (state : State Instances Value) : Event Instances Value → Prop
  | .store site .done =>
    ∀ key value, (state.instances site).updateQueue.worker = .executing key →
      (state.instances site).fetched = some (some value) → key ∈ state.written →
      some (toJSONString value) = (state.backend key).map toJSONString ∨
      Queued (state.instances site).updateQueue key ∨
      Holds (state.instances site).removeQueue (buildRedisKey keyPrefix key) ∨
      ∃ other, other ≠ site ∧
        Repairs toJSONString keyPrefix (state.backend key) key (state.instances other)
  | _ => True

def Sound (state : State Instances Value) (key : String) : Prop :=
  Fresh toJSONString keyPrefix state key ∨
    ∃ site, Repairs toJSONString keyPrefix (state.backend key) key (state.instances site)

def Safe (state : State Instances Value) : Prop :=
  ∀ key ∈ state.written, Sound toJSONString keyPrefix state key

variable {toJSONString keyPrefix}

theorem buildRedisKey_inj {key other : String} :
    buildRedisKey keyPrefix key = buildRedisKey keyPrefix other ↔ key = other := by
  simp [buildRedisKey]

private theorem repairs_move {current : Option Value} {key : String} {inst : Instance Value} (motion : Motion)
    (repairs : Repairs toJSONString keyPrefix current key inst) :
    Repairs toJSONString keyPrefix current key (inst.move motion) := by
  rcases repairs with due | ⟨executing,unfetched⟩ | holds
  · rcases due_step updates motion.event due with later | ⟨taking,_,taken⟩
    · exact .inl later
    · refine .inr (.inl ⟨taken,fun value fetched => ?_⟩)
      simp [Instance.move,taking] at fetched
  · refine .inr (.inl ⟨?_,fun value fetched => unfetched value ?_⟩)
    · cases motion with
      | put position =>
        simp only [Instance.move,Motion.event,RetryQueue.step]
        split
        · split <;> exact executing
        · exact executing
      | take | putBack | wake => simp only [Instance.move,Motion.event,RetryQueue.step,executing]
    · simpa [Instance.move,executing] using fetched
  · exact .inr (.inr holds)

theorem repairs_moveRemove {current : Option Value} {key : String} {inst : Instance Value}
    (event : RetryQueue.Event RetryWorkers.RedisCache.Delete)
    (unfinished : event = .execute false →
      inst.removeQueue.worker ≠ .executing (buildRedisKey keyPrefix key))
    (repairs : Repairs toJSONString keyPrefix current key inst) :
    Repairs toJSONString keyPrefix current key (inst.moveRemove keyPrefix event) :=
  repairs.imp_right fun rest => rest.imp_right fun holds =>
    holds_step (removes keyPrefix) event holds unfinished

theorem repairs_conclude {current : Option Value} {key : String} {inst : Instance Value}
    {executed : String} (executing : inst.updateQueue.worker = .executing executed)
    (repairs : Repairs toJSONString keyPrefix current key inst) :
    Repairs toJSONString keyPrefix current key (inst.conclude true) ∧
      (key ≠ executed → Repairs toJSONString keyPrefix current key (inst.conclude false)) := by
  have conclude : ∀ throws, key ≠ executed ∨ throws = true →
      Repairs toJSONString keyPrefix current key (inst.conclude throws) := by
    intro throws other
    rcases repairs with due | ⟨same,_⟩ | holds
    · rcases due_step updates (.execute throws) due with later | ⟨_,taken,_⟩
      · exact .inl later
      · cases taken
    · rw [executing] at same
      cases same
      rcases other with other | rfl
      · exact absurd rfl other
      · refine .inl (.inr ?_)
        simp only [Instance.conclude,RetryQueue.step,executing,if_true]
    · exact .inr (.inr holds)
  exact ⟨conclude true (.inr rfl),fun other => conclude false (.inl other)⟩

/-- One instance moves, and Redis: a key is then fresh or repaired, or its entry is as
it was and a repair by the instance is kept. -/
theorem sound_set {state : State Instances Value} {site : Instances} {inst : Instance Value}
    {redis : Store String String} {key : String} (sound : Sound toJSONString keyPrefix state key)
    (each : Fresh toJSONString keyPrefix {state.set site inst with redis := redis} key ∨
      Repairs toJSONString keyPrefix (state.backend key) key inst ∨
      redis (buildRedisKey keyPrefix key) = state.redis (buildRedisKey keyPrefix key) ∧
        (Repairs toJSONString keyPrefix (state.backend key) key (state.instances site) →
          Repairs toJSONString keyPrefix (state.backend key) key inst)) :
    Sound toJSONString keyPrefix {state.set site inst with redis := redis} key := by
  rcases each with fresh | repairs | ⟨same,kept⟩
  · exact .inl fresh
  · exact .inr ⟨site,by simpa [State.set] using repairs⟩
  · rcases sound with fresh | ⟨other,repairs⟩
    · refine .inl ?_
      unfold Fresh at fresh ⊢
      rw [← same] at fresh
      exact fresh
    · refine .inr ⟨other,?_⟩
      by_cases own : other = site
      · subst own
        simpa [State.set] using kept repairs
      · simpa [State.set,Function.update_of_ne own] using repairs

theorem safe_set {state : State Instances Value} {site : Instances} {inst : Instance Value}
    {redis : Store String String} (safe : Safe toJSONString keyPrefix state)
    (each : ∀ key ∈ state.written,
      Fresh toJSONString keyPrefix {state.set site inst with redis := redis} key ∨
      Repairs toJSONString keyPrefix (state.backend key) key inst ∨
      redis (buildRedisKey keyPrefix key) = state.redis (buildRedisKey keyPrefix key) ∧
        (Repairs toJSONString keyPrefix (state.backend key) key (state.instances site) →
          Repairs toJSONString keyPrefix (state.backend key) key inst)) :
    Safe toJSONString keyPrefix {state.set site inst with redis := redis} :=
  fun key member => sound_set (safe key member) (each key member)

private theorem safe_write {state : State Instances Value} (safe : Safe toJSONString keyPrefix state)
    (site : Instances) (key : String) (value : Option Value) :
    Safe toJSONString keyPrefix (step toJSONString keyPrefix state (.write site key value)) := by
  intro written member
  by_cases same : written = key
  · subst same
    refine .inr ⟨site,.inl (.inl ?_)⟩
    simp only [step,State.set,Function.update_self]
    exact queued_call updates _ (.inr (List.mem_singleton_self _))
  · have held : written ∈ state.written := (List.mem_cons.mp member).resolve_left same
    have current : Function.update state.backend key value written = state.backend written :=
      Function.update_of_ne same ..
    rcases safe written held with fresh | ⟨other,repairs⟩
    · refine .inl ?_
      simp only [Fresh,step,State.set,current]
      exact fresh
    · refine .inr ⟨other,?_⟩
      simp only [step,State.set,current]
      by_cases own : other = site
      · subst own
        rw [Function.update_self]
        rcases repairs with due | others
        · exact .inl (due.imp_left fun queued => queued_call updates _ (.inl queued))
        · exact .inr others
      · rw [Function.update_of_ne own]
        exact repairs

private theorem safe_delete {state : State Instances Value} (safe : Safe toJSONString keyPrefix state)
    (site : Instances) (keyList : List String) (outcome : Outcome) :
    Safe toJSONString keyPrefix
      (step toJSONString keyPrefix state (.delete site keyList outcome)) := by
  apply safe_set safe
  intro key _
  have kept := @repairs_moveRemove _ toJSONString keyPrefix (state.backend key) key (state.instances site)
    (.call (.deleteAll keyList outcome.throws)) (fun finished => by cases finished)
  split
  · rw [Store.deleteAll_apply]
    by_cases inside : buildRedisKey keyPrefix key ∈ keyList.map (buildRedisKey keyPrefix)
    · exact .inl (.inl ((Store.deleteAll_apply ..).trans (if_pos inside)))
    · exact .inr (.inr ⟨if_neg inside,kept⟩)
  · exact .inr (.inr ⟨rfl,kept⟩)

omit [DecidableEq Instances] in
private theorem fetched_current {state : State Instances Value} {site : Instances} {executed key : String}
    {value : Value}
    (executing : (state.instances site).updateQueue.worker = .executing executed)
    (same : (state.instances site).updateQueue.worker = .executing key)
    (fetched : some (state.backend executed) = some (some value)) :
    some (toJSONString value) = (state.backend key).map toJSONString := by
  rw [executing] at same
  cases same
  rw [Option.some.inj fetched]
  rfl

private theorem safe_fetch {state : State Instances Value} (safe : Safe toJSONString keyPrefix state)
    (site : Instances) (fails : Bool) :
    Safe toJSONString keyPrefix (step toJSONString keyPrefix state (.fetch site fails)) := by
  simp only [step]
  split
  next executed executing unfetched =>
    split
    · exact safe_set safe fun key _ =>
        .inr (.inr ⟨rfl,fun repairs => (repairs_conclude executing repairs).1⟩)
    · refine safe_set safe fun key _ => .inr (.inr ⟨rfl,fun repairs => ?_⟩)
      rcases repairs with due | ⟨same,_⟩ | holds
      · exact .inl due
      · exact .inr (.inl ⟨same,fun value fetched => fetched_current executing same fetched⟩)
      · exact .inr (.inr holds)
  next => exact safe

private theorem safe_execute {state : State Instances Value} (safe : Safe toJSONString keyPrefix state)
    (site : Instances) (outcome : Outcome) :
    Safe toJSONString keyPrefix (step toJSONString keyPrefix state (.execute site outcome)) := by
  simp only [step]
  split
  next redisKey executing =>
    apply safe_set safe
    intro key _
    by_cases own : redisKey = buildRedisKey keyPrefix key
    · subst own
      cases outcome with
      | done =>
        refine .inl (.inl ?_)
        simp [Outcome.effective,Store.delete_apply]
      | refused | unanswered =>
        refine .inr (.inl (.inr (.inr (.inl (.inr ?_)))))
        simp only [Instance.moveRemove,RetryQueue.step,executing]
        rfl
    · refine .inr (.inr ⟨?_,fun repairs => repairs_moveRemove _ (fun _ same => ?_) repairs⟩)
      · split
        · rw [Store.delete_apply,if_neg fun same => own same.symm]
        · rfl
      · rw [executing] at same
        cases same
        exact own rfl
  next => exact safe

theorem fetchAndAddToCache_other (redis : Store String String) {key other : String}
    (different : other ≠ key) (value : Option Value) :
    fetchAndAddToCache toJSONString keyPrefix redis key value (buildRedisKey keyPrefix other) =
      redis (buildRedisKey keyPrefix other) := by
  have apart : buildRedisKey keyPrefix other ≠ buildRedisKey keyPrefix key := mt buildRedisKey_inj.mp different
  cases value with
  | none => rw [fetchAndAddToCache,Store.delete_apply,if_neg apart]
  | some value => rw [fetchAndAddToCache,Store.put_apply,if_neg apart]

private theorem safe_store_throws {state : State Instances Value} (safe : Safe toJSONString keyPrefix state)
    (site : Instances) {outcome : Outcome} (throws : outcome.throws = true) :
    Safe toJSONString keyPrefix (step toJSONString keyPrefix state (.store site outcome)) := by
  simp only [step,throws]
  split
  next executed value executing fetched =>
    apply safe_set safe
    intro key _
    by_cases own : key = executed
    · subst own
      refine .inr (.inl (.inl (.inr ?_)))
      simp only [Instance.conclude,RetryQueue.step,executing,if_true]
    · refine .inr (.inr ⟨?_,fun repairs => (repairs_conclude executing repairs).1⟩)
      split
      · exact fetchAndAddToCache_other _ own _
      · rfl
  next => exact safe

private theorem repairs_done {current : Option Value} {key executed : String} {inst : Instance Value}
    (executing : inst.updateQueue.worker = .executing executed) :
    Repairs toJSONString keyPrefix current key (inst.conclude false) ↔
      Queued inst.updateQueue key ∨ Holds inst.removeQueue (buildRedisKey keyPrefix key) := by
  have queue : (inst.conclude false).updateQueue = {inst.updateQueue with worker := .taking} := by
    simp only [Instance.conclude,RetryQueue.step,executing]
    rfl
  unfold Repairs Due
  rw [queue]
  constructor
  · rintro ((queued | putting) | ⟨still,_⟩ | holds)
    · exact .inl queued
    · cases putting
    · cases still
    · exact .inr holds
  · rintro (queued | holds)
    · exact .inl (.inl queued)
    · exact .inr (.inr holds)

/-- A set that goes through is safe exactly if its value is current or still to be
repaired. -/
theorem safe_put {state : State Instances Value} (safe : Safe toJSONString keyPrefix state)
    {site : Instances} {executed : String} (value : Value)
    (executing : (state.instances site).updateQueue.worker = .executing executed) :
    Safe toJSONString keyPrefix {state.set site ((state.instances site).conclude false) with
        redis := fetchAndAddToCache toJSONString keyPrefix state.redis executed (some value)} ↔
      (executed ∈ state.written →
        some (toJSONString value) = (state.backend executed).map toJSONString ∨
        Queued (state.instances site).updateQueue executed ∨
        Holds (state.instances site).removeQueue (buildRedisKey keyPrefix executed) ∨
        ∃ other, other ≠ site ∧
          Repairs toJSONString keyPrefix (state.backend executed) executed (state.instances other)) := by
  constructor
  · intro after member
    rcases after executed member with (removed | current) | ⟨other,repairs⟩
    · simp [fetchAndAddToCache,Store.put_apply] at removed
    · refine .inl ?_
      simpa [fetchAndAddToCache,Store.put_apply,State.set] using current
    · by_cases own : other = site
      · subst own
        simp only [State.set,Function.update_self] at repairs
        exact .inr (((repairs_done executing).mp repairs).imp_right .inl)
      · refine .inr (.inr (.inr ⟨other,own,?_⟩))
        simpa [State.set,Function.update_of_ne own] using repairs
  · intro fit key member
    by_cases own : key = executed
    · subst own
      have kept := @repairs_done _ toJSONString keyPrefix (state.backend key) key key _ executing
      rcases fit member with current | queued | holds | ⟨other,apart,repairs⟩
      · refine .inl (.inr ?_)
        simpa [fetchAndAddToCache,Store.put_apply,State.set] using current
      · exact sound_set (safe key member) (.inr (.inl (kept.mpr (.inl queued))))
      · exact sound_set (safe key member) (.inr (.inl (kept.mpr (.inr holds))))
      · refine .inr ⟨other,?_⟩
        simpa [State.set,Function.update_of_ne apart] using repairs
    · exact sound_set (safe key member) (.inr (.inr ⟨fetchAndAddToCache_other _ own _,fun repairs =>
        (repairs_conclude executing repairs).2 own⟩))

private theorem safe_store_done {state : State Instances Value} (safe : Safe toJSONString keyPrefix state)
    (site : Instances) :
    Safe toJSONString keyPrefix (step toJSONString keyPrefix state (.store site .done)) ↔
      Fit toJSONString keyPrefix state (.store site .done) := by
  have ended : Outcome.done.throws = false ∧ Outcome.done.effective = true := ⟨rfl,rfl⟩
  simp only [step,Fit,ended,if_true]
  split
  next executed value executing fetched =>
    cases value with
    | none =>
      refine iff_of_true (safe_set safe fun key _ => ?_) fun key value _ found => ?_
      · by_cases own : key = executed
        · subst own
          refine .inl (.inl ?_)
          simp [fetchAndAddToCache,Store.delete_apply]
        · exact .inr (.inr ⟨fetchAndAddToCache_other _ own _,fun repairs =>
            (repairs_conclude executing repairs).2 own⟩)
      · rw [fetched] at found
        cases found
    | some value =>
      rw [safe_put safe value executing,executing,fetched]
      constructor
      · rintro fit _ _ ⟨⟩ ⟨⟩
        exact fit
      · exact fun fit => fit executed value rfl rfl
  next idle =>
    apply iff_of_true safe
    intro key value executing fetched _
    exact absurd fetched (idle key (some value) executing)

private theorem safe_step {state : State Instances Value} (event : Event Instances Value)
    (safe : Safe toJSONString keyPrefix state) :
    Safe toJSONString keyPrefix (step toJSONString keyPrefix state event) ↔
      Fit toJSONString keyPrefix state event := by
  cases event with
  | write site key value => exact iff_of_true (safe_write safe site key value) trivial
  | delete site keyList outcome => exact iff_of_true (safe_delete safe site keyList outcome) trivial
  | update site motion =>
    exact iff_of_true (safe_set safe fun key _ =>
      .inr (.inr ⟨rfl,repairs_move motion⟩)) trivial
  | fetch site fails => exact iff_of_true (safe_fetch safe site fails) trivial
  | store site outcome =>
    cases outcome with
    | done => exact safe_store_done safe site
    | refused | unanswered => exact iff_of_true (safe_store_throws safe site rfl) trivial
  | remove site motion =>
    refine iff_of_true (safe_set safe fun key _ =>
      .inr (.inr ⟨rfl,repairs_moveRemove motion.event fun finished => ?_⟩)) trivial
    cases motion <;> cases finished
  | execute site outcome => exact iff_of_true (safe_execute safe site outcome) trivial

section Runs
variable (toJSONString keyPrefix) (backend : Store String Value) (redis : Store String String)

theorem run_safe (events : List (Event Instances Value)) :
    (∀ before, before <+: events →
      Safe toJSONString keyPrefix (final (step toJSONString keyPrefix) ⟨backend,redis,fun _ => {},[]⟩ before)) ↔
      Along (step toJSONString keyPrefix) (Fit toJSONString keyPrefix)
        (⟨backend,redis,fun _ => {},[]⟩ : State Instances Value) events := by
  have start : Safe toJSONString keyPrefix (⟨backend,redis,fun _ => {},[]⟩ : State Instances Value) :=
    fun key written => by cases written
  rw [← @along_reached _ _ (step toJSONString keyPrefix) (Safe toJSONString keyPrefix) _ events start]
  exact @along_iff _ _ (step toJSONString keyPrefix)
    (fun state event => Safe toJSONString keyPrefix (step toJSONString keyPrefix state event)) _
    (Safe toJSONString keyPrefix) (fun state event safe => safe_step event safe)
    (fun state event safe => (safe_step event safe).mpr) _ events start

/-- In a run whose sets are all fit, whenever all queues are empty and all workers are
idle, the entry of every written key is absent or current. -/
theorem quiescent_fresh (events : List (Event Instances Value))
    (fit : Along (step toJSONString keyPrefix) (Fit toJSONString keyPrefix)
      (⟨backend,redis,fun _ => {},[]⟩ : State Instances Value) events) :
    ∀ before, before <+: events →
      Quiescent (final (step toJSONString keyPrefix) ⟨backend,redis,fun _ => {},[]⟩ before) →
      ∀ key ∈ (final (step toJSONString keyPrefix) ⟨backend,redis,fun _ => {},[]⟩ before).written,
        Fresh toJSONString keyPrefix
          (final (step toJSONString keyPrefix) ⟨backend,redis,fun _ => {},[]⟩ before) key := by
  intro before inside quiescent key written
  have safe := (run_safe toJSONString keyPrefix backend redis events).mpr fit before inside
  rcases safe key written with fresh | ⟨site,repairs⟩
  · exact fresh
  · obtain ⟨updated,removed⟩ := quiescent site
    rcases repairs with due | ⟨executing,_⟩ | holds
    · exact absurd (.inl due) (updated.holds_not key)
    · exact absurd (.inr executing) (updated.holds_not key)
    · exact absurd holds (removed.holds_not _)

end Runs

def refreshed : List (Event Bool String) :=
  [.write false "7" (some "1"),.update false (.put 0),.update false .take,.fetch false false,
    .store false .done]

theorem quiescent_fresh_refreshed : Fresh id "coupon:"
    (final (step id "coupon:") (⟨fun _ => none,fun _ => none,fun _ => {},[]⟩ : State Bool String) refreshed)
    "7" := by
  have idle : Idle ({calls := [[]]} : RetryQueue.State String) :=
    ⟨rfl,by simp,fun executing => executing,fun putting => putting⟩
  have unused : Idle ({} : RetryQueue.State String) :=
    ⟨rfl,by simp,fun executing => executing,fun putting => putting⟩
  refine quiescent_fresh id "coupon:" (fun _ => none) (fun _ => none) refreshed ?_ refreshed List.prefix_rfl
    (fun site => ?_) "7" (by decide +kernel)
  · refine ⟨trivial,trivial,trivial,trivial,fun key value executing fetched _ => .inl ?_,trivial⟩
    cases executing
    cases fetched
    rfl
  · cases site with
    | false => exact ⟨idle,unused⟩
    | true => exact ⟨unused,unused⟩

section Alone
variable [Subsingleton Instances] (toJSONString keyPrefix)

/-- What is fetched is current, or its key is queued again. -/
def Alone (state : State Instances Value) : Prop :=
  ∀ site key value, (state.instances site).updateQueue.worker = .executing key →
    (state.instances site).fetched = some (some value) →
      some (toJSONString value) = (state.backend key).map toJSONString ∨
        Queued (state.instances site).updateQueue key

omit [DecidableEq Instances] [Subsingleton Instances] in
theorem move_fetched {inst : Instance Value} {motion : Motion} {key : String} {value : Value}
    (executing : (inst.move motion).updateQueue.worker = .executing key)
    (fetched : (inst.move motion).fetched = some (some value)) :
    inst.updateQueue.worker = .executing key ∧ inst.fetched = some (some value) ∧
      (Queued inst.updateQueue key → Queued (inst.move motion).updateQueue key) := by
  cases working : inst.updateQueue.worker with
  | executing other =>
    simp only [Instance.move,working] at fetched
    refine ⟨?_,fetched,fun queued => ?_⟩
    · cases motion with
      | put position =>
        simp only [Instance.move,Motion.event,RetryQueue.step] at executing
        split at executing
        · split at executing <;> exact working.symm.trans executing
        · exact working.symm.trans executing
      | take | putBack | wake =>
        simpa only [Instance.move,Motion.event,RetryQueue.step,working] using executing
    · cases motion with
      | put position => exact queued_put updates position queued
      | take | putBack | wake =>
        simpa only [Instance.move,Motion.event,RetryQueue.step,working] using queued
  | taking | putting | sleeping =>
    simp only [Instance.move,working] at fetched
    cases fetched

theorem alone_set {state : State Instances Value} {site : Instances} {inst : Instance Value}
    {redis : Store String String}
    (each : ∀ key value, inst.updateQueue.worker = .executing key → inst.fetched = some (some value) →
      some (toJSONString value) = (state.backend key).map toJSONString ∨ Queued inst.updateQueue key) :
    Alone toJSONString {state.set site inst with redis := redis} := by
  intro other key value
  obtain rfl := Subsingleton.elim site other
  simp only [State.set,Function.update_self]
  exact each key value

private theorem alone_step {state : State Instances Value} (event : Event Instances Value)
    (alone : Alone toJSONString state) : Alone toJSONString (step toJSONString keyPrefix state event) := by
  cases event with
  | write site key value =>
    intro other fetchedKey fetchedValue
    obtain rfl := Subsingleton.elim site other
    simp only [step,State.set,Function.update_self]
    intro executing fetched
    by_cases same : fetchedKey = key
    · subst same
      exact .inr (queued_call updates _ (.inr (List.mem_singleton_self _)))
    · rw [Function.update_of_ne same]
      exact (alone site fetchedKey fetchedValue executing fetched).imp_right fun queued =>
        queued_call updates _ (.inl queued)
  | delete site keyList outcome => exact alone_set toJSONString fun key value => alone site key value
  | update site motion =>
    apply alone_set toJSONString
    intro key value executing fetched
    obtain ⟨before,known,kept⟩ := move_fetched executing fetched
    exact (alone site key value before known).imp_right kept
  | fetch site fails =>
    simp only [step]
    split
    next executed executing unfetched =>
      split
      · apply alone_set toJSONString
        intro key value _ fetched
        cases fetched
      · refine alone_set toJSONString fun key value same fetched => .inl ?_
        exact fetched_current executing same fetched
    next => exact alone
  | store site outcome =>
    simp only [step]
    split
    · apply alone_set toJSONString
      intro key value _ fetched
      cases fetched
    · exact alone
  | remove site motion =>
    exact alone_set toJSONString fun key value => alone site key value
  | execute site outcome =>
    simp only [step]
    split
    · exact alone_set toJSONString fun key value => alone site key value
    · exact alone

/-- A single instance is always fit: its only worker is the one to take what is
queued after a fetch. -/
theorem alone_fit (backend : Store String Value) (redis : Store String String)
    (events : List (Event Instances Value)) :
    Along (step toJSONString keyPrefix) (Fit toJSONString keyPrefix) ⟨backend,redis,fun _ => {},[]⟩ events := by
  refine @along_always _ _ (step toJSONString keyPrefix) _ (Alone toJSONString)
    (fun state event => alone_step toJSONString keyPrefix event) (fun state event alone => ?_) _ events ?_
  · cases event with
    | store site outcome =>
      cases outcome with
      | done =>
        intro key value executing fetched _
        exact (alone site key value executing fetched).imp_right .inl
      | refused | unanswered => trivial
    | write | delete | update | fetch | remove | execute => trivial
  · intro site key value executing
    cases executing

end Alone

/-- One instance writes and fetches "1"; the other writes "2", fetches and stores it;
then the first stores what it has fetched. -/
def overtaken : List (Event Bool String) :=
  [.write false "7" (some "1"),.update false (.put 0),.update false .take,.fetch false false,
    .write true "7" (some "2"),.update true (.put 0),.update true .take,.fetch true false,
    .store true .done,.store false .done]

def overtakenFinal : State Bool String :=
  final (step id "coupon:") ⟨fun _ => none,fun _ => none,fun _ => {},[]⟩ overtaken

theorem older_value_stays : Quiescent overtakenFinal ∧ "7" ∈ overtakenFinal.written ∧
    ¬ Fresh id "coupon:" overtakenFinal "7" ∧
      overtakenFinal.redis "coupon:7" = some "1" ∧ overtakenFinal.backend "7" = some "2" := by
  have entry : overtakenFinal.redis "coupon:7" = some "1" := by decide +kernel
  have value : overtakenFinal.backend "7" = some "2" := by decide +kernel
  have idle : Idle ({calls := [[]]} : RetryQueue.State String) :=
    ⟨rfl,by simp,fun executing => executing,fun putting => putting⟩
  refine ⟨fun site => ?_,by decide +kernel,fun fresh => ?_,entry,value⟩
  · have rested : overtakenFinal.instances site = {updateQueue := {calls := [[]]}} := by
      cases site <;> rfl
    rw [rested]
    exact ⟨idle,rfl,by simp,fun executing => executing,fun putting => putting⟩
  · have built : buildRedisKey "coupon:" "7" = "coupon:7" := by decide
    rw [Fresh,built,entry,value] at fresh
    rcases fresh with removed | current
    · cases removed
    · exact absurd current (by decide)

end YzFramework.Cache.RedisCache
