import YzFramework.Library.RetryQueue
import Mathlib.Data.String.Basic

/-! The retry queues of the caches: keys to remove and keys to update of `RedisCache`,
versions of `RedisInJVMCacheFactory`, dependencies of `ZookeeperLocalCacheFactory`.
Each has one worker that puts back what it could not execute. -/
namespace YzFramework.Cache.RetryWorkers
open Library.Run Library.RetryQueue

def CAPACITY : ℕ := 1000

namespace RedisCache

def buildRedisKey (keyPrefix code : String) : String := keyPrefix ++ code

inductive Delete
  | delete (code : String) (throws : Bool)
  | deleteAll (keyList : List String) (throws : Bool)

inductive Update
  | add (key : String)
  | update (key : String)
  | updateAll (keyList : List String)

/-- QUEUE_FOR_REMOVE: where the delete throws, its keys are put one by one. -/
def removes (keyPrefix : String) : Process String Delete where
  capacity := CAPACITY
  puts
    | .delete code throws,_ => if throws then [buildRedisKey keyPrefix code] else []
    | .deleteAll keyList throws,_ =>
      if throws then keyList.map (buildRedisKey keyPrefix) else []

/-- QUEUE_FOR_UPDATE: keys are put whether or not anything has failed. -/
def updates : Process String Update where
  capacity := CAPACITY
  puts
    | .add key,_ => [key]
    | .update key,_ => [key]
    | .updateAll keyList,_ => keyList

end RedisCache

/-- `updateDependecy` puts the data where Redis throws; in the worker this is the
put back. -/
def versions (CachedData : Type*) : Process CachedData (CachedData × Bool) where
  capacity := CAPACITY
  puts
    | (cachedData,throws),_ => if throws then [cachedData] else []

/-- `addToUpdateDependencyQueue`, which looks for the key before it puts it. -/
def dependencies (Dep : Type*) [DecidableEq Dep] : Process Dep Dep where
  capacity := CAPACITY
  puts dependecyKey queue := if dependecyKey ∈ queue then [] else [dependecyKey]

/-- No reachable state of any of the four queues has its worker blocked on the full
queue exactly as long as every step is fit. -/
theorem workers_deadlock_free_iff (keyPrefix : String) (CachedData Dep : Type) [DecidableEq Dep] :
    (∀ events, (∀ before, before <+: events →
        ¬ Deadlocked (RedisCache.removes keyPrefix)
          (final (step (RedisCache.removes keyPrefix)) {} before)) ↔
      Along (step (RedisCache.removes keyPrefix)) (Fit (RedisCache.removes keyPrefix)) {} events) ∧
    (∀ events, (∀ before, before <+: events →
        ¬ Deadlocked RedisCache.updates (final (step RedisCache.updates) {} before)) ↔
      Along (step RedisCache.updates) (Fit RedisCache.updates) {} events) ∧
    (∀ events, (∀ before, before <+: events →
        ¬ Deadlocked (versions CachedData) (final (step (versions CachedData)) {} before)) ↔
      Along (step (versions CachedData)) (Fit (versions CachedData)) {} events) ∧
    ∀ events, (∀ before, before <+: events →
        ¬ Deadlocked (dependencies Dep) (final (step (dependencies Dep)) {} before)) ↔
      Along (step (dependencies Dep)) (Fit (dependencies Dep)) {} events :=
  ⟨run_fit _,run_fit _,run_fit _,run_fit _⟩

/-- An outage of Redis, of the backend or of ZooKeeper blocks each of the workers, and
for good. -/
theorem outage_blocks_workers :
    (∀ events, Deadlocked (RedisCache.removes "coupon:")
      (final (step (RedisCache.removes "coupon:")) {}
        (outage (.delete "7" true) CAPACITY++events))) ∧
    (∀ events, Deadlocked RedisCache.updates
      (final (step RedisCache.updates) {} (outage (.add "7") CAPACITY++events))) ∧
    (∀ events, Deadlocked (versions String)
      (final (step (versions String)) {} (outage ("7",true) CAPACITY++events))) ∧
    ∀ events, Deadlocked (dependencies String)
      (final (step (dependencies String)) {} (outage "7" CAPACITY++events)) := by
  have positive : 1 ≤ CAPACITY := by decide
  refine ⟨?_,?_,?_,?_⟩
  all_goals
    intro events
    rw [final,List.foldl_append]
    apply final_deadlocked
  · exact outage_deadlocks (RedisCache.removes "coupon:") _ _ positive rfl
  · exact outage_deadlocks RedisCache.updates _ _ positive rfl
  · exact outage_deadlocks (versions String) _ _ positive rfl
  · exact outage_deadlocks (dependencies String) _ _ positive rfl

end YzFramework.Cache.RetryWorkers
