import YzFramework.Cache.RedisCacheFactory
import YzFramework.Library.Glob

/-! Several `RedisCacheFactory` on one Redis, told apart by their prefixes. `clear` lists the
keys and deletes them in two calls; how Redis reads the pattern is a parameter. -/
namespace YzFramework.Cache.SharedRedis
open Library Library.Run
open Redis.RateLimiting (Timed current)

variable {Factory Data : Type} [DecidableEq Factory] (toJSONString : Data → String) (expires : ℤ → Bool)
  (keys : String → String → Bool) (cachePrefix : Factory → String)

/-- `listed` is what a `clear` under way has got from `keys`. -/
structure State (Factory : Type) where
  redis : String → Option Timed := fun _ => none
  listed : Factory → ℕ → String → Bool := fun _ _ _ => false

inductive Event (Factory Data : Type)
  | call (factory : Factory) (cacheObjectKey : String) (event : RedisCacheFactory.Event Data)
  | list (factory : Factory) (thread : ℕ) (now : ℤ)
  | delete (factory : Factory) (thread : ℕ)

def buildRedisKey (factory : Factory) (cacheObjectKey : String) : String := cachePrefix factory ++ cacheObjectKey

def step (state : State Factory) : Event Factory Data → State Factory
  | .call factory cacheObjectKey event =>
    let redisKey := buildRedisKey cachePrefix factory cacheObjectKey
    {state with
      redis := Function.update state.redis redisKey
        (RedisCacheFactory.step toJSONString expires (state.redis redisKey) event)}
  | .list factory thread now =>
    let found redisKey := keys (cachePrefix factory ++ "*") redisKey && (current now (state.redis redisKey)).isSome
    {state with listed := Function.update state.listed factory (Function.update (state.listed factory) thread found)}
  | .delete factory thread =>
    {state with redis := fun redisKey => if state.listed factory thread redisKey then none else state.redis redisKey}

/-- A cache alone. -/
structure Own where
  store : String → Option Timed := fun _ => none
  listed : ℕ → String → Bool := fun _ _ => false

def ownStep (own : Factory → Own) : Event Factory Data → Factory → Own
  | .call factory cacheObjectKey event =>
    Function.update own factory {own factory with
      store := Function.update (own factory).store cacheObjectKey
        (RedisCacheFactory.step toJSONString expires ((own factory).store cacheObjectKey) event)}
  | .list factory thread now =>
    Function.update own factory {own factory with
      listed := Function.update (own factory).listed thread fun key => (current now ((own factory).store key)).isSome}
  | .delete factory thread =>
    Function.update own factory {own factory with
      store := fun key => if (own factory).listed thread key then none else (own factory).store key}

/-- Whatever the factories do, each finds under its keys what it would find alone. -/
def Isolated : Prop :=
  ∀ (events : List (Event Factory Data)) (factory : Factory) (key : String),
    (final (step toJSONString expires keys cachePrefix) {} events).redis (buildRedisKey cachePrefix factory key) =
      (final (ownStep toJSONString expires) (fun _ => {}) events factory).store key

/-- No two factories share a key, and a pattern finds all keys of its factory and no others. -/
structure Separate : Prop where
  apart : ∀ factory other key otherKey,
    buildRedisKey cachePrefix factory key = buildRedisKey cachePrefix other otherKey → factory = other
  finds : ∀ factory key, keys (cachePrefix factory ++ "*") (buildRedisKey cachePrefix factory key) = true
  only : ∀ factory other key, factory ≠ other →
    keys (cachePrefix factory ++ "*") (buildRedisKey cachePrefix other key) = false

structure Shares (state : State Factory) (own : Factory → Own) : Prop where
  redis : ∀ factory key, state.redis (buildRedisKey cachePrefix factory key) = (own factory).store key
  listed : ∀ factory thread key,
    state.listed factory thread (buildRedisKey cachePrefix factory key) = (own factory).listed thread key
  others : ∀ factory other thread key, factory ≠ other →
    state.listed factory thread (buildRedisKey cachePrefix other key) = false

variable {toJSONString expires keys cachePrefix}

omit [DecidableEq Factory] in
theorem buildRedisKey_inj (separate : Separate keys cachePrefix) {factory other : Factory} {key otherKey : String} :
    buildRedisKey cachePrefix factory key = buildRedisKey cachePrefix other otherKey ↔ factory = other ∧ key = otherKey := by
  constructor
  · intro same
    obtain rfl := separate.apart factory other key otherKey same
    refine ⟨rfl,?_⟩
    have texts := congrArg String.toList same
    rw [buildRedisKey,buildRedisKey,String.toList_append,String.toList_append,List.append_cancel_left_eq] at texts
    exact String.toList_inj.mp texts
  · rintro ⟨rfl,rfl⟩
    rfl

private theorem shares_step (separate : Separate keys cachePrefix) {state : State Factory} {own : Factory → Own}
    (event : Event Factory Data) (shares : Shares cachePrefix state own) :
    Shares cachePrefix (step toJSONString expires keys cachePrefix state event) (ownStep toJSONString expires own event) := by
  cases event with
  | call factory cacheObjectKey event =>
    constructor
    · intro place key
      simp only [step,ownStep]
      rw [Function.update_apply,Function.update_apply,shares.redis factory cacheObjectKey]
      by_cases here : place = factory
      · subst here
        rw [if_pos rfl]
        dsimp only
        rw [Function.update_apply]
        apply if_congr _ rfl (shares.redis place key)
        rw [buildRedisKey_inj separate]
        exact and_iff_right rfl
      · rw [if_neg here,if_neg fun same => here ((buildRedisKey_inj separate).mp same).1]
        exact shares.redis place key
    · intro place thread key
      simp only [step,ownStep]
      rw [Function.update_apply,shares.listed place thread key]
      split
      next here => rw [here]
      next => rfl
    · exact shares.others
  | list factory thread now =>
    constructor
    · intro place key
      simp only [step,ownStep]
      rw [Function.update_apply,shares.redis place key]
      split
      next here => rw [here]
      next => rfl
    · intro place other key
      simp only [step,ownStep]
      rw [Function.update_apply,Function.update_apply]
      by_cases here : place = factory
      · subst here
        rw [if_pos rfl,if_pos rfl]
        dsimp only
        rw [Function.update_apply,Function.update_apply]
        split
        · dsimp only
          rw [separate.finds place key,shares.redis place key]
          rfl
        · exact shares.listed place other key
      · rw [if_neg here,if_neg here]
        exact shares.listed place other key
    · intro place other place_thread key apart
      simp only [step]
      rw [Function.update_apply]
      split
      next here =>
        subst here
        rw [Function.update_apply]
        split
        · dsimp only
          rw [separate.only place other key apart]
          rfl
        · exact shares.others place other place_thread key apart
      next => exact shares.others place other place_thread key apart
  | delete factory thread =>
    constructor
    · intro place key
      simp only [step,ownStep]
      rw [Function.update_apply]
      by_cases here : place = factory
      · subst here
        rw [if_pos rfl,shares.listed place thread key,shares.redis place key]
      · rw [if_neg here,shares.others factory place thread key (Ne.symm here)]
        exact shares.redis place key
    · intro place other key
      simp only [step,ownStep]
      rw [Function.update_apply,shares.listed place other key]
      split
      next here => rw [here]
      next => rfl
    · exact shares.others

variable [Inhabited Data]

private theorem isolated_iff_separate :
    Isolated (toJSONString) expires keys cachePrefix ↔ Separate keys cachePrefix := by
  constructor
  · intro isolated
    have added : RedisCacheFactory.step toJSONString expires none (.add 0 (some default) none none) =
        some ⟨toJSONString default,none⟩ := rfl
    constructor
    · intro factory other key otherKey same
      by_contra apart
      have found := isolated [.call factory key (.add 0 (some default) none none)] other otherKey
      rw [← same] at found
      simp [step,ownStep,added,Function.update_of_ne (Ne.symm apart)] at found
    · intro factory key
      have found := isolated [.call factory key (.add 0 (some default) none none),.list factory 0 0,.delete factory 0]
        factory key
      by_contra missed
      simp [step,ownStep,added,missed,current] at found
    · intro factory other key apart
      have found := isolated [.call other key (.add 0 (some default) none none),.list factory 0 0,.delete factory 0]
        other key
      by_contra taken
      rw [Bool.not_eq_false] at taken
      simp [step,ownStep,added,taken,current,Function.update_of_ne (Ne.symm apart)] at found
  · intro separate events factory key
    have start : Shares cachePrefix ({} : State Factory) (fun _ => {}) :=
      ⟨fun _ _ => rfl,fun _ _ _ => rfl,fun _ _ _ _ _ => rfl⟩
    have shares : Shares cachePrefix (final (step toJSONString expires keys cachePrefix) {} events)
        (final (ownStep toJSONString expires) (fun _ => {}) events) :=
      final_simulates (fun _ _ event held => shares_step separate event held) _ _ events start
    exact shares.redis factory key

/-- No wildcard and no escape. -/
def Plain (text : String) : Prop := ∀ c ∈ text.toList, c ∉ ['*','?','[','\\']

/-- A plain text and a star find what begins with the text. -/
def Globs (keys : String → String → Bool) : Prop :=
  ∀ text redisKey, Plain text → (keys (text ++ "*") redisKey = true ↔ text.toList <+: redisKey.toList)

omit [DecidableEq Factory] in
private theorem separate_iff (globs : Globs keys) (plain : ∀ factory, Plain (cachePrefix factory)) :
    Separate keys cachePrefix ↔ ∀ factory other, factory ≠ other →
      ¬ (cachePrefix factory).toList <+: (cachePrefix other).toList := by
  constructor
  · rintro separate factory other apart ⟨rest,joined⟩
    apply apart
    apply separate.apart factory other (String.ofList rest) ""
    apply String.toList_inj.mp
    simp [buildRedisKey,joined]
  · intro apart
    have own (factory : Factory) (key : String) :
        (cachePrefix factory).toList <+: (buildRedisKey cachePrefix factory key).toList := by
      rw [buildRedisKey,String.toList_append]
      exact List.prefix_append _ _
    -- Two prefixes of one key: the shorter is a prefix of the longer.
    have alone {factory other : Factory} {key : String}
        (begins : (cachePrefix factory).toList <+: (buildRedisKey cachePrefix other key).toList) : factory = other := by
      by_contra different
      rcases List.prefix_or_prefix_of_prefix begins (own other key) with before | before
      · exact apart factory other different before
      · exact apart other factory (Ne.symm different) before
    constructor
    · intro factory other key otherKey same
      apply alone
      rw [← same]
      exact own factory key
    · exact fun factory key => (globs _ _ (plain factory)).mpr (own factory key)
    · intro factory other key different
      rw [Bool.eq_false_iff]
      exact fun found => different (alone ((globs _ _ (plain factory)).mp found))

/-- Caches with plain prefixes on one Redis do not touch each other, in any order of their
calls, exactly when none of the prefixes is the beginning of another. -/
theorem isolated_iff (globs : Globs keys) (plain : ∀ factory, Plain (cachePrefix factory)) :
    Isolated toJSONString expires keys cachePrefix ↔ ∀ factory other, factory ≠ other →
      ¬ (cachePrefix factory).toList <+: (cachePrefix other).toList :=
  isolated_iff_separate.trans (separate_iff globs plain)

private theorem globs_glob : Globs fun pattern redisKey => Glob.glob pattern.toList redisKey.toList := by
  intro text redisKey plain
  dsimp only
  rw [String.toList_append]
  change Glob.glob (text.toList++['*']) redisKey.toList = true ↔ _
  unfold Plain at plain
  generalize text.toList = pattern at plain
  generalize redisKey.toList = key
  induction pattern generalizing key with
  | nil =>
    rw [List.nil_append,Glob.glob_star]
    exact iff_of_true ⟨[],List.nil_suffix,rfl⟩ List.nil_prefix
  | cons c rest ih =>
    rw [List.forall_mem_cons] at plain
    have single : c ≠ '*' := fun same => plain.1 (by simp [same])
    rw [List.cons_append,Glob.glob,if_neg single,Bool.and_eq_true,ih plain.2,beq_iff_eq]
    cases key with
    | nil => simp
    | cons d key => simp [List.cons_prefix_cons,eq_comm]

theorem isolated_iff_orders : Isolated (id : String → String) (fun _ => true)
    (fun pattern redisKey => Glob.glob pattern.toList redisKey.toList)
    (fun orders : Bool => if orders then "order_" else "user_") :=
  (isolated_iff globs_glob (by simp [Plain])).mpr (by decide)

end YzFramework.Cache.SharedRedis
