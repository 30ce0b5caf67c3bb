import YzFramework.Cache.RedisInJVMCacheFactory

/-! One call of `add` of `RedisInJVMCacheFactory`, with null arguments and
exceptions: what it leaves in the maps when it throws or returns false. -/
namespace YzFramework.Cache.RedisInJVMCacheFactory
open Library Library.Store Redis

inductive Fault
  | nullPointer
  | arrayIndex
  | thrown (name : String)
deriving DecidableEq

/-- An object as a dependency: what its `toString` does. -/
abbrev Dependency := Except Fault (Option String)

structure CachedData where
  key : String
  version : Option String
  expireMs : ℤ
deriving DecidableEq

structure Factory (Data : Type*) where
  cachedObjectsMap : Store String Data := fun _ => none
  dependecyMap : Store String String := fun _ => none
  updateDependencyQueue : List CachedData := []
  redis : Keyspace := fun _ => none

/-- What the world does to a call: the clock, the answer of Redis, an interrupt in `put`. -/
structure World where
  now : ℤ
  reply : Reply
  interrupted : Bool

variable {Data : Type*}

/-- `put` waits for room; an interrupt is caught. -/
def enqueue (world : World) (cachedData : CachedData) (factory : Factory Data) :
    Option Bool × Factory Data :=
  if world.interrupted then (some false,factory)
  else if factory.updateDependencyQueue.length < SharedCache.CAPACITY then
    (some false,{factory with
      updateDependencyQueue := factory.updateDependencyQueue++[cachedData]})
  else (none,factory)

def setVersion (key version : String) (expireMs : ℤ) (factory : Factory Data) : Factory Data :=
  {factory with
    redis := put factory.redis key ⟨version,if 0 < expireMs then some expireMs else none⟩}

/-- Redis takes no null value. -/
def updateDependecy (world : World) (cachedData : CachedData) (factory : Factory Data) :
    Option Bool × Factory Data :=
  match cachedData.version,world.reply with
  | some version,.done =>
    let written := setVersion cachedData.key version cachedData.expireMs factory
    (some true,{written with dependecyMap := put written.dependecyMap cachedData.key version})
  | some version,.lost =>
    enqueue world cachedData (setVersion cachedData.key version cachedData.expireMs factory)
  | _,_ => enqueue world cachedData factory

def expireTime (now : ℤ) : Option ℤ → Option ℤ → ℤ
  | some expiredAt,_ => (expiredAt-now).bmod (2^64)
  | none,some relativeExpiredMs => relativeExpiredMs
  | none,none => 0

/-- `dependencies[0].toString()` -/
def firstVersion : List (Option Dependency) → Except Fault (Option String)
  | [] => .error .arrayIndex
  | none::_ => .error .nullPointer
  | some dependency::_ => dependency

/-- No answer while the call waits for room in the queue. -/
def add (world : World) (cacheObjectKey : Option String) (cacheData : Option Data)
    (expiredAt relativeExpiredMs : Option ℤ) (dependencies : Option (List (Option Dependency)))
    (factory : Factory Data) : Option (Except Fault Bool) × Factory Data :=
  match dependencies with
  | none => (some (.ok false),factory)
  | some dependencies =>
    match cacheObjectKey,cacheData with
    | some key,some data =>
      let factory := {factory with cachedObjectsMap := put factory.cachedObjectsMap key data}
      match firstVersion dependencies with
      | .error fault => (some (.error fault),factory)
      | .ok version =>
        let updated := updateDependecy world
          ⟨key,version,expireTime world.now expiredAt relativeExpiredMs⟩ factory
        (updated.1.map fun _ => .ok true,updated.2)
    | _,_ => (some (.error .nullPointer),factory)

/-- The overloads of `AbstractCacheFactory`. Without dependencies the array is empty. -/
inductive Overload
  | plain
  | expiredAt (date : Option ℤ)
  | relative (milliseconds : Option ℤ)
  | dependent (dependencies : Option (List (Option Dependency)))

def Overload.add (world : World) (cacheObjectKey : Option String) (cacheData : Option Data)
    (factory : Factory Data) : Overload → Option (Except Fault Bool) × Factory Data
  | plain => RedisInJVMCacheFactory.add world cacheObjectKey cacheData none none (some []) factory
  | expiredAt date =>
    RedisInJVMCacheFactory.add world cacheObjectKey cacheData date none (some []) factory
  | relative milliseconds =>
    RedisInJVMCacheFactory.add world cacheObjectKey cacheData none milliseconds (some []) factory
  | dependent dependencies =>
    RedisInJVMCacheFactory.add world cacheObjectKey cacheData none none dependencies factory

/-- Two missing versions are equal. -/
def getObject (factory : Factory Data) (cacheObjectKey : String) : Option Data :=
  if factory.dependecyMap cacheObjectKey = (factory.redis cacheObjectKey).map Entry.value then
    factory.cachedObjectsMap cacheObjectKey
  else none

def Failed (outcome : Option (Except Fault Bool) × Factory Data) : Prop :=
  (∃ fault, outcome.1 = some (.error fault)) ∨ outcome.1 = some (.ok false)

/-- A failed call leaves both maps, and what is read whatever Redis then holds. -/
def Undone (factory : Factory Data) (outcome : Option (Except Fault Bool) × Factory Data) : Prop :=
  Failed outcome → outcome.2.cachedObjectsMap = factory.cachedObjectsMap ∧
    outcome.2.dependecyMap = factory.dependecyMap ∧
    ∀ redis key, getObject {outcome.2 with redis := redis} key =
      getObject {factory with redis := redis} key

/-- With a key and data the first dependency has to be there and give its string,
unless the very object is in the map already. -/
def Fit (cacheObjectKey : Option String) (cacheData : Option Data)
    (dependencies : Option (List (Option Dependency))) (factory : Factory Data) : Prop :=
  ∀ given key data, dependencies = some given → cacheObjectKey = some key → cacheData = some data →
    (∃ version, firstVersion given = .ok version) ∨ factory.cachedObjectsMap key = some data

/-- How an add ends: false without dependencies, an exception before the maps change or
after the object is put, else true or a wait. -/
theorem add_cases (world : World) (cacheObjectKey : Option String) (cacheData : Option Data)
    (expiredAt relativeExpiredMs : Option ℤ) (dependencies : Option (List (Option Dependency)))
    (factory : Factory Data) :
    (dependencies = none ∧ add world cacheObjectKey cacheData expiredAt relativeExpiredMs
      dependencies factory = (some (.ok false),factory)) ∨
    (∃ given, dependencies = some given ∧ (cacheObjectKey = none ∨ cacheData = none) ∧
      add world cacheObjectKey cacheData expiredAt relativeExpiredMs dependencies factory =
        (some (.error .nullPointer),factory)) ∨
    ∃ given key data, dependencies = some given ∧ cacheObjectKey = some key ∧
      cacheData = some data ∧
      ((∃ fault, firstVersion given = .error fault ∧
        add world cacheObjectKey cacheData expiredAt relativeExpiredMs dependencies factory =
          (some (.error fault),{factory with
            cachedObjectsMap := put factory.cachedObjectsMap key data})) ∨
      ∃ version, firstVersion given = .ok version ∧
        ((add world cacheObjectKey cacheData expiredAt relativeExpiredMs dependencies factory).1 =
          none ∨
        (add world cacheObjectKey cacheData expiredAt relativeExpiredMs dependencies factory).1 =
          some (.ok true))) := by
  cases dependencies with
  | none => exact .inl ⟨rfl,rfl⟩
  | some given =>
    refine .inr ?_
    cases cacheObjectKey with
    | none => exact .inl ⟨given,rfl,.inl rfl,rfl⟩
    | some key =>
      cases cacheData with
      | none => exact .inl ⟨given,rfl,.inr rfl,rfl⟩
      | some data =>
        refine .inr ⟨given,key,data,rfl,rfl,rfl,?_⟩
        cases first : firstVersion given with
        | error fault => exact .inl ⟨fault,rfl,by simp only [add,first]⟩
        | ok version =>
          refine .inr ⟨version,rfl,?_⟩
          simp only [add,first]
          generalize (updateDependecy world _ _).1 = answer
          cases answer with
          | none => exact .inl rfl
          | some _ => exact .inr rfl

private theorem undone_kept (factory : Factory Data) (answer : Option (Except Fault Bool)) :
    Undone factory (answer,factory) := fun _ => ⟨rfl,rfl,fun _ _ => rfl⟩

private theorem served_not_failed {outcome : Option (Except Fault Bool) × Factory Data}
    (ended : outcome.1 = none ∨ outcome.1 = some (.ok true)) : ¬ Failed outcome := by
  unfold Failed
  rcases ended with waits | answer
  · simp [waits]
  · simp [answer]

theorem put_undone_iff (factory : Factory Data) (fault : Fault) (key : String) (data : Data) :
    Undone factory (some (.error fault),{factory with
      cachedObjectsMap := put factory.cachedObjectsMap key data}) ↔
        factory.cachedObjectsMap key = some data := by
  constructor
  · intro undone
    exact put_eq_self_iff.mp (undone (.inl ⟨fault,rfl⟩)).1
  · intro held _
    rw [put_eq_self_iff.mpr held]
    exact ⟨rfl,rfl,fun _ _ => rfl⟩

private theorem fit_thrown_iff {factory : Factory Data} {given : List (Option Dependency)} {fault : Fault}
    (first : firstVersion given = .error fault) (key : String) (data : Data) :
    Fit (some key) (some data) (some given) factory ↔ factory.cachedObjectsMap key = some data := by
  constructor
  · intro fit
    rcases fit given key data rfl rfl rfl with ⟨version,read⟩ | held
    · rw [first] at read
      cases read
    · exact held
  · rintro held _ _ _ ⟨⟩ ⟨⟩ ⟨⟩
    exact .inr held

/-- A failed add is undone exactly where it throws before it puts the object, or puts
what is there already. -/
theorem add_undone_iff (world : World) (cacheObjectKey : Option String) (cacheData : Option Data)
    (expiredAt relativeExpiredMs : Option ℤ) (dependencies : Option (List (Option Dependency)))
    (factory : Factory Data) :
    Undone factory (add world cacheObjectKey cacheData expiredAt relativeExpiredMs dependencies
      factory) ↔ Fit cacheObjectKey cacheData dependencies factory := by
  rcases add_cases world cacheObjectKey cacheData expiredAt relativeExpiredMs dependencies factory with
    ⟨given,failed⟩ | ⟨given,_,missing,failed⟩ |
    ⟨given,key,data,rfl,rfl,rfl,⟨fault,first,failed⟩ | ⟨version,first,ended⟩⟩
  · rw [failed]
    apply iff_of_true (undone_kept factory _)
    intro other _ _ same
    rw [given] at same
    cases same
  · rw [failed]
    apply iff_of_true (undone_kept factory _)
    intro _ _ _ _ key data
    rcases missing with absent | absent
    · rw [absent] at key
      cases key
    · rw [absent] at data
      cases data
  · rw [failed,put_undone_iff,fit_thrown_iff first]
  · refine iff_of_true (fun failed => absurd failed (served_not_failed ended)) ?_
    rintro _ _ _ ⟨⟩ ⟨⟩ ⟨⟩
    exact .inl ⟨version,first⟩

theorem failed_add_readable :
    ¬ Undone ({} : Factory ℕ) (Overload.plain.add ⟨0,.done,false⟩ (some "rate") (some 7) {}) := by
  intro undone
  have same := (undone (.inl ⟨.arrayIndex,rfl⟩)).2.2 (fun _ => none) "rate"
  have read : put (fun _ => none) "rate" 7 "rate" = (none : Option ℕ) := same
  rw [put_apply,if_pos rfl] at read
  cases read

end YzFramework.Cache.RedisInJVMCacheFactory
