import YzFramework.Redis.StringRedisTemplateEX
import YzFramework.Library.Run

/-! `RedisInJVMCacheFactory` in several JVMs that share one Redis: objects in the
JVM, versions in both places. Each access of a call or a worker to a map, the queue
or Redis is a step of its own; any number of calls are under way at once. -/
namespace YzFramework.Cache
open Library Library.Store Library.Run Redis

/-- One call of `add`: its JVM, key, version (the first dependency) and the time
to live it computes. -/
structure VersionedAdd (J : Type*) where
  jvm : J
  key : String
  version : String
  expireMs : ℤ := 0

structure Removal (J : Type*) where
  jvm : J
  key : String

/-- What is set in Redis: the version, with a time to live if that is positive. -/
def VersionedAdd.entry {J : Type*} (add : VersionedAdd J) : Entry :=
  ⟨add.version,if 0 < add.expireMs then some add.expireMs else none⟩

/-- How an operation on Redis ends; `lost` has taken effect but throws. -/
inductive Reply
  | done
  | refused
  | lost

inductive Caller
  | add
  | worker

inductive Progress
  | ready
  | updating (caller : Caller)
  | written (caller : Caller)
  | failed (caller : Caller)
  | queued
  | recorded

inductive Removing
  | ready
  | deleted
  | dropped
  | over

def Progress.calling : Progress → Bool
  | .updating .add | .written .add | .failed .add => true
  | _ => false

def Removing.calling : Removing → Bool
  | .deleted | .dropped => true
  | _ => false

/-- The calls of a run. With `overlap` a `getObject` may also run while an `add` or
`remove` of its key is under way in its JVM. -/
structure Calls (J ι ρ : Type*) where
  adds : ι → VersionedAdd J
  removes : ρ → Removal J
  overlap : Bool

/-- `last` is bookkeeping: the last add of a key that completed, unless a remove has
deleted the key since. -/
structure SharedCache (J ι ρ : Type*) where
  redis : Keyspace
  cachedObjectsMap : J → Store String ι := fun _ _ => none
  dependecyMap : J → Store String String := fun _ _ => none
  updateDependencyQueue : J → List ι := fun _ => []
  worker : J → Option ι := fun _ => none
  progress : ι → Progress := fun _ => .ready
  removing : ρ → Removing := fun _ => .ready
  last : Store String ι := fun _ => none

namespace SharedCache

def CAPACITY : ℕ := 1000

inductive Event (ι ρ J : Type*)
  | putObject (call : ι)
  | write (call : ι) (reply : Reply)
  | record (call : ι)
  | enqueue (call : ι)
  | take (jvm : J)
  | delete (call : ρ) (reply : Reply)
  | dropObject (call : ρ)
  | dropVersion (call : ρ)
  | expire (key : String)

variable {J ι ρ : Type*} [DecidableEq J] [DecidableEq ι] [DecidableEq ρ] (calls : Calls J ι ρ)

def room (cache : SharedCache J ι ρ) (jvm : J) : Bool :=
  (cache.updateDependencyQueue jvm).length < CAPACITY

def setProgress (cache : SharedCache J ι ρ) (call : ι) (progress : Progress) : SharedCache J ι ρ :=
  {cache with progress := Function.update cache.progress call progress}

def setRemoving (cache : SharedCache J ι ρ) (call : ρ) (removing : Removing) : SharedCache J ι ρ :=
  {cache with removing := Function.update cache.removing call removing}

def finish (cache : SharedCache J ι ρ) (call : ι) : Caller → SharedCache J ι ρ
  | .add => {cache with last := put cache.last (calls.adds call).key call}
  | .worker => {cache with worker := Function.update cache.worker (calls.adds call).jvm none}

def putObject (cache : SharedCache J ι ρ) (call : ι) : SharedCache J ι ρ :=
  let add := calls.adds call
  match cache.progress call with
  | .ready => {cache with
      cachedObjectsMap := putAt cache.cachedObjectsMap add.jvm add.key call}.setProgress call
        (.updating .add)
  | _ => cache

def set (cache : SharedCache J ι ρ) (call : ι) : SharedCache J ι ρ :=
  {cache with redis := put cache.redis (calls.adds call).key (calls.adds call).entry}

def write (cache : SharedCache J ι ρ) (call : ι) (reply : Reply) : SharedCache J ι ρ :=
  match cache.progress call,reply with
  | .updating caller,.done => (set calls cache call).setProgress call (.written caller)
  | .updating caller,.refused => cache.setProgress call (.failed caller)
  | .updating caller,.lost => (set calls cache call).setProgress call (.failed caller)
  | _,_ => cache

def record (cache : SharedCache J ι ρ) (call : ι) : SharedCache J ι ρ :=
  let add := calls.adds call
  match cache.progress call with
  | .written caller => finish calls ({cache with
      dependecyMap := putAt cache.dependecyMap add.jvm add.key add.version}.setProgress call
        .recorded) call caller
  | _ => cache

/-- `updateDependecy` where Redis has thrown: `put` waits for room in the queue. -/
def enqueue (cache : SharedCache J ι ρ) (call : ι) : SharedCache J ι ρ :=
  let jvm := (calls.adds call).jvm
  match cache.progress call with
  | .failed caller =>
    if cache.room jvm then finish calls ({cache with
      updateDependencyQueue := Function.update cache.updateDependencyQueue jvm
        (cache.updateDependencyQueue jvm++[call])}.setProgress call .queued) call caller
    else cache
  | _ => cache

def take (cache : SharedCache J ι ρ) (jvm : J) : SharedCache J ι ρ :=
  match cache.worker jvm,cache.updateDependencyQueue jvm with
  | none,call::rest => {cache with
      worker := Function.update cache.worker jvm (some call)
      updateDependencyQueue := Function.update cache.updateDependencyQueue jvm rest}.setProgress call
        (.updating .worker)
  | _,_ => cache

/-- `redisTemplate.delete`, with which `remove` begins; where it throws the call is over. -/
def deleteKey (cache : SharedCache J ι ρ) (call : ρ) (reply : Reply) : SharedCache J ι ρ :=
  let key := (calls.removes call).key
  match cache.removing call,reply with
  | .ready,.done => {cache with
      redis := delete cache.redis key
      last := delete cache.last key}.setRemoving call .deleted
  | .ready,.refused => cache.setRemoving call .over
  | .ready,.lost => {cache with redis := delete cache.redis key}.setRemoving call .over
  | _,_ => cache

def dropObject (cache : SharedCache J ι ρ) (call : ρ) : SharedCache J ι ρ :=
  let remove := calls.removes call
  match cache.removing call with
  | .deleted => {cache with
      cachedObjectsMap := deleteAt cache.cachedObjectsMap remove.jvm remove.key}.setRemoving call
        .dropped
  | _ => cache

def dropVersion (cache : SharedCache J ι ρ) (call : ρ) : SharedCache J ι ρ :=
  let remove := calls.removes call
  match cache.removing call with
  | .dropped => {cache with
      dependecyMap := deleteAt cache.dependecyMap remove.jvm remove.key}.setRemoving call .over
  | _ => cache

def timed (cache : SharedCache J ι ρ) (key : String) : Bool :=
  ((cache.redis key).bind Entry.px).isSome

def step (cache : SharedCache J ι ρ) : Event ι ρ J → SharedCache J ι ρ
  | .putObject call => putObject calls cache call
  | .write call reply => write calls cache call reply
  | .record call => record calls cache call
  | .enqueue call => enqueue calls cache call
  | .take jvm => cache.take jvm
  | .delete call reply => deleteKey calls cache call reply
  | .dropObject call => dropObject calls cache call
  | .dropVersion call => dropVersion calls cache call
  | .expire key =>
    if cache.timed key then {cache with redis := delete cache.redis key} else cache

def remoteVersion (cache : SharedCache J ι ρ) (key : String) : Option String :=
  (cache.redis key).map Entry.value

/-- `getObject`, where Redis answers; two missing versions are equal. -/
def getObject (cache : SharedCache J ι ρ) (jvm : J) (key : String) : Option ι :=
  if cache.dependecyMap jvm key = cache.remoteVersion key then cache.cachedObjectsMap jvm key
  else none

/-- A `getObject` may run: no call for the key is under way in the JVM, or they overlap. -/
def Open (cache : SharedCache J ι ρ) (jvm : J) (key : String) : Prop :=
  calls.overlap = true ∨
    (∀ call, (calls.adds call).jvm = jvm → (calls.adds call).key = key →
      (cache.progress call).calling = false) ∧
    ∀ call, (calls.removes call).jvm = jvm → (calls.removes call).key = key →
      (cache.removing call).calling = false

/-- What is returned is the object of the version in Redis, and of the last add. -/
def Coherent (cache : SharedCache J ι ρ) : Prop :=
  ∀ jvm key call, Open calls cache jvm key → cache.getObject jvm key = some call →
    cache.remoteVersion key = some (calls.adds call).version ∧ cache.last key = some call

def Unserved (cache : SharedCache J ι ρ) (key : String) : Prop :=
  ∀ jvm, Open calls cache jvm key → cache.getObject jvm key = none

def Versioned (cache : SharedCache J ι ρ) (key : String) : Prop :=
  ∀ jvm, Open calls cache jvm key → cache.dependecyMap jvm key = none →
    cache.cachedObjectsMap jvm key = none

/-- What the state has to be for an event. An object is put under overlapping reads
only where the local version is out of date. An add completes with its version in
Redis and no other object in its JVM, or while no other JVM returns an object. A late
version is recorded only for its own object, still the last one. A key that Redis or
a JVM loses leaves no object without a version. -/
def Fit (cache : SharedCache J ι ρ) : Event ι ρ J → Prop
  | .putObject call =>
    let add := calls.adds call
    match cache.progress call with
    | .ready => calls.overlap = true →
        cache.dependecyMap add.jvm add.key ≠ cache.remoteVersion add.key
    | _ => True
  | .record call =>
    let add := calls.adds call
    match cache.progress call with
    | .written .add =>
      if cache.remoteVersion add.key = some add.version then
        Open calls (cache.setProgress call .recorded) add.jvm add.key →
          ∀ other, cache.cachedObjectsMap add.jvm add.key = some other → other = call
      else ∀ jvm, jvm ≠ add.jvm → Open calls (cache.setProgress call .recorded) jvm add.key →
        cache.getObject jvm add.key = none
    | .written .worker =>
      cache.remoteVersion add.key = some add.version → Open calls cache add.jvm add.key →
        ∀ other, cache.cachedObjectsMap add.jvm add.key = some other →
          other = call ∧ cache.last add.key = some call
    | _ => True
  | .enqueue call =>
    let add := calls.adds call
    match cache.progress call with
    | .failed .add =>
      cache.room add.jvm = true → Unserved calls (cache.setProgress call .queued) add.key
    | _ => True
  | .delete call reply =>
    match cache.removing call,reply with
    | .ready,.done => Versioned calls (cache.setRemoving call .deleted) (calls.removes call).key
    | .ready,.lost => Versioned calls cache (calls.removes call).key
    | _,_ => True
  | .dropVersion call =>
    let remove := calls.removes call
    match cache.removing call with
    | .dropped =>
      Open calls (cache.setRemoving call .over) remove.jvm remove.key →
        cache.remoteVersion remove.key = none → cache.cachedObjectsMap remove.jvm remove.key = none
    | _ => True
  | .expire key => cache.timed key = true → Versioned calls cache key
  | _ => True

def Unrecorded (cache : SharedCache J ι ρ) (call : ι) : Prop :=
  ∀ jvm, cache.dependecyMap jvm (calls.adds call).key ≠ some (calls.adds call).version

structure Sound (cache : SharedCache J ι ρ) : Prop where
  unrecorded : ∀ call, cache.progress call ≠ .recorded → Unrecorded calls cache call
  queued : ∀ jvm call, call ∈ cache.updateDependencyQueue jvm →
    cache.progress call = .queued ∧ (calls.adds call).jvm = jvm
  once : ∀ jvm, (cache.updateDependencyQueue jvm).Nodup

variable {calls}

omit [DecidableEq J] [DecidableEq ρ] in
theorem Sound.move {cache other : SharedCache J ι ρ} (sound : Sound calls cache) {call : ι}
    {progress : Progress} (moved : other.progress = Function.update cache.progress call progress)
    (unrecorded : cache.progress call ≠ .recorded) (outside : cache.progress call ≠ .queued)
    (map : other.dependecyMap = cache.dependecyMap)
    (queue : other.updateDependencyQueue = cache.updateDependencyQueue) : Sound calls other := by
  refine ⟨fun third late => ?_,fun jvm third member => ?_,fun jvm => ?_⟩
  · have before : cache.progress third ≠ .recorded := by
      by_cases same : third = call
      · rwa [same]
      · simpa [moved,same] using late
    simpa only [Unrecorded,map] using sound.unrecorded third before
  · rw [queue] at member
    obtain ⟨waiting,place⟩ := sound.queued jvm third member
    have different : third ≠ call := by
      intro same
      rw [same] at waiting
      exact outside waiting
    exact ⟨by simpa [moved,different] using waiting,place⟩
  · rw [queue]
    exact sound.once jvm

omit [DecidableEq J] [DecidableEq ι] [DecidableEq ρ] in
theorem Sound.shrink {cache other : SharedCache J ι ρ} (sound : Sound calls cache)
    (progress : other.progress = cache.progress)
    (queue : other.updateDependencyQueue = cache.updateDependencyQueue)
    (map : ∀ jvm key version, other.dependecyMap jvm key = some version →
      cache.dependecyMap jvm key = some version) : Sound calls other := by
  refine ⟨fun call late jvm found => ?_,?_,?_⟩
  · rw [progress] at late
    exact sound.unrecorded call late jvm (map _ _ _ found)
  · rw [progress,queue]
    exact sound.queued
  · rw [queue]
    exact sound.once

omit [DecidableEq ρ] in
private theorem sound_putObject {cache : SharedCache J ι ρ} (sound : Sound calls cache) (call : ι) :
    Sound calls (putObject calls cache call) := by
  cases progress : cache.progress call with
  | ready =>
    simp only [putObject,progress]
    exact sound.move rfl (by simp [progress]) (by simp [progress]) rfl rfl
  | _ => simpa only [putObject,progress] using sound

omit [DecidableEq J] [DecidableEq ρ] in
private theorem sound_write {cache : SharedCache J ι ρ} (sound : Sound calls cache) (call : ι)
    (reply : Reply) : Sound calls (write calls cache call reply) := by
  unfold write
  split
  next updating => exact sound.move rfl (by simp [updating]) (by simp [updating]) rfl rfl
  next updating => exact sound.move rfl (by simp [updating]) (by simp [updating]) rfl rfl
  next updating => exact sound.move rfl (by simp [updating]) (by simp [updating]) rfl rfl
  next => exact sound

variable (calls) in
omit [DecidableEq ι] [DecidableEq ρ] in
theorem finish_same (cache : SharedCache J ι ρ) (call : ι) (caller : Caller) :
    (finish calls cache call caller).progress = cache.progress ∧
      (finish calls cache call caller).dependecyMap = cache.dependecyMap ∧
      (finish calls cache call caller).updateDependencyQueue = cache.updateDependencyQueue := by
  cases caller <;> exact ⟨rfl,rfl,rfl⟩

omit [DecidableEq ι] [DecidableEq ρ] in
theorem Sound.finish {cache : SharedCache J ι ρ} (sound : Sound calls cache) (call : ι)
    (caller : Caller) : Sound calls (finish calls cache call caller) := by
  obtain ⟨progress,map,queue⟩ := finish_same calls cache call caller
  exact sound.shrink progress queue fun _ _ _ found => by rwa [map] at found

omit [DecidableEq ρ] in
private theorem sound_record (distinct : Function.Injective fun call => (calls.adds call).version)
    {cache : SharedCache J ι ρ} (sound : Sound calls cache) (call : ι) :
    Sound calls (record calls cache call) := by
  cases progress : cache.progress call with
  | written caller =>
    simp only [record,progress]
    apply Sound.finish
    refine ⟨fun other late jvm found => ?_,fun jvm other member => ?_,sound.once⟩
    · by_cases same : other = call
      · simp [setProgress,same] at late
      · -- The version recorded now is that of the call, and of no other one.
        simp only [setProgress,putAt_apply] at found
        split at found
        next => exact same (distinct (Option.some.inj found)).symm
        next => exact sound.unrecorded other (by simpa [setProgress,same] using late) jvm found
    · obtain ⟨waiting,place⟩ := sound.queued jvm other member
      have different : other ≠ call := by
        intro same
        rw [same,progress] at waiting
        cases waiting
      exact ⟨by simpa [setProgress,different] using waiting,place⟩
  | _ => simpa only [record,progress] using sound

omit [DecidableEq ρ] in
private theorem sound_enqueue {cache : SharedCache J ι ρ} (sound : Sound calls cache) (call : ι) :
    Sound calls (enqueue calls cache call) := by
  cases progress : cache.progress call with
  | failed caller =>
    simp only [enqueue,progress]
    split
    next =>
      have outside : ∀ jvm, call ∉ cache.updateDependencyQueue jvm := by
        intro jvm member
        have waiting := (sound.queued jvm call member).1
        rw [progress] at waiting
        cases waiting
      apply Sound.finish
      refine ⟨fun other late => ?_,fun jvm other member => ?_,fun jvm => ?_⟩
      · apply sound.unrecorded other
        by_cases same : other = call
        · simp [same,progress]
        · simpa [setProgress,same] using late
      · by_cases same : other = call
        · subst same
          refine ⟨by simp [setProgress],?_⟩
          by_contra elsewhere
          apply outside jvm
          simpa [setProgress,Ne.symm elsewhere] using member
        · have before : other ∈ cache.updateDependencyQueue jvm := by
            by_cases here : jvm = (calls.adds call).jvm
            · subst here
              simpa [setProgress,same] using member
            · simpa [setProgress,here] using member
          simpa [setProgress,same] using sound.queued jvm other before
      · by_cases here : jvm = (calls.adds call).jvm
        · subst here
          simpa [setProgress,List.nodup_append] using ⟨sound.once _,fun other member same =>
            outside _ (same ▸ member)⟩
        · simpa [setProgress,here] using sound.once jvm
    next => exact sound
  | _ => simpa only [enqueue,progress] using sound

omit [DecidableEq ρ] in
private theorem sound_take {cache : SharedCache J ι ρ} (sound : Sound calls cache) (jvm : J) :
    Sound calls (cache.take jvm) := by
  unfold take
  split
  next call rest _ queue =>
    have first := sound.queued jvm call (by simp [queue])
    have once := sound.once jvm
    rw [queue,List.nodup_cons] at once
    refine ⟨fun other late => ?_,fun place other member => ?_,fun place => ?_⟩
    · apply sound.unrecorded other
      by_cases same : other = call
      · simp [same,first.1]
      · simpa [setProgress,same] using late
    · have inside : other ∈ cache.updateDependencyQueue place ∧ other ≠ call := by
        by_cases here : place = jvm
        · subst here
          have later : other ∈ rest := by simpa [setProgress] using member
          exact ⟨by simp [queue,later],fun same => once.1 (same ▸ later)⟩
        · have before : other ∈ cache.updateDependencyQueue place := by
            simpa [setProgress,here] using member
          refine ⟨before,fun same => here ?_⟩
          rw [← (sound.queued place other before).2,same,first.2]
      simpa [setProgress,inside.2] using sound.queued place other inside.1
    · by_cases here : place = jvm
      · subst here
        simpa [setProgress] using once.2
      · simpa [setProgress,here] using sound.once place
  next => exact sound

private theorem sound_step (distinct : Function.Injective fun call => (calls.adds call).version)
    (cache : SharedCache J ι ρ) (event : Event ι ρ J) (sound : Sound calls cache) :
    Sound calls (step calls cache event) := by
  cases event with
  | putObject call => exact sound_putObject sound call
  | write call reply => exact sound_write sound call reply
  | record call => exact sound_record distinct sound call
  | enqueue call => exact sound_enqueue sound call
  | take jvm => exact sound_take sound jvm
  | delete call reply =>
    simp only [step,deleteKey]
    split <;> exact sound.shrink rfl rfl fun _ _ _ found => found
  | dropObject call =>
    simp only [step,dropObject]
    split <;> exact sound.shrink rfl rfl fun _ _ _ found => found
  | dropVersion call =>
    simp only [step,dropVersion]
    split
    next =>
      refine sound.shrink rfl rfl fun jvm key version found => ?_
      simp only [setRemoving,deleteAt_apply] at found
      split at found
      · cases found
      · exact found
    next => exact sound
  | expire key =>
    simp only [step]
    split <;> exact sound.shrink rfl rfl fun _ _ _ found => found

section Key
omit [DecidableEq J] [DecidableEq ι] [DecidableEq ρ]

theorem getObject_eq_some {cache : SharedCache J ι ρ} {jvm : J} {key : String} {call : ι} :
    cache.getObject jvm key = some call ↔
      cache.dependecyMap jvm key = cache.remoteVersion key ∧
        cache.cachedObjectsMap jvm key = some call := by
  unfold getObject
  split
  next same => simp [same]
  next different => simp [different]

theorem Open.congr {cache other : SharedCache J ι ρ} {jvm : J} {key : String}
    (adds : ∀ call, (calls.adds call).jvm = jvm → (calls.adds call).key = key →
      (other.progress call).calling = (cache.progress call).calling)
    (removes : ∀ call, (calls.removes call).jvm = jvm → (calls.removes call).key = key →
      (other.removing call).calling = (cache.removing call).calling) :
    Open calls other jvm key ↔ Open calls cache jvm key := by
  have one : (∀ call, (calls.adds call).jvm = jvm → (calls.adds call).key = key →
      (other.progress call).calling = false) ↔ ∀ call, (calls.adds call).jvm = jvm →
        (calls.adds call).key = key → (cache.progress call).calling = false :=
    forall_congr' fun call => forall_congr' fun place => forall_congr' fun here => by
      rw [adds call place here]
  have two : (∀ call, (calls.removes call).jvm = jvm → (calls.removes call).key = key →
      (other.removing call).calling = false) ↔ ∀ call, (calls.removes call).jvm = jvm →
        (calls.removes call).key = key → (cache.removing call).calling = false :=
    forall_congr' fun call => forall_congr' fun place => forall_congr' fun here => by
      rw [removes call place here]
  rw [Open,Open,one,two]

variable (calls) in
def CoherentAt (cache : SharedCache J ι ρ) (key : String) : Prop :=
  ∀ jvm call, Open calls cache jvm key → cache.getObject jvm key = some call →
    cache.remoteVersion key = some (calls.adds call).version ∧ cache.last key = some call

variable (calls) in
structure Elsewhere (cache other : SharedCache J ι ρ) (key : String) : Prop where
  redis : ∀ place, place ≠ key → other.redis place = cache.redis place
  objects : ∀ jvm place, place ≠ key →
    other.cachedObjectsMap jvm place = cache.cachedObjectsMap jvm place
  map : ∀ jvm place, place ≠ key → other.dependecyMap jvm place = cache.dependecyMap jvm place
  last : ∀ place, place ≠ key → other.last place = cache.last place
  progress : ∀ call, (calls.adds call).key ≠ key → other.progress call = cache.progress call
  removing : ∀ call, (calls.removes call).key ≠ key → other.removing call = cache.removing call

theorem Elsewhere.coherent_iff {cache other : SharedCache J ι ρ} {key : String}
    (elsewhere : Elsewhere calls cache other key) (coherent : Coherent calls cache) :
    Coherent calls other ↔ CoherentAt calls other key := by
  refine ⟨fun after jvm call => after jvm key call,fun here jvm place call opened found => ?_⟩
  by_cases same : place = key
  · subst same
    exact here jvm call opened found
  · have before : Open calls cache jvm place := by
      refine (Open.congr (fun add _ there => ?_) (fun remove _ there => ?_)).mp opened
      · rw [elsewhere.progress add (by rwa [there])]
      · rw [elsewhere.removing remove (by rwa [there])]
    have remote : other.remoteVersion place = cache.remoteVersion place := by
      simp only [remoteVersion,elsewhere.redis place same]
    rw [getObject_eq_some,elsewhere.map jvm place same,elsewhere.objects jvm place same,remote,
      ← getObject_eq_some] at found
    rw [remote,elsewhere.last place same]
    exact coherent jvm place call before found

private theorem CoherentAt.of_unserved {cache : SharedCache J ι ρ} {key : String}
    (unserved : ∀ jvm, cache.getObject jvm key = none) : CoherentAt calls cache key := by
  intro jvm call _ found
  rw [unserved jvm] at found
  cases found

private theorem coherentAt_gone_iff {cache : SharedCache J ι ρ} {key : String}
    (gone : cache.remoteVersion key = none) :
    CoherentAt calls cache key ↔ Versioned calls cache key := by
  constructor
  · intro coherent jvm opened unversioned
    by_contra present
    obtain ⟨call,object⟩ := Option.ne_none_iff_exists'.mp present
    have found := getObject_eq_some.mpr ⟨unversioned.trans gone.symm,object⟩
    have remote := (coherent jvm call opened found).1
    rw [gone] at remote
    cases remote
  · intro versioned jvm call opened found
    obtain ⟨same,object⟩ := getObject_eq_some.mp found
    rw [versioned jvm opened (same.trans gone)] at object
    cases object

end Key

omit [DecidableEq J] [DecidableEq ρ] in
theorem open_setProgress_iff {cache : SharedCache J ι ρ} {call : ι} {progress : Progress} {jvm : J}
    {key : String} (same : (calls.adds call).jvm = jvm → (calls.adds call).key = key →
      progress.calling = (cache.progress call).calling) :
    Open calls (cache.setProgress call progress) jvm key ↔ Open calls cache jvm key := by
  refine Open.congr (fun other place here => ?_) fun _ _ _ => rfl
  by_cases again : other = call
  · subst again
    simpa [setProgress] using same place here
  · simp [setProgress,again]

omit [DecidableEq J] [DecidableEq ρ] in
theorem coherent_setProgress_iff {cache : SharedCache J ι ρ} {call : ι} {progress : Progress}
    (same : progress.calling = (cache.progress call).calling) :
    Coherent calls (cache.setProgress call progress) ↔ Coherent calls cache := by
  have opened : ∀ jvm key, Open calls (cache.setProgress call progress) jvm key ↔
      Open calls cache jvm key := fun _ _ => open_setProgress_iff fun _ _ => same
  simp only [Coherent,opened]
  exact Iff.rfl

omit [DecidableEq J] [DecidableEq ι] [DecidableEq ρ] in
theorem update_elsewhere {Call Value : Type*} [DecidableEq Call] (key : Call → String)
    (state : Call → Value) {call other : Call} (new : Value) (apart : key other ≠ key call) :
    Function.update state call new other = state other :=
  Function.update_of_ne (fun same => apart (congrArg key same)) _ _

/-- The object is visible before its version is anywhere. -/
theorem coherent_putObject_iff {cache : SharedCache J ι ρ} (coherent : Coherent calls cache)
    (sound : Sound calls cache) (call : ι) :
    Coherent calls (putObject calls cache call) ↔ Fit calls cache (.putObject call) := by
  cases progress : cache.progress call with
  | ready =>
    simp only [putObject,Fit,progress]
    have unrecorded := sound.unrecorded call (by simp [progress])
    have elsewhere : Elsewhere calls cache ({cache with
        cachedObjectsMap := putAt cache.cachedObjectsMap (calls.adds call).jvm (calls.adds call).key
          call}.setProgress call (.updating .add)) (calls.adds call).key :=
      ⟨fun _ _ => rfl,fun jvm place other => by simp [setProgress,putAt_apply,other],
        fun _ _ _ => rfl,fun _ _ => rfl,fun _ => update_elsewhere (calls.adds · |>.key) _ _,
        fun _ _ => rfl⟩
    rw [elsewhere.coherent_iff coherent]
    constructor
    · intro here overlap same
      have found := here (calls.adds call).jvm call (.inl overlap)
        (getObject_eq_some.mpr ⟨same,by simp [setProgress,putAt_apply]⟩)
      exact unrecorded _ (same.trans found.1)
    · intro outdated jvm other opened found
      obtain ⟨same,object⟩ := getObject_eq_some.mp found
      by_cases here : jvm = (calls.adds call).jvm
      · subst here
        -- The call is under way here, so that only an overlapping read sees its object.
        rcases opened with overlap | ⟨quiet,_⟩
        · exact absurd same (outdated overlap)
        · have busy := quiet call rfl rfl
          simp [setProgress,Progress.calling] at busy
      · have before : cache.cachedObjectsMap jvm (calls.adds call).key = some other := by
          simpa [setProgress,putAt_apply,here] using object
        refine coherent jvm _ other ?_ (getObject_eq_some.mpr ⟨same,before⟩)
        exact (open_setProgress_iff fun place => absurd place.symm here).mp opened
  | _ => simpa only [putObject,Fit,progress,iff_true] using coherent

omit [DecidableEq J] [DecidableEq ι] [DecidableEq ρ] in
private theorem coherent_set {cache : SharedCache J ι ρ} (coherent : Coherent calls cache) {call : ι}
    (unrecorded : Unrecorded calls cache call) : Coherent calls (set calls cache call) := by
  have elsewhere : Elsewhere calls cache (set calls cache call) (calls.adds call).key :=
    ⟨fun place other => by simp [set,put_apply,other],fun _ _ _ => rfl,fun _ _ _ => rfl,
      fun _ _ => rfl,fun _ _ => rfl,fun _ _ => rfl⟩
  have remote : (set calls cache call).remoteVersion (calls.adds call).key =
      some (calls.adds call).version := by
    simp [set,remoteVersion,put_apply,VersionedAdd.entry]
  apply (elsewhere.coherent_iff coherent).mpr
  apply CoherentAt.of_unserved
  intro jvm
  by_contra served
  obtain ⟨other,found⟩ := Option.ne_none_iff_exists'.mp served
  exact unrecorded jvm ((getObject_eq_some.mp found).1.trans remote)

omit [DecidableEq J] [DecidableEq ρ] in
theorem coherent_write {cache : SharedCache J ι ρ} (coherent : Coherent calls cache)
    (sound : Sound calls cache) (call : ι) (reply : Reply) :
    Coherent calls (write calls cache call reply) := by
  unfold write
  split
  next caller updating =>
    have unrecorded := sound.unrecorded call (by simp [updating])
    apply (coherent_setProgress_iff ?_).mpr (coherent_set coherent unrecorded)
    cases caller <;> simp [set,updating,Progress.calling]
  next caller updating =>
    apply (coherent_setProgress_iff ?_).mpr coherent
    cases caller <;> simp [updating,Progress.calling]
  next caller updating =>
    have unrecorded := sound.unrecorded call (by simp [updating])
    apply (coherent_setProgress_iff ?_).mpr (coherent_set coherent unrecorded)
    cases caller <;> simp [set,updating,Progress.calling]
  next => exact coherent

section Record
omit [DecidableEq ρ]

variable (calls) in
def recorded (cache : SharedCache J ι ρ) (call : ι) (caller : Caller) : SharedCache J ι ρ :=
  finish calls ({cache with
    dependecyMap := putAt cache.dependecyMap (calls.adds call).jvm (calls.adds call).key
      (calls.adds call).version}.setProgress call .recorded) call caller

theorem record_eq {cache : SharedCache J ι ρ} {call : ι} {caller : Caller}
    (progress : cache.progress call = .written caller) :
    record calls cache call = recorded calls cache call caller := by
  rw [record,progress]
  rfl

theorem recorded_elsewhere (cache : SharedCache J ι ρ) (call : ι) (caller : Caller) :
    Elsewhere calls cache (recorded calls cache call caller) (calls.adds call).key := by
  cases caller with
  | add =>
    exact ⟨fun _ _ => rfl,fun _ _ _ => rfl,fun jvm place other => by
        simp [recorded,finish,setProgress,putAt_apply,other],fun place other => by
        simp [recorded,finish,setProgress,put_apply,other],
      fun _ => update_elsewhere (calls.adds · |>.key) _ _,fun _ _ => rfl⟩
  | worker =>
    exact ⟨fun _ _ => rfl,fun _ _ _ => rfl,fun jvm place other => by
        simp [recorded,finish,setProgress,putAt_apply,other],fun _ _ => rfl,
      fun _ => update_elsewhere (calls.adds · |>.key) _ _,fun _ _ => rfl⟩

theorem remoteVersion_recorded (cache : SharedCache J ι ρ) (call : ι) (caller : Caller) (key : String) :
    (recorded calls cache call caller).remoteVersion key = cache.remoteVersion key := by
  cases caller <;> rfl

theorem getObject_recorded {cache : SharedCache J ι ρ} {call other : ι} {caller : Caller} {jvm : J} :
    (recorded calls cache call caller).getObject jvm (calls.adds call).key = some other ↔
      if jvm = (calls.adds call).jvm then
        cache.remoteVersion (calls.adds call).key = some (calls.adds call).version ∧
          cache.cachedObjectsMap jvm (calls.adds call).key = some other
      else cache.getObject jvm (calls.adds call).key = some other := by
  have objects : (recorded calls cache call caller).cachedObjectsMap = cache.cachedObjectsMap := by
    cases caller <;> rfl
  have versions : (recorded calls cache call caller).dependecyMap jvm (calls.adds call).key =
      if jvm = (calls.adds call).jvm then some (calls.adds call).version
      else cache.dependecyMap jvm (calls.adds call).key := by
    cases caller <;> simp [recorded,finish,setProgress,putAt_apply]
  rw [getObject_eq_some,remoteVersion_recorded,objects,versions]
  split
  · rw [eq_comm]
  · exact getObject_eq_some.symm

end Record

private theorem coherent_record_add_iff {cache : SharedCache J ι ρ} (coherent : Coherent calls cache)
    {call : ι} (progress : cache.progress call = .written .add)
    (unrecorded : Unrecorded calls cache call) :
    Coherent calls (record calls cache call) ↔ Fit calls cache (.record call) := by
  have last : (recorded calls cache call .add).last (calls.adds call).key = some call := by
    simp [recorded,finish,setProgress,put_apply]
  rw [record_eq progress,(recorded_elsewhere cache call .add).coherent_iff coherent]
  simp only [CoherentAt,Fit,progress,getObject_recorded,remoteVersion_recorded,last]
  split
  next current =>
    constructor
    · intro here opened other object
      have found := here (calls.adds call).jvm other opened (by rw [if_pos rfl]; exact ⟨current,object⟩)
      exact (Option.some.inj found.2).symm
    · intro own jvm other opened found
      split at found
      next here =>
        subst here
        rw [own opened other found.2]
        exact ⟨current,rfl⟩
      next =>
        -- No other JVM can have the version that is being recorded.
        exact absurd ((getObject_eq_some.mp found).1.trans current) (unrecorded jvm)
  next outdated =>
    constructor
    · intro here jvm apart opened
      by_contra served
      obtain ⟨other,found⟩ := Option.ne_none_iff_exists'.mp served
      obtain ⟨remote,whose⟩ := here jvm other opened (by rwa [if_neg apart])
      cases whose
      exact outdated remote
    · intro unserved jvm other opened found
      split at found
      next => exact absurd found.1 outdated
      next apart =>
        rw [unserved jvm apart opened] at found
        cases found

private theorem coherent_record_worker_iff (distinct : Function.Injective fun call => (calls.adds call).version)
    {cache : SharedCache J ι ρ} (coherent : Coherent calls cache)
    {call : ι} (progress : cache.progress call = .written .worker) :
    Coherent calls (record calls cache call) ↔ Fit calls cache (.record call) := by
  have quiet : ∀ jvm, Open calls (recorded calls cache call .worker) jvm (calls.adds call).key ↔
      Open calls cache jvm (calls.adds call).key := fun _ =>
    open_setProgress_iff fun _ _ => by rw [progress]; rfl
  have last : (recorded calls cache call .worker).last = cache.last := rfl
  rw [record_eq progress,(recorded_elsewhere cache call .worker).coherent_iff coherent]
  simp only [CoherentAt,Fit,progress,getObject_recorded,remoteVersion_recorded,quiet,last]
  constructor
  · intro here remote opened other object
    obtain ⟨version,last⟩ := here (calls.adds call).jvm other opened
      (by rw [if_pos rfl]; exact ⟨remote,object⟩)
    have whose : call = other := distinct (Option.some.inj (remote.symm.trans version))
    subst whose
    exact ⟨rfl,last⟩
  · intro fit jvm other opened found
    split at found
    next here =>
      subst here
      obtain ⟨rfl,last⟩ := fit found.1 opened other found.2
      exact ⟨found.1,last⟩
    next => exact coherent jvm _ other opened found

/-- A version that Redis has refused is queued: an `add` completes without it. -/
theorem coherent_enqueue_iff {cache : SharedCache J ι ρ} (coherent : Coherent calls cache)
    (sound : Sound calls cache) (call : ι) :
    Coherent calls (enqueue calls cache call) ↔ Fit calls cache (.enqueue call) := by
  cases progress : cache.progress call with
  | failed caller =>
    have unrecorded := sound.unrecorded call (by simp [progress])
    cases caller with
    | worker =>
      simp only [enqueue,Fit,progress,iff_true]
      split
      next => exact (coherent_setProgress_iff (by rw [progress]; rfl)).mpr coherent
      next => exact coherent
    | add =>
      simp only [enqueue,Fit,progress]
      split
      next free =>
        have elsewhere : Elsewhere calls cache (finish calls ({cache with
            updateDependencyQueue := Function.update cache.updateDependencyQueue (calls.adds call).jvm
              (cache.updateDependencyQueue (calls.adds call).jvm++[call])}.setProgress call .queued)
              call .add) (calls.adds call).key :=
          ⟨fun _ _ => rfl,fun _ _ _ => rfl,fun _ _ _ => rfl,fun place other => by
            simp [finish,setProgress,put_apply,other],fun _ => update_elsewhere (calls.adds · |>.key) _ _,
            fun _ _ => rfl⟩
        rw [elsewhere.coherent_iff coherent]
        simp only [free,true_implies]
        constructor
        · intro here jvm opened
          by_contra served
          obtain ⟨other,found⟩ := Option.ne_none_iff_exists'.mp served
          obtain ⟨remote,last⟩ := here jvm other opened found
          have whose : call = other := by simpa [finish,setProgress,put_apply] using last
          subst whose
          exact unrecorded jvm ((getObject_eq_some.mp found).1.trans remote)
        · intro unserved jvm other opened found
          have none : cache.getObject jvm (calls.adds call).key = none := unserved jvm opened
          have served : cache.getObject jvm (calls.adds call).key = some other := found
          rw [none] at served
          cases served
      next full => exact iff_of_true coherent fun free => absurd free full
  | _ => simpa only [enqueue,Fit,progress,iff_true] using coherent

omit [DecidableEq J] [DecidableEq ι] in
private theorem open_setRemoving_iff {cache : SharedCache J ι ρ} {call : ρ} {removing : Removing} {jvm : J}
    {key : String} (same : (calls.removes call).jvm = jvm → (calls.removes call).key = key →
      removing.calling = (cache.removing call).calling) :
    Open calls (cache.setRemoving call removing) jvm key ↔ Open calls cache jvm key := by
  refine Open.congr (fun _ _ _ => rfl) fun other place here => ?_
  by_cases again : other = call
  · subst again
    simpa [setRemoving] using same place here
  · simp [setRemoving,again]

omit [DecidableEq J] [DecidableEq ι] in
theorem coherent_setRemoving_iff {cache : SharedCache J ι ρ} {call : ρ} {removing : Removing}
    (same : removing.calling = (cache.removing call).calling) :
    Coherent calls (cache.setRemoving call removing) ↔ Coherent calls cache := by
  have opened : ∀ jvm key, Open calls (cache.setRemoving call removing) jvm key ↔
      Open calls cache jvm key := fun _ _ => open_setRemoving_iff fun _ _ => same
  simp only [Coherent,opened]
  exact Iff.rfl

omit [DecidableEq J] [DecidableEq ι] [DecidableEq ρ] in
private theorem coherent_lose_iff {cache : SharedCache J ι ρ} (coherent : Coherent calls cache)
    (key : String) :
    Coherent calls {cache with redis := delete cache.redis key} ↔ Versioned calls cache key := by
  have elsewhere : Elsewhere calls cache {cache with redis := delete cache.redis key} key :=
    ⟨fun place other => by simp [delete_apply,other],fun _ _ _ => rfl,fun _ _ _ => rfl,
      fun _ _ => rfl,fun _ _ => rfl,fun _ _ => rfl⟩
  have gone : {cache with redis := delete cache.redis key}.remoteVersion key = none := by
    simp [remoteVersion,delete_apply]
  exact (elsewhere.coherent_iff coherent).trans (coherentAt_gone_iff gone)

omit [DecidableEq J] in
private theorem coherent_deleteKey_iff {cache : SharedCache J ι ρ} (coherent : Coherent calls cache)
    (call : ρ) (reply : Reply) :
    Coherent calls (deleteKey calls cache call reply) ↔ Fit calls cache (.delete call reply) := by
  cases removing : cache.removing call with
  | ready =>
    cases reply with
    | done =>
      simp only [deleteKey,Fit,removing]
      have elsewhere : Elsewhere calls cache ({cache with
          redis := delete cache.redis (calls.removes call).key
          last := delete cache.last (calls.removes call).key}.setRemoving call .deleted)
          (calls.removes call).key :=
        ⟨fun place other => by simp [setRemoving,delete_apply,other],fun _ _ _ => rfl,
          fun _ _ _ => rfl,fun place other => by simp [setRemoving,delete_apply,other],
          fun _ _ => rfl,fun _ => update_elsewhere (calls.removes · |>.key) _ _⟩
      apply (elsewhere.coherent_iff coherent).trans
      apply coherentAt_gone_iff
      simp [setRemoving,remoteVersion,delete_apply]
    | refused =>
      simp only [deleteKey,Fit,removing,iff_true]
      exact (coherent_setRemoving_iff (by rw [removing]; rfl)).mpr coherent
    | lost =>
      simp only [deleteKey,Fit,removing]
      apply Iff.trans ?_ (coherent_lose_iff coherent (calls.removes call).key)
      exact coherent_setRemoving_iff (by rw [removing]; rfl)
  | _ => simpa only [deleteKey,Fit,removing,iff_true] using coherent

omit [DecidableEq ι] in
private theorem coherent_dropObject {cache : SharedCache J ι ρ} (coherent : Coherent calls cache)
    (call : ρ) : Coherent calls (dropObject calls cache call) := by
  cases removing : cache.removing call with
  | deleted =>
    simp only [dropObject,removing]
    apply (coherent_setRemoving_iff (by rw [removing]; rfl)).mpr
    intro jvm key other opened found
    obtain ⟨same,object⟩ := getObject_eq_some.mp found
    simp only [deleteAt_apply] at object
    split at object
    · cases object
    · exact coherent jvm key other opened (getObject_eq_some.mpr ⟨same,object⟩)
  | _ => simpa only [dropObject,removing] using coherent

private theorem coherent_dropVersion_iff {cache : SharedCache J ι ρ} (coherent : Coherent calls cache)
    (call : ρ) :
    Coherent calls (dropVersion calls cache call) ↔ Fit calls cache (.dropVersion call) := by
  cases removing : cache.removing call with
  | dropped =>
    simp only [dropVersion,Fit,removing]
    have elsewhere : Elsewhere calls cache ({cache with
        dependecyMap := deleteAt cache.dependecyMap (calls.removes call).jvm
          (calls.removes call).key}.setRemoving call .over) (calls.removes call).key :=
      ⟨fun _ _ => rfl,fun _ _ _ => rfl,fun jvm place other => by
        simp [setRemoving,deleteAt_apply,other],fun _ _ => rfl,fun _ _ => rfl,
        fun _ => update_elsewhere (calls.removes · |>.key) _ _⟩
    rw [elsewhere.coherent_iff coherent]
    constructor
    · intro here opened gone
      by_contra present
      obtain ⟨other,object⟩ := Option.ne_none_iff_exists'.mp present
      have found := here (calls.removes call).jvm other opened (getObject_eq_some.mpr
        ⟨by simpa [setRemoving,deleteAt_apply,remoteVersion] using gone.symm,object⟩)
      have remote : cache.remoteVersion (calls.removes call).key = _ := found.1
      rw [gone] at remote
      cases remote
    · intro fit jvm other opened found
      obtain ⟨same,object⟩ := getObject_eq_some.mp found
      by_cases here : jvm = (calls.removes call).jvm
      · subst here
        have gone : cache.remoteVersion (calls.removes call).key = none := by
          simpa [setRemoving,deleteAt_apply,remoteVersion] using same.symm
        have absent : cache.cachedObjectsMap (calls.removes call).jvm (calls.removes call).key =
            some other := object
        rw [fit opened gone] at absent
        cases absent
      · have before : cache.dependecyMap jvm (calls.removes call).key =
            cache.remoteVersion (calls.removes call).key := by
          simpa [setRemoving,deleteAt_apply,here,remoteVersion] using same
        refine coherent jvm _ other ?_ (getObject_eq_some.mpr ⟨before,object⟩)
        exact (open_setRemoving_iff fun place => absurd place.symm here).mp opened
  | _ => simpa only [dropVersion,Fit,removing,iff_true] using coherent

theorem step_coherent_iff (distinct : Function.Injective fun call => (calls.adds call).version)
    (cache : SharedCache J ι ρ) (event : Event ι ρ J)
    (held : Sound calls cache ∧ Coherent calls cache) :
    Coherent calls (step calls cache event) ↔ Fit calls cache event := by
  obtain ⟨sound,coherent⟩ := held
  cases event with
  | putObject call => exact coherent_putObject_iff coherent sound call
  | write call reply => exact iff_of_true (coherent_write coherent sound call reply) trivial
  | record call =>
    cases progress : cache.progress call with
    | written caller =>
      cases caller with
      | add =>
        have unrecorded := sound.unrecorded call (by simp [progress])
        exact coherent_record_add_iff coherent progress unrecorded
      | worker => exact coherent_record_worker_iff distinct coherent progress
    | _ => simpa only [step,record,Fit,progress,iff_true] using coherent
  | enqueue call => exact coherent_enqueue_iff coherent sound call
  | take jvm =>
    apply iff_of_true ?_ trivial
    simp only [step,take]
    split
    next call rest _ queue =>
      have waiting := (sound.queued jvm call (by simp [queue])).1
      exact (coherent_setProgress_iff (by rw [waiting]; rfl)).mpr coherent
    next => exact coherent
  | delete call reply => exact coherent_deleteKey_iff coherent call reply
  | dropObject call => exact iff_of_true (coherent_dropObject coherent call) trivial
  | dropVersion call => exact coherent_dropVersion_iff coherent call
  | expire key =>
    simp only [step,Fit]
    split
    next timed =>
      simp only [timed,true_implies]
      exact coherent_lose_iff coherent key
    next untimed => exact iff_of_true coherent fun timed => absurd timed untimed

def twice : Calls Unit Bool Empty where
  adds := fun call => {jvm := (),key := "price",version := if call then "2" else "1"}
  removes := Empty.elim
  overlap := false

theorem twice_distinct : Function.Injective fun call => (twice.adds call).version := by
  have distinct : ∀ first second, (twice.adds first).version = (twice.adds second).version →
      first = second := by decide
  exact fun first second => distinct first second

def renewed : List (Event Bool Empty Unit) :=
  [.putObject false,.write false .done,.record false,
    .putObject true,.write true .refused,.enqueue true]

end SharedCache
end YzFramework.Cache
