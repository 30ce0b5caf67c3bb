import YzFramework.Redis.StringRedisTemplateEX
import YzFramework.Library.Run
import Mathlib

/-! `RedisLock` and any number of its instances against one Redis.
An attempt is one `acquireLock`; a `lock()` that fails sleeps and polls again.
Leases, writers and acquisitions are bookkeeping that no step of the code reads. -/
namespace YzFramework.Redis
open Library Library.Store Library.Run

/-- What the constructors set; `createdAt` is the clock reading of the value. -/
structure RedisLock where
  keys : List String
  timeout : ℤ
  createdAt : ℤ
  distinct : keys.Nodup

namespace RedisLock

def DEFAULT_TIME_OUT : ℤ := 120*1000

def ofKey (key : String) (createdAt : ℤ) (timeOut : ℤ := DEFAULT_TIME_OUT) : RedisLock :=
  ⟨[key],timeOut,createdAt,List.nodup_singleton key⟩

/-- Repeated keys are dropped by the hash set; its order is not relied on. -/
def ofKeys (keys : List String) (createdAt : ℤ) (timeOut : ℤ := DEFAULT_TIME_OUT) : RedisLock :=
  ⟨keys.dedup,timeOut,createdAt,keys.nodup_dedup⟩

def value (lock : RedisLock) : String := toString lock.createdAt

theorem value_inj {first second : RedisLock} :
    first.value = second.value ↔ first.createdAt = second.createdAt := Int.repr_inj

def acquireLock (expires : ℤ → Bool) (lock : RedisLock) (hasLock : Bool) (store : Keyspace) :
    Except String Bool × Bool × Keyspace :=
  match setIfAbsent expires lock.keys lock.value lock.timeout store with
  | (.error fault,store) => (.error fault,hasLock,store)
  | (.ok acquired,store) => (.ok acquired,acquired,store)

/-- An exception of the script is caught and leaves `hasLock` set. -/
def unLock (lock : RedisLock) (hasLock : Bool) (store : Keyspace) : Bool × Keyspace :=
  if hasLock then
    match deleteIfEqual lock.keys lock.value store with
    | (.error _,store) => (hasLock,store)
    | (.ok _,store) => (false,store)
  else (hasLock,store)

def Takes (expires : ℤ → Bool) (lock : RedisLock) (store : Keyspace) : Prop :=
  lock.keys ≠ [] ∧ Lasting expires lock.timeout ∧ Free store lock.keys

/-- A lock on a list of keys that repeats some is taken like one on the keys themselves,
where the script alone would find each repeated key taken. -/
theorem takes_ofKeys (expires : ℤ → Bool) (keys : List String) (createdAt timeOut : ℤ) (store : Keyspace) :
    Takes expires (ofKeys keys createdAt timeOut) store ↔
      keys ≠ [] ∧ Lasting expires timeOut ∧ ∀ key ∈ keys, store key = none := by
  simp [Takes,ofKeys,Free,List.dedup_eq_nil,List.nodup_dedup]

def entry (lock : RedisLock) : Entry := ⟨lock.value,some lock.timeout⟩

theorem acquireLock_spec (expires : ℤ → Bool) (lock : RedisLock) (hasLock : Bool) (store : Keyspace) :
    (Takes expires lock store ∧ acquireLock expires lock hasLock store =
      (.ok true,true,putAll store lock.keys lock.entry)) ∨
    (lock.keys ≠ [] ∧ Lasting expires lock.timeout ∧ ¬ Free store lock.keys ∧
      acquireLock expires lock hasLock store = (.ok false,false,store)) ∨
    ((lock.keys = [] ∨ ¬ Lasting expires lock.timeout) ∧
      ∃ fault, acquireLock expires lock hasLock store = (.error fault,hasLock,store)) := by
  rcases @setIfAbsent_spec expires lock.keys lock.value lock.timeout store with
    ⟨some,timed,free,eq⟩ | ⟨some,timed,taken,eq⟩ | ⟨unfit,fault,eq⟩
  · exact .inl ⟨⟨some,timed,free⟩,by rw [acquireLock,eq]; rfl⟩
  · exact .inr (.inl ⟨some,timed,taken,by rw [acquireLock,eq]⟩)
  · exact .inr (.inr ⟨unfit,fault,by rw [acquireLock,eq]⟩)

theorem unLock_spec (lock : RedisLock) (store : Keyspace) :
    lock.unLock true store = (false,(deleteIfEqual lock.keys lock.value store).2) := by
  obtain ⟨result,answered⟩ := deleteIfEqual_ok lock.keys lock.value store
  simp only [unLock,if_true]
  split
  next failed => simp [failed] at answered
  next eq => rw [eq]

end RedisLock

/-- Redis and the instances: `hasLock`, whether a `lock()` call sleeps, and the
bookkeeping. An instance leases a key from its acquisition to the expiry of the
entry or to its own release; `acquired` lasts to its next `unLock`. -/
structure System (ι : Type*) where
  store : Keyspace
  hasLock : ι → Bool := fun _ => false
  sleeping : ι → Bool := fun _ => false
  lease : ι → String → Bool := fun _ _ => false
  writer : String → Option ι := fun _ => none
  acquired : ι → Bool := fun _ => false

namespace System

inductive Call (ι : Type*)
  | tryLock (i : ι)
  | lock (i : ι)
  | interrupt (i : ι)
  | unLock (i : ι)

inductive Event (ι : Type*)
  | call (call : Call ι)
  | expire (key : String)

variable {ι : Type*} [DecidableEq ι] (expires : ℤ → Bool) (locks : ι → RedisLock)

def attempt (system : System ι) (i : ι) : Except String Bool × System ι :=
  match (locks i).acquireLock expires (system.hasLock i) system.store with
  | (.ok true,hasLock,store) =>
    (.ok true,{system with
      store := store
      hasLock := Function.update system.hasLock i hasLock
      lease := fun j key => if j = i ∧ key ∈ (locks i).keys then true else system.lease j key
      writer := fun key => if key ∈ (locks i).keys then some i else system.writer key
      acquired := Function.update system.acquired i true})
  | (answer,hasLock,store) =>
    (answer,{system with
      store := store
      hasLock := Function.update system.hasLock i hasLock})

def act (system : System ι) : Call ι → System ι
  | .tryLock i => (attempt expires locks system i).2
  | .lock i =>
    let (answer,after) := attempt expires locks system i
    {after with sleeping := Function.update system.sleeping i (answer matches .ok false)}
  | .interrupt i =>
    if system.sleeping i then
      {system with
        hasLock := Function.update system.hasLock i false
        sleeping := Function.update system.sleeping i false}
    else system
  | .unLock i =>
    let (hasLock,store) := (locks i).unLock (system.hasLock i) system.store
    {system with
      store := store
      hasLock := Function.update system.hasLock i hasLock
      lease := if system.hasLock i then Function.update system.lease i fun _ => false
        else system.lease
      acquired := Function.update system.acquired i false}

/-- Only an entry with a time to live expires. -/
def expire (system : System ι) (key : String) : System ι :=
  if ((system.store key).bind Entry.px).isSome then
    {system with
      store := delete system.store key
      lease := fun i other =>
        if other = key ∧ system.writer key = some i then false else system.lease i other}
  else system

def step (system : System ι) : Event ι → System ι
  | .call call => act expires locks system call
  | .expire key => expire system key

def Holds (system : System ι) (i : ι) (key : String) : Prop :=
  system.hasLock i = true ∧ system.lease i key = true

def Exclusive (system : System ι) : Prop :=
  ∀ i j key, system.Holds i key → system.Holds j key → i = j

def Spares (system : System ι) (event : Event ι) : Prop :=
  ∀ i, event = .call (.unLock i) → ∀ j key, j ≠ i → system.Holds j key →
    (step expires locks system event).store key = system.store key

/-- Instances that can take a common key read different milliseconds. -/
def Apart : Prop :=
  ∀ i j, i ≠ j → Lasting expires (locks i).timeout → Lasting expires (locks j).timeout →
    ∀ key ∈ (locks i).keys, key ∈ (locks j).keys → (locks i).createdAt ≠ (locks j).createdAt

theorem attempt_cases (system : System ι) (i : ι) :
    ((locks i).Takes expires system.store ∧ (attempt expires locks system i).2 = {system with
      store := putAll system.store (locks i).keys (locks i).entry
      hasLock := Function.update system.hasLock i true
      lease := fun j key => if j = i ∧ key ∈ (locks i).keys then true else system.lease j key
      writer := fun key => if key ∈ (locks i).keys then some i else system.writer key
      acquired := Function.update system.acquired i true}) ∨
    (¬ Free system.store (locks i).keys ∧ (attempt expires locks system i).2 =
        {system with hasLock := Function.update system.hasLock i false}) ∨
    (((locks i).keys = [] ∨ ¬ Lasting expires (locks i).timeout) ∧ (attempt expires locks system i).2 = system) := by
  rcases RedisLock.acquireLock_spec expires (locks i) (system.hasLock i) system.store with
    ⟨takes,eq⟩ | ⟨some,timed,taken,eq⟩ | ⟨unfit,fault,eq⟩
  · exact .inl ⟨takes,by rw [attempt,eq]⟩
  · exact .inr (.inl ⟨taken,by rw [attempt,eq]⟩)
  · refine .inr (.inr ⟨unfit,?_⟩)
    rw [attempt,eq]
    simp only [Function.update_eq_self]

variable {expires locks}

theorem attempt_takes {system : System ι} {i : ι} (takes : (locks i).Takes expires system.store) :
    (attempt expires locks system i).2 = {system with
      store := putAll system.store (locks i).keys (locks i).entry
      hasLock := Function.update system.hasLock i true
      lease := fun j key => if j = i ∧ key ∈ (locks i).keys then true else system.lease j key
      writer := fun key => if key ∈ (locks i).keys then some i else system.writer key
      acquired := Function.update system.acquired i true} := by
  obtain ⟨some,timed,free⟩ := takes
  rcases attempt_cases expires locks system i with ⟨_,eq⟩ | ⟨taken,_⟩ | ⟨empty | untimed,_⟩
  · exact eq
  · exact absurd free taken
  · exact absurd empty some
  · exact absurd timed untimed

theorem unLock_held (system : System ι) (i : ι) (held : system.hasLock i = true) :
    act expires locks system (.unLock i) = {system with
      store := (deleteIfEqual (locks i).keys (locks i).value system.store).2
      hasLock := Function.update system.hasLock i false
      lease := Function.update system.lease i fun _ => false
      acquired := Function.update system.acquired i false} := by
  simp only [act,held,RedisLock.unLock_spec,if_true]

theorem unLock_unheld (system : System ι) (i : ι) (unheld : system.hasLock i = false) :
    act expires locks system (.unLock i) =
      {system with acquired := Function.update system.acquired i false} := by
  have kept : Function.update system.hasLock i false = system.hasLock := by
    rw [← unheld,Function.update_eq_self]
  simp only [act,unheld,RedisLock.unLock,Bool.false_eq_true,if_false,kept]

variable (expires locks)

structure Tied (system : System ι) : Prop where
  timed : ∀ i, system.hasLock i = true → Lasting expires (locks i).timeout
  leased : ∀ i key, system.lease i key = true → key ∈ (locks i).keys
  held : ∀ i key, system.Holds i key →
    system.writer key = some i ∧ (system.store key).map Entry.value = some (locks i).value

variable {expires locks}

omit [DecidableEq ι] in
theorem Tied.initial (store : Keyspace) : Tied expires locks ({store := store} : System ι) where
  timed := by simp
  leased := by simp
  held := by simp [Holds]

omit [DecidableEq ι] in
private theorem Tied.exclusive {system : System ι} (tied : Tied expires locks system) : system.Exclusive := by
  intro i j key first second
  have wrote := (tied.held i key first).1
  rw [(tied.held j key second).1] at wrote
  exact (Option.some.inj wrote).symm

theorem Tied.drop {system : System ι} (tied : Tied expires locks system) (i : ι) :
    Tied expires locks {system with hasLock := Function.update system.hasLock i false} where
  timed j has := by
    rcases eq_or_ne j i with rfl | other
    · simp at has
    · exact tied.timed j (by simpa [other] using has)
  leased := tied.leased
  held j key := by
    intro holding
    obtain ⟨has,lease⟩ := holding
    rcases eq_or_ne j i with rfl | other
    · simp at has
    · exact tied.held j key ⟨by simpa [other] using has,lease⟩

theorem Tied.attempt {system : System ι} (tied : Tied expires locks system) (i : ι) :
    Tied expires locks (attempt expires locks system i).2 := by
  rcases attempt_cases expires locks system i with
    ⟨⟨_,positive,free⟩,eq⟩ | ⟨_,eq⟩ | ⟨_,eq⟩
  · -- The keys were free, so nobody else holds one of them.
    rw [eq]
    constructor
    · intro j has
      rcases eq_or_ne j i with rfl | other
      · exact positive
      · exact tied.timed j (by simpa [other] using has)
    · intro j key lease
      by_cases fresh : j = i ∧ key ∈ (locks i).keys
      · exact fresh.1 ▸ fresh.2
      · exact tied.leased j key (by simpa [fresh] using lease)
    · intro j key holding
      obtain ⟨has,lease⟩ := holding
      rcases eq_or_ne j i with rfl | other
      · have inside : key ∈ (locks j).keys := by
          by_contra outside
          exact outside (tied.leased j key (by simpa [outside] using lease))
        simp [inside,putAll,RedisLock.entry]
      · have holds : system.Holds j key :=
          ⟨by simpa [other] using has,by simpa [other] using lease⟩
        have outside : key ∉ (locks i).keys := fun inside => by
          simpa [free.2 key inside] using (tied.held j key holds).2
        simpa [putAll,outside] using tied.held j key holds
  · rw [eq]
    exact tied.drop i
  · rw [eq]
    exact tied

theorem Tied.expire {system : System ι} (tied : Tied expires locks system) (key : String) :
    Tied expires locks (expire system key) := by
  unfold System.expire
  split
  next =>
    constructor
    · exact tied.timed
    · intro i other lease
      exact tied.leased i other (by simp at lease; exact lease.2)
    · intro i other holding
      obtain ⟨has,lease⟩ := holding
      simp only [Bool.if_false_left,Bool.and_eq_true,Bool.not_eq_true',decide_eq_false_iff_not] at lease
      have holds := tied.held i other ⟨has,lease.2⟩
      have different : other ≠ key := fun same => lease.1 ⟨same,same ▸ holds.1⟩
      simpa [delete_apply,different] using holds
  next => exact tied

theorem Tied.unLock {system : System ι} (tied : Tied expires locks system) (i : ι)
    (spares : Spares expires locks system (.call (.unLock i))) :
    Tied expires locks (act expires locks system (.unLock i)) := by
  cases has : system.hasLock i with
  | false =>
    rw [unLock_unheld system i has]
    exact ⟨tied.timed,tied.leased,tied.held⟩
  | true =>
    have untouched := spares i rfl
    rw [System.step,unLock_held system i has] at untouched
    rw [unLock_held system i has]
    constructor
    · exact (tied.drop i).timed
    · intro j key lease
      rcases eq_or_ne j i with rfl | other
      · simp at lease
      · exact tied.leased j key (by simpa [other] using lease)
    · intro j key holding
      obtain ⟨still,lease⟩ := holding
      rcases eq_or_ne j i with rfl | other
      · simp at still
      · have holds : system.Holds j key :=
          ⟨by simpa [other] using still,by simpa [other] using lease⟩
        have kept := untouched j key other holds
        dsimp only at kept ⊢
        rw [kept]
        exact tied.held j key holds

theorem Tied.step {system : System ι} (tied : Tied expires locks system) (event : Event ι)
    (spares : Spares expires locks system event) : Tied expires locks (step expires locks system event) := by
  cases event with
  | expire key => exact tied.expire key
  | call call =>
    cases call with
    | tryLock i => exact tied.attempt i
    | lock i => exact ⟨(tied.attempt i).timed,(tied.attempt i).leased,(tied.attempt i).held⟩
    | interrupt i =>
      simp only [System.step,act]
      split
      · exact ⟨(tied.drop i).timed,(tied.drop i).leased,(tied.drop i).held⟩
      · exact tied
    | unLock i => exact tied.unLock i spares

theorem Tied.spares {system : System ι} (tied : Tied expires locks system) (apart : Apart expires locks)
    (event : Event ι) : Spares expires locks system event := by
  intro i released j key other holds
  subst released
  cases has : system.hasLock i with
  | false => rw [System.step,unLock_unheld system i has]
  | true =>
    rw [System.step,unLock_held system i has]
    dsimp only
    rw [deleteIfEqual_store,if_neg]
    -- Equal values would come from two constructors in one millisecond.
    intro both
    obtain ⟨inside,equal⟩ := both
    have same : (locks i).value = (locks j).value :=
      Option.some.inj (equal.symm.trans (tied.held j key holds).2)
    exact apart i j other.symm (tied.timed i has) (tied.timed j holds.1) key inside
      (tied.leased j key holds.2) (RedisLock.value_inj.mp same)

theorem final_expire (system : System ι) (keys : List String)
    (timed : ∀ key ∈ keys, ∀ entry ∈ system.store key, entry.px.isSome) (key : String) :
    (final (step expires locks) system (keys.map .expire)).store key =
      if key ∈ keys then none else system.store key := by
  induction keys generalizing system with
  | nil => simp
  | cons first rest ih =>
    have gone : ∀ key, (expire system first).store key =
        if key = first then none else system.store key := by
      intro key
      unfold expire
      split
      next => exact delete_apply _ _ _
      next missing =>
        split
        next same =>
          subst same
          cases present : system.store key with
          | none => rfl
          | some entry => simp [present,timed key (by simp) entry present] at missing
        next => rfl
    have rested := ih (expire system first) fun key inside entry found =>
      timed key (by simp [inside]) entry (by
        rw [gone key] at found
        split at found
        · simp at found
        · exact found)
    rw [List.map_cons,final_cons,System.step,rested,gone key]
    by_cases same : key = first <;> simp [same]

theorem final_expire_hasLock (system : System ι) (keys : List String) :
    (final (step expires locks) system (keys.map .expire)).hasLock = system.hasLock := by
  induction keys generalizing system with
  | nil => rfl
  | cons first rest ih =>
    rw [List.map_cons,final_cons,ih]
    simp only [System.step,expire]
    split <;> rfl

private theorem not_spares {system : System ι} {i j : ι} (other : i ≠ j) (believes : system.hasLock i = true)
    (takes : (locks j).Takes expires system.store) {key : String} (inside : key ∈ (locks i).keys)
    (shared : key ∈ (locks j).keys) (same : (locks i).createdAt = (locks j).createdAt) :
    ¬ Spares expires locks (attempt expires locks system j).2 (.call (.unLock i)) := by
  intro spares
  have holds : (attempt expires locks system j).2.Holds j key := by
    rw [attempt_takes takes]
    simp [Holds,shared]
  have believed : (attempt expires locks system j).2.hasLock i = true := by
    rw [attempt_takes takes]
    simpa [other] using believes
  have stored : ((attempt expires locks system j).2.store key).map Entry.value = some (locks i).value := by
    rw [attempt_takes takes,RedisLock.value_inj.mpr same]
    simp [putAll,shared,RedisLock.entry]
  have kept := spares i rfl j key other.symm holds
  rw [System.step,unLock_held _ i believed] at kept
  dsimp only at kept
  rw [deleteIfEqual_store,if_pos ⟨inside,stored⟩] at kept
  rw [← kept] at stored
  cases stored

/-- Two instances with equal values: the first loses its keys to expiry, the
second takes them, and the first releases. -/
theorem not_exclusive {i j : ι} (other : i ≠ j) (first : Lasting expires (locks i).timeout)
    (second : Lasting expires (locks j).timeout) {key : String} (inside : key ∈ (locks i).keys)
    (shared : key ∈ (locks j).keys) (same : (locks i).createdAt = (locks j).createdAt) :
    ¬ Along (step expires locks) (fun system event => Spares expires locks system event ∧
        Exclusive (step expires locks system event)) {store := fun _ => none}
      (.call (.tryLock i)::((locks i).keys.map .expire++
        [.call (.tryLock j),.call (.unLock i)])) := by
  intro held
  rw [along_cons,along_append] at held
  obtain ⟨_,_,_,⟨spares,_⟩,_⟩ := held
  have takes : (locks i).Takes expires fun _ => none :=
    ⟨List.ne_nil_of_mem inside,first,(locks i).distinct,fun _ _ => rfl⟩
  have taken := attempt_takes (show (locks i).Takes expires ({store := fun _ => none} : System ι).store from takes)
  apply not_spares other ?_ ?_ inside shared same spares
  · rw [final_expire_hasLock,System.step,act,taken]
    simp
  · refine ⟨List.ne_nil_of_mem shared,second,(locks j).distinct,fun other _ => ?_⟩
    rw [System.step,act,taken,final_expire]
    · by_cases member : other ∈ (locks i).keys <;> simp [member,putAll]
    · intro other member entry found
      simp [putAll,member] at found
      simp [← found,RedisLock.entry]

/-- No run lets a release touch a foreign key, and none has a key held twice,
exactly when instances that share a key were created in different milliseconds. -/
theorem run_exclusive_iff :
    (∀ store events, Along (step expires locks) (fun system event => Spares expires locks system event ∧
        Exclusive (step expires locks system event)) {store := store} events) ↔ Apart expires locks := by
  constructor
  · intro held i j other first second key inside shared same
    exact not_exclusive other first second inside shared same (held _ _)
  · intro apart store events
    exact along_always
      (fun system event tied => tied.step event (tied.spares apart event))
      (fun system event tied => ⟨tied.spares apart event,
        (tied.step event (tied.spares apart event)).exclusive⟩)
      _ events (Tied.initial store)

theorem same_millisecond_shared :
    ¬ Along (step (fun _ => true) fun _ : Bool => RedisLock.ofKey "order" 1530000000000)
      (fun system event =>
        Spares (fun _ => true) (fun _ => RedisLock.ofKey "order" 1530000000000) system event ∧
        Exclusive (step (fun _ => true) (fun _ => RedisLock.ofKey "order" 1530000000000) system event))
      {store := fun _ => none}
      [.call (.tryLock false),.expire "order",.call (.tryLock true),.call (.unLock false)] :=
  not_exclusive Bool.false_ne_true (by decide) (by decide) (List.mem_singleton.mpr rfl)
    (List.mem_singleton.mpr rfl) rfl

variable (expires locks)

/-- If the instance has acquired its keys, an `unLock` now leaves none of them. -/
def Releasable (i : ι) (system : System ι) : Prop :=
  system.acquired i = true →
    ∀ key ∈ (locks i).keys, (act expires locks system (.unLock i)).store key = none

/-- An instance that has acquired its keys neither tries again nor is interrupted
in a `lock()` of its own. -/
def Undisturbed (i : ι) (system : System ι) (call : Call ι) : Prop :=
  system.acquired i = true →
    match call with
    | .tryLock j => j ≠ i
    | .lock j => j ≠ i
    | .interrupt j => j = i → system.sleeping i = false
    | .unLock _ => True

def Owned (system : System ι) : Prop :=
  ∀ i, system.hasLock i = true → ∀ key ∈ (locks i).keys,
    system.writer key = some i ∧ (system.store key).map Entry.value = some (locks i).value

def Believed (i : ι) (system : System ι) : Prop :=
  system.acquired i = true → system.hasLock i = true ∧ (locks i).keys ≠ [] ∧ Lasting expires (locks i).timeout

variable {expires locks}

theorem Owned.drop {system : System ι} (owned : Owned locks system) (i : ι) :
    Owned locks {system with hasLock := Function.update system.hasLock i false} := by
  intro j has
  rcases eq_or_ne j i with rfl | other
  · simp at has
  · exact owned j (by simpa [other] using has)

theorem Owned.attempt {system : System ι} (owned : Owned locks system) (i : ι) :
    Owned locks (attempt expires locks system i).2 := by
  rcases attempt_cases expires locks system i with ⟨⟨_,_,free⟩,eq⟩ | ⟨_,eq⟩ | ⟨_,eq⟩
  · rw [eq]
    intro j has key inside
    rcases eq_or_ne j i with rfl | other
    · simp [inside,putAll,RedisLock.entry]
    · have owns := owned j (by simpa [other] using has) key inside
      have outside : key ∉ (locks i).keys := fun member => by
        simpa [free.2 key member] using owns.2
      simpa [putAll,outside] using owns
  · rw [eq]
    exact owned.drop i
  · rw [eq]
    exact owned

theorem Owned.unLock {system : System ι} (owned : Owned locks system) (i : ι) :
    Owned locks (act expires locks system (.unLock i)) := by
  cases has : system.hasLock i with
  | false =>
    rw [unLock_unheld system i has]
    exact owned
  | true =>
    rw [unLock_held system i has]
    intro j still key inside
    rcases eq_or_ne j i with rfl | other
    · simp at still
    · have owns := owned j (by simpa [other] using still) key inside
      have outside : key ∉ (locks i).keys := fun member => by
        have wrote := (owned i has key member).1
        rw [owns.1] at wrote
        exact other (Option.some.inj wrote)
      refine ⟨owns.1,?_⟩
      dsimp only
      rw [deleteIfEqual_store,if_neg fun found => outside found.1]
      exact owns.2

theorem Owned.act {system : System ι} (owned : Owned locks system) (call : Call ι) :
    Owned locks (act expires locks system call) := by
  cases call with
  | tryLock i => exact owned.attempt i
  | lock i => exact owned.attempt i
  | interrupt i =>
    simp only [System.act]
    split
    · exact owned.drop i
    · exact owned
  | unLock i => exact owned.unLock i

theorem Believed.attempt {i : ι} {system : System ι} (believed : Believed expires locks i system) (j : ι)
    (undisturbed : system.acquired i = true → j ≠ i) :
    Believed expires locks i (attempt expires locks system j).2 := by
  rcases attempt_cases expires locks system j with ⟨⟨some,timed,_⟩,eq⟩ | ⟨_,eq⟩ | ⟨_,eq⟩
  · rw [eq]
    intro acquired
    rcases eq_or_ne i j with rfl | other
    · exact ⟨by simp,some,timed⟩
    · simpa [other] using believed (by simpa [other] using acquired)
  · rw [eq]
    intro acquired
    simpa [(undisturbed acquired).symm] using believed acquired
  · rw [eq]
    exact believed

theorem Believed.act {i : ι} {system : System ι} (believed : Believed expires locks i system)
    (call : Call ι) (undisturbed : Undisturbed i system call) :
    Believed expires locks i (act expires locks system call) := by
  cases call with
  | tryLock j => exact believed.attempt j undisturbed
  | lock j => exact believed.attempt j undisturbed
  | interrupt j =>
    simp only [System.act]
    split
    next asleep =>
      intro acquired
      have other : i ≠ j := by
        intro same
        subst same
        simp [undisturbed acquired rfl] at asleep
      simpa [other] using believed acquired
    next => exact believed
  | unLock j =>
    intro acquired
    rcases eq_or_ne i j with rfl | other
    · simp [System.act] at acquired
    · simpa [System.act,other] using believed (by simpa [System.act,other] using acquired)

theorem Owned.releasable {i : ι} {system : System ι} (owned : Owned locks system)
    (believed : Believed expires locks i system) : Releasable expires locks i system := by
  intro acquired key inside
  have has := (believed acquired).1
  rw [unLock_held system i has]
  exact (deleteIfEqual_store _ _ _ key).trans (if_pos ⟨inside,(owned i has key inside).2⟩)

theorem not_releasable {i : ι} {system : System ι} (acquired : system.acquired i = true)
    (lost : system.hasLock i = false) {key : String} (inside : key ∈ (locks i).keys)
    (present : (system.store key).isSome) : ¬ Releasable expires locks i system := by
  intro releasable
  have gone : system.store key = none := by
    simpa only [unLock_unheld system i lost] using releasable acquired key inside
  simp [gone] at present

theorem Owned.attempt_lost {i : ι} {system : System ι} (owned : Owned locks system)
    (has : system.hasLock i = true) (some : (locks i).keys ≠ []) (timed : Lasting expires (locks i).timeout) :
    (System.attempt expires locks system i).2 =
      {system with hasLock := Function.update system.hasLock i false} := by
  rcases attempt_cases expires locks system i with ⟨⟨_,_,free⟩,_⟩ | ⟨_,eq⟩ | ⟨empty | untimed,_⟩
  · obtain ⟨key,inside⟩ := List.exists_mem_of_ne_nil _ some
    simpa [free.2 key inside] using (owned i has key inside).2
  · exact eq
  · exact absurd empty some
  · exact absurd timed untimed

private theorem releasable_iff (i : ι) (system : System ι) (call : Call ι)
    (kept : Owned locks system ∧ Believed expires locks i system) :
    Releasable expires locks i (act expires locks system call) ↔ Undisturbed i system call := by
  obtain ⟨owned,believed⟩ := kept
  constructor
  · intro releasable acquired
    obtain ⟨has,some,timed⟩ := believed acquired
    obtain ⟨key,inside⟩ := List.exists_mem_of_ne_nil _ some
    have present : (system.store key).isSome := by
      simpa using congrArg Option.isSome (owned i has key inside).2
    have forgotten := owned.attempt_lost has some timed
    cases call with
    | tryLock j =>
      intro same
      subst same
      rw [System.act,forgotten] at releasable
      apply not_releasable ?_ ?_ inside ?_ releasable
      · exact acquired
      · simp
      · exact present
    | lock j =>
      intro same
      subst same
      apply not_releasable ?_ ?_ inside ?_ releasable
      · simpa [System.act,forgotten] using acquired
      · simp [System.act,forgotten]
      · simpa [System.act,forgotten] using present
    | interrupt j =>
      intro same
      subst same
      by_contra awake
      have asleep : system.sleeping j = true := eq_true_of_ne_false awake
      rw [System.act,if_pos asleep] at releasable
      apply not_releasable ?_ ?_ inside ?_ releasable
      · exact acquired
      · simp
      · exact present
    | unLock j => trivial
  · exact fun undisturbed => (owned.act call).releasable (believed.act call undisturbed)

/-- In runs without expiry the acquired keys can always be released exactly when
no attempt or interrupt of the instance comes between acquisition and release. -/
theorem run_releasable_iff (i : ι) (store : Keyspace) (calls : List (Call ι)) :
    (∀ before, before <+: calls →
      Releasable expires locks i (final (act expires locks) {store := store} before)) ↔
      Along (act expires locks) (Undisturbed i) {store := store} calls := by
  apply (along_reached _ calls (by simp [Releasable])).symm.trans
  exact along_iff (releasable_iff i)
    (fun system call kept undisturbed => ⟨kept.1.act call,kept.2.act call undisturbed⟩)
    _ calls ⟨by simp [Owned],by simp [Believed]⟩

theorem repeated_tryLock_sticks : ¬ ∀ before,
    before <+: [Call.tryLock (),.tryLock ()] →
      Releasable (fun _ => true) (fun _ => RedisLock.ofKey "order" 1530000000000) ()
        (final (act (fun _ => true) fun _ => RedisLock.ofKey "order" 1530000000000)
          {store := fun _ => none} before) := by
  intro each
  have left := each _ (List.prefix_refl _) (by decide) "order" (List.mem_singleton.mpr rfl)
  revert left
  decide

end System
end YzFramework.Redis
