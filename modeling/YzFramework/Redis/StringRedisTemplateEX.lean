import YzFramework.Library.Store
import Mathlib.Algebra.Order.Ring.Int

/-! The Redis scripts behind `setIfAbsent` and `deleteIfEqual`.
A script runs atomically; when a `redis.call` raises an error, what the script did
before stays in the store. Expiry is not a script and happens elsewhere. -/
namespace YzFramework.Redis
open Library Library.Store

/-- A string value and the time to live in milliseconds it was last given. -/
structure Entry where
  value : String
  px : Option ℤ := none
deriving DecidableEq

abbrev Keyspace := Store String Entry

abbrev Outcome (Reply : Type) := Except String Reply × Keyspace

-- which times to live in milliseconds are not too long differs between versions of Redis
variable (expires : ℤ → Bool)

/-- The times to live that `SET` takes: positive, of 64 bits and not too long. -/
def Lasting (px : ℤ) : Prop := 0 < px ∧ px < 2^63 ∧ expires px = true

instance (px : ℤ) : Decidable (Lasting expires px) := inferInstanceAs (Decidable (_ ∧ _))

def setPxNx (store : Keyspace) (key value : String) (px : ℤ) : Outcome Bool :=
  if px < -2^63 ∨ 2^63 ≤ px then (.error "ERR value is not an integer or out of range",store)
  else if px ≤ 0 ∨ expires px = false then (.error "ERR invalid expire time in 'set' command",store)
  else if (store key).isSome then (.ok false,store)
  else (.ok true,put store key ⟨value,some px⟩)

/-- The loop of multi_set_if_absent.lua; `done` are the keys set so far, last first. -/
def multiSetLoop (value : String) (px : ℤ) :
    List String → List String → Keyspace → Outcome (Option String)
  | _,[],store => (.ok none,store)
  | done,key::rest,store =>
    match setPxNx expires store key value px with
    | (.error fault,store) => (.error fault,store)
    | (.ok false,store) => (.ok none,deleteAll store done)
    | (.ok true,store) =>
      if rest = [] then (.ok (some "OK"),store) else multiSetLoop value px (key::done) rest store

def multiSetIfAbsent (keys : List String) (value : String) (px : ℤ) (store : Keyspace) :
    Outcome (Option String) := multiSetLoop expires value px [] keys store

/-- `SET_IF_ABSENT_SCRIPT`; without a first key the call is refused by Redis. -/
def setIfAbsentScript (keys : List String) (value : String) (px : ℤ) (store : Keyspace) :
    Outcome (Option String) :=
  match keys with
  | [] => (.error "Lua redis() command arguments must be strings or integers",store)
  | key::_ =>
    match setPxNx expires store key value px with
    | (.error fault,store) => (.error fault,store)
    | (.ok set,store) => (.ok (if set then some "OK" else none),store)

def setIfAbsent (keys : List String) (value : String) (timeOut : ℤ) (store : Keyspace) :
    Outcome Bool :=
  let (reply,store) :=
    if keys.length > 1 then multiSetIfAbsent expires keys value timeOut store
    else setIfAbsentScript expires keys value timeOut store
  (reply.map fun result => result == some "OK",store)

/-- `setIfAbsent` on one key; the time to live is a number here. -/
def setIfAbsentKey (key value : String) (timeOut : ℤ) (store : Keyspace) : Outcome Bool :=
  setIfAbsent expires [key] value timeOut store

/-- A call that sets all keys, or none and leaves the store as it was. -/
structure AllOrNothing {Reply : Type} (success : Reply) (keys : List String) (value : String)
    (timeOut : ℤ) (store : Keyspace) (outcome : Outcome Reply) : Prop where
  reports : outcome.1 = .ok success ↔
    Lasting expires timeOut ∧ keys ≠ [] ∧ keys.Nodup ∧ ∀ key ∈ keys, store key = none
  sets : outcome.1 = .ok success → ∀ key,
    outcome.2 key = if key ∈ keys then some ⟨value,some timeOut⟩ else store key
  keeps : outcome.1 ≠ .ok success → outcome.2 = store

def deleteEqual (expected : String) (store : Keyspace) (key : String) : Keyspace :=
  if (store key).map Entry.value = some expected then delete store key else store

/-- multi_del_if_equal.lua. -/
def multiDelIfEqual (keys : List String) (expected : String) (store : Keyspace) :
    Outcome (Option String) := (.ok (some "OK"),keys.foldl (deleteEqual expected) store)

def deleteIfEqualScript (key expected : String) (store : Keyspace) : Outcome (Option String) :=
  if (store key).map Entry.value = some expected then (.ok (some "OK"),delete store key)
  else (.ok (some "FALSE"),store)

def deleteIfEqual (keys : List String) (expected : String) (store : Keyspace) : Outcome Bool :=
  let (reply,store) :=
    match keys with
    | [key] => deleteIfEqualScript key expected store
    | _ => multiDelIfEqual keys expected store
  (reply.map fun result => result == some "OK",store)

section SetIfAbsent
variable {expires}

theorem setPxNx_sets {px : ℤ} (lasting : Lasting expires px) (store : Keyspace) (key value : String) :
    setPxNx expires store key value px =
      if (store key).isSome then (.ok false,store) else (.ok true,put store key ⟨value,some px⟩) := by
  obtain ⟨positive,small,taken⟩ := lasting
  have inRange : ¬ (px < -2^63 ∨ 2^63 ≤ px) := by omega
  have fit : ¬ (px ≤ 0 ∨ expires px = false) := by simp [not_le.mpr positive,taken]
  rw [setPxNx,if_neg inRange,if_neg fit]

theorem setPxNx_fails {px : ℤ} (unfit : ¬ Lasting expires px) :
    ∃ fault, ∀ store key value, setPxNx expires store key value px = (.error fault,store) := by
  by_cases outside : px < -2^63 ∨ 2^63 ≤ px
  · exact ⟨_,fun store key value => if_pos outside⟩
  · have refused : px ≤ 0 ∨ expires px = false := by
      rw [Lasting,not_and_or,not_and_or,Bool.not_eq_true] at unfit
      rcases unfit with negative | large | long
      · exact .inl (not_lt.mp negative)
      · exact absurd (.inr (not_lt.mp large)) outside
      · exact .inr long
    exact ⟨_,fun store key value => (if_neg outside).trans (if_pos refused)⟩

theorem multiSetLoop_spec (value : String) {px : ℤ} (lasting : Lasting expires px)
    (done keys : List String) (nonempty : keys ≠ []) (store : Keyspace) :
    multiSetLoop expires value px done keys store =
      if Free store keys then (.ok (some "OK"),putAll store keys ⟨value,some px⟩)
      else (.ok none,deleteAll store done) := by
  induction keys generalizing done store with
  | nil => contradiction
  | cons key rest ih =>
    have sets := setPxNx_sets lasting store key value
    cases present : store key with
    | some entry =>
      have taken : ¬ Free store (key::rest) := fun free => by
        simpa [present] using free.2 key (by simp)
      rw [present,Option.isSome_some,if_pos rfl] at sets
      rw [multiSetLoop,sets,if_neg taken]
    | none =>
      rw [present,Option.isSome_none,if_neg Bool.false_ne_true] at sets
      by_cases last : rest = []
      · subst last
        have free : Free store [key] := by simp [Free,present]
        have once := putAll_put store key [] (⟨value,some px⟩ : Entry)
        rw [putAll_nil] at once
        simp only [multiSetLoop,sets,if_true,free,once]
      · have step : multiSetLoop expires value px done (key::rest) store =
            multiSetLoop expires value px (key::done) rest (put store key ⟨value,some px⟩) := by
          simp only [multiSetLoop,sets,if_neg last]
        have undone : deleteAll (put store key ⟨value,some px⟩) (key::done) = deleteAll store done := by
          simp only [deleteAll,List.foldl_cons,delete_put store key _ present]
        rw [step,ih (key::done) last]
        simp only [free_cons_put store key rest _ present,putAll_put,undone]

private theorem allOrNothing_of_set {Reply : Type} {success : Reply} {keys : List String} {value : String}
    {timeOut : ℤ} {store : Keyspace} {outcome : Outcome Reply} (lasting : Lasting expires timeOut)
    (nonempty : keys ≠ []) (free : Free store keys)
    (ran : outcome = (.ok success,putAll store keys ⟨value,some timeOut⟩)) :
    AllOrNothing expires success keys value timeOut store outcome := by
  subst ran
  exact ⟨iff_of_true rfl ⟨lasting,nonempty,free⟩,fun _ _ => rfl,fun refused => absurd rfl refused⟩

theorem allOrNothing_of_kept {Reply : Type} {success : Reply} {keys : List String} {value : String}
    {timeOut : ℤ} {store : Keyspace} {outcome : Outcome Reply} {answer : Except String Reply}
    (unset : ¬ (Lasting expires timeOut ∧ keys ≠ [] ∧ Free store keys))
    (refused : answer ≠ .ok success) (ran : outcome = (answer,store)) :
    AllOrNothing expires success keys value timeOut store outcome := by
  subst ran
  exact ⟨iff_of_false refused unset,fun set => absurd set refused,fun _ => rfl⟩

theorem multiSetIfAbsent_all (keys : List String) (value : String) (timeOut : ℤ) (store : Keyspace) :
    AllOrNothing expires (some "OK") keys value timeOut store
      (multiSetIfAbsent expires keys value timeOut store) := by
  cases keys with
  | nil => exact allOrNothing_of_kept (fun all => all.2.1 rfl) (by simp) rfl
  | cons key rest =>
    by_cases lasting : Lasting expires timeOut
    · have looped := multiSetLoop_spec value lasting [] (key::rest) (by simp) store
      by_cases free : Free store (key::rest)
      · rw [if_pos free] at looped
        exact allOrNothing_of_set lasting (by simp) free looped
      · rw [if_neg free] at looped
        exact allOrNothing_of_kept (fun all => free all.2.2) (by simp) looped
    · obtain ⟨fault,fails⟩ := setPxNx_fails lasting
      have ran : multiSetIfAbsent expires (key::rest) value timeOut store = (.error fault,store) := by
        rw [multiSetIfAbsent,multiSetLoop,fails]
      exact allOrNothing_of_kept (fun all => lasting all.1) (by simp) ran

theorem multiSetIfAbsent_singleton (key value : String) (timeOut : ℤ) (store : Keyspace) :
    multiSetIfAbsent expires [key] value timeOut store =
      setIfAbsentScript expires [key] value timeOut store := by
  rw [multiSetIfAbsent,multiSetLoop,setIfAbsentScript]
  rcases setPxNx expires store key value timeOut with ⟨fault | set,after⟩
  · rfl
  · cases set with
    | false => rfl
    | true => rfl

theorem setIfAbsent_spec (keys : List String) (value : String) (timeOut : ℤ) (store : Keyspace) :
    (keys ≠ [] ∧ Lasting expires timeOut ∧ Free store keys ∧
      setIfAbsent expires keys value timeOut store =
        (.ok true,putAll store keys ⟨value,some timeOut⟩)) ∨
    (keys ≠ [] ∧ Lasting expires timeOut ∧ ¬ Free store keys ∧
      setIfAbsent expires keys value timeOut store = (.ok false,store)) ∨
    ((keys = [] ∨ ¬ Lasting expires timeOut) ∧
      ∃ fault, setIfAbsent expires keys value timeOut store = (.error fault,store)) := by
  cases keys with
  | nil => exact .inr (.inr ⟨.inl rfl,_,rfl⟩)
  | cons key rest =>
    -- either script is the loop here
    have looped : setIfAbsent expires (key::rest) value timeOut store =
        ((multiSetLoop expires value timeOut [] (key::rest) store).1.map fun result =>
          result == some "OK",(multiSetLoop expires value timeOut [] (key::rest) store).2) := by
      unfold setIfAbsent
      cases rest with
      | nil =>
        rw [if_neg (by simp),← multiSetIfAbsent_singleton]
        rfl
      | cons second rest =>
        rw [if_pos (by simp)]
        rfl
    rw [looped]
    by_cases lasting : Lasting expires timeOut
    · rw [multiSetLoop_spec value lasting [] (key::rest) (by simp) store]
      by_cases free : Free store (key::rest)
      · rw [if_pos free]
        exact .inl ⟨by simp,lasting,free,rfl⟩
      · rw [if_neg free]
        exact .inr (.inl ⟨by simp,lasting,free,rfl⟩)
    · obtain ⟨fault,fails⟩ := setPxNx_fails lasting
      refine .inr (.inr ⟨.inr lasting,fault,?_⟩)
      rw [multiSetLoop,fails]
      rfl

theorem setIfAbsent_all (keys : List String) (value : String) (timeOut : ℤ) (store : Keyspace) :
    AllOrNothing expires true keys value timeOut store
      (setIfAbsent expires keys value timeOut store) := by
  rcases setIfAbsent_spec keys value timeOut store with
    ⟨nonempty,lasting,free,ran⟩ | ⟨_,_,taken,ran⟩ | ⟨unfit,fault,ran⟩
  · exact allOrNothing_of_set lasting nonempty free ran
  · exact allOrNothing_of_kept (fun all => taken all.2.2) (by simp) ran
  · refine allOrNothing_of_kept (fun all => ?_) (by simp) ran
    rcases unfit with empty | brief
    · exact all.2.1 empty
    · exact brief all.1

end SetIfAbsent

/-- The script and the call are all or nothing for every list and time to live. The
script itself serves one-element lists like the single-key call. -/
theorem setIfAbsent_all_or_nothing (keys : List String) (value : String) (timeOut : ℤ)
    (store : Keyspace) :
    AllOrNothing expires true keys value timeOut store
      (setIfAbsent expires keys value timeOut store) ∧
    AllOrNothing expires (some "OK") keys value timeOut store
      (multiSetIfAbsent expires keys value timeOut store) ∧
    ∀ key, keys = [key] →
      setIfAbsentKey expires key value timeOut store = setIfAbsent expires keys value timeOut store ∧
      setIfAbsentScript expires keys value timeOut store =
        multiSetIfAbsent expires keys value timeOut store := by
  refine ⟨setIfAbsent_all keys value timeOut store,multiSetIfAbsent_all keys value timeOut store,?_⟩
  intro key single
  subst single
  exact ⟨rfl,(multiSetIfAbsent_singleton key value timeOut store).symm⟩

/-- A time to live beyond 64 bits is refused on a free key, however long a deadline may be. -/
theorem long_timeOut_refused :
    ¬ ((setIfAbsent (fun _ => true) ["order"] "owner" (2^63) fun _ => none).1 = .ok true ↔
      ["order"] ≠ [] ∧ ["order"].Nodup ∧ ∀ key ∈ ["order"], (fun _ => none : Keyspace) key = none) := by
  intro reports
  have set := reports.mpr ⟨by simp,by simp,fun _ _ => rfl⟩
  revert set
  decide

private theorem foldl_deleteEqual (keys : List String) (expected : String) (store : Keyspace) (key : String) :
    keys.foldl (deleteEqual expected) store key =
      if key ∈ keys ∧ (store key).map Entry.value = some expected then none else store key := by
  induction keys generalizing store with
  | nil => simp
  | cons first rest ih =>
    rw [List.foldl_cons,ih]
    by_cases same : key = first
    · subst same
      by_cases equal : (store key).map Entry.value = some expected
      · simp [deleteEqual,equal,delete_apply]
      · simp [deleteEqual,equal]
    · have kept : deleteEqual expected store first key = store key := by
        unfold deleteEqual
        split
        · rw [delete_apply,if_neg same]
        · rfl
      simp [kept,same]

theorem deleteIfEqual_store (keys : List String) (expected : String) (store : Keyspace)
    (key : String) : (deleteIfEqual keys expected store).2 key =
      if key ∈ keys ∧ (store key).map Entry.value = some expected then none else store key := by
  rw [← foldl_deleteEqual]
  match keys with
  | [] => rfl
  | [only] =>
    simp only [deleteIfEqual,deleteIfEqualScript,List.foldl_cons,List.foldl_nil,deleteEqual]
    split <;> rfl
  | first::second::rest => rfl

theorem deleteIfEqual_ok (keys : List String) (expected : String) (store : Keyspace) :
    ∃ result, (deleteIfEqual keys expected store).1 = .ok result := by
  match keys with
  | [] => exact ⟨_,rfl⟩
  | [key] =>
    simp only [deleteIfEqual,deleteIfEqualScript]
    split <;> exact ⟨_,rfl⟩
  | first::second::rest => exact ⟨_,rfl⟩

end YzFramework.Redis
