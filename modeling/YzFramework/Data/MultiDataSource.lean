import YzFramework.Library.Run
import YzFramework.Library.Store
import Mathlib.Algebra.Order.Ring.Int
import Mathlib.Data.List.Perm.Basic

/-! `MultiDataSource`: target keys indexed by `setTargetDataSources` and picked by
a shared counter. The threads' steps on the counter are atomic one by one; the
index map does not change once it is configured. -/
namespace YzFramework.Data
open Library Library.Run

variable {Key : Type*}

structure MultiDataSource (Key : Type*) where
  maxIndex : ℤ := 0
  preIndex : BitVec 32 := 0
  indexedLookupKey : Store ℤ Key := fun _ => none

namespace MultiDataSource

def putFrom (index : ℤ) : List Key → Store ℤ Key → Store ℤ Key
  | [],indexed => indexed
  | key::rest,indexed => putFrom (index+1) rest (Store.put indexed index key)

def setTargetDataSources (keys : List Key) (source : MultiDataSource Key) : MultiDataSource Key :=
  {source with
    maxIndex := keys.length-1
    indexedLookupKey := putFrom 1 keys source.indexedLookupKey}

def fresh (keys : List Key) : MultiDataSource Key := setTargetDataSources keys {}

def determineCurrentLookupKey (source : MultiDataSource Key) : Option Key × MultiDataSource Key :=
  if source.maxIndex = 0 then (source.indexedLookupKey 0,source)
  else
    let i := source.preIndex
    if i.toInt > source.maxIndex then (source.indexedLookupKey 0,{source with preIndex := 0})
    else (source.indexedLookupKey i.toInt,{source with preIndex := i+1})

/-- One thread calling again and again: what the calls return, and the source after them. -/
def calls : ℕ → MultiDataSource Key → List (Option Key) × MultiDataSource Key
  | 0,source => ([],source)
  | count+1,source =>
    let (key,source) := determineCurrentLookupKey source
    let (keys,source) := calls count source
    (key::keys,source)

/-- Where a thread stands in `determineCurrentLookupKey`, with its `i`. -/
inductive Phase
  | outside
  | drawn (i : ℤ)
  | reading (i : ℤ)
deriving DecidableEq

structure Shared (Key Thread : Type*) where
  source : MultiDataSource Key
  phases : Thread → Phase := fun _ => .outside
  answers : List (Option Key) := []

variable {Thread : Type*} [DecidableEq Thread]

def moved (shared : Shared Key Thread) (thread : Thread) (phase : Phase) : Shared Key Thread :=
  {shared with phases := Function.update shared.phases thread phase}

def step (shared : Shared Key Thread) (thread : Thread) : Shared Key Thread :=
  match shared.phases thread with
  | .outside =>
    if shared.source.maxIndex = 0 then moved shared thread (.reading 0)
    else
      {moved shared thread (.drawn shared.source.preIndex.toInt) with
        source := {shared.source with preIndex := shared.source.preIndex+1}}
  | .drawn i =>
    if i > shared.source.maxIndex then
      {moved shared thread (.reading 0) with source := {shared.source with preIndex := 0}}
    else moved shared thread (.reading i)
  | .reading i =>
    {moved shared thread .outside with answers := shared.source.indexedLookupKey i::shared.answers}

def start (keys : List Key) : Shared Key Thread := {source := fresh keys}

/-- Every call returns a key of the configured map, in any interleaving. -/
def KeysOnly (Thread : Type*) [DecidableEq Thread] (keys : List Key) : Prop :=
  ∀ schedule : List Thread, ∀ answer ∈ (final step (start keys) schedule).answers,
    ∃ key ∈ keys, answer = some key

/-- After some earlier calls of one thread, as many calls as there are keys return
each of them once. -/
def EachOnce (keys : List Key) (earlier : ℕ) : Prop :=
  (calls keys.length (calls earlier (fresh keys)).2).1.Perm (keys.map some)

theorem putFrom_apply (index : ℤ) (keys : List Key) (indexed : Store ℤ Key) (i : ℤ) :
    putFrom index keys indexed i =
      if index ≤ i ∧ i < index+keys.length then keys[(i-index).toNat]? else indexed i := by
  induction keys generalizing index indexed with
  | nil => simp [putFrom]
  | cons key rest ih =>
    rw [putFrom,ih,Store.put_apply]
    by_cases here : i = index
    · subst here
      simp
    · by_cases inside : index+1 ≤ i ∧ i < index+1+rest.length
      · have place : (i-index).toNat = (i-(index+1)).toNat+1 := by omega
        have wider : index ≤ i ∧ i < index+(key::rest).length := by
          simp only [List.length_cons]
          omega
        rw [if_pos inside,if_pos wider,place,List.getElem?_cons_succ]
      · have outside : ¬ (index ≤ i ∧ i < index+(key::rest).length) := by
          simp only [List.length_cons]
          omega
        rw [if_neg inside,if_neg outside,if_neg here]

theorem fresh_lookup (keys : List Key) (i : ℤ) :
    (fresh keys).indexedLookupKey i = if 1 ≤ i then keys[(i-1).toNat]? else none := by
  change putFrom 1 keys (fun _ => none) i = _
  rw [putFrom_apply]
  split <;> split <;> try omega
  · rfl
  · rw [eq_comm,List.getElem?_eq_none_iff]
    omega
  · rfl

/-- The keys are indexed from 1 and looked up to `maxIndex`, one less than their number. -/
theorem lookup_within (keys : List Key) (i : ℤ) (within : i ≤ (fresh keys).maxIndex) (key : Key)
    (found : (fresh keys).indexedLookupKey i = some key) : key ∈ keys.dropLast := by
  rw [fresh_lookup] at found
  have bounded : i ≤ keys.length-1 := within
  split at found
  next positive =>
    have inside : (i-1).toNat < keys.dropLast.length := by
      rw [List.length_dropLast]
      omega
    rw [List.mem_iff_getElem]
    refine ⟨_,inside,?_⟩
    rw [List.getElem_dropLast]
    exact (List.getElem?_eq_some_iff.mp found).2
  next => contradiction

def Configured (keys : List Key) (source : MultiDataSource Key) : Prop :=
  source.maxIndex = (fresh keys).maxIndex ∧
    source.indexedLookupKey = (fresh keys).indexedLookupKey

private theorem determine_configured (keys : List Key) (source : MultiDataSource Key)
    (configured : Configured keys source) :
    Configured keys (determineCurrentLookupKey source).2 := by
  unfold determineCurrentLookupKey
  split
  · exact configured
  · dsimp only
    split <;> exact configured

private theorem determine_dropLast (keys : List Key) (nonempty : keys ≠ []) (source : MultiDataSource Key)
    (configured : Configured keys source) (key : Key)
    (returned : (determineCurrentLookupKey source).1 = some key) : key ∈ keys.dropLast := by
  obtain ⟨max,lookup⟩ := configured
  have bottom : 0 ≤ (fresh keys).maxIndex := by
    have := List.length_pos_of_ne_nil nonempty
    change (0 : ℤ) ≤ keys.length-1
    omega
  unfold determineCurrentLookupKey at returned
  rw [max,lookup] at returned
  split at returned
  · exact lookup_within keys 0 bottom key returned
  · dsimp only at returned
    split at returned
    next => exact lookup_within keys 0 bottom key returned
    next within => exact lookup_within keys _ (not_lt.mp within) key returned

theorem calls_configured (keys : List Key) (count : ℕ) (source : MultiDataSource Key)
    (configured : Configured keys source) : Configured keys (calls count source).2 := by
  induction count generalizing source with
  | zero => exact configured
  | succ count ih => exact ih _ (determine_configured keys source configured)

theorem calls_dropLast (keys : List Key) (nonempty : keys ≠ []) (count : ℕ)
    (source : MultiDataSource Key) (configured : Configured keys source) (key : Key)
    (returned : some key ∈ (calls count source).1) : key ∈ keys.dropLast := by
  induction count generalizing source with
  | zero => simp [calls] at returned
  | succ count ih =>
    rcases List.mem_cons.mp returned with here | later
    · exact determine_dropLast keys nonempty source configured key here.symm
    · exact ih _ (determine_configured keys source configured) later

private theorem alone_call (shared : Shared Key Thread) (thread : Thread)
    (outside : shared.phases thread = .outside) :
    ∃ count, final step shared (List.replicate count thread) =
      {shared with
        source := (determineCurrentLookupKey shared.source).2
        answers := (determineCurrentLookupKey shared.source).1::shared.answers} := by
  have back : Function.update shared.phases thread .outside = shared.phases := by
    rw [← outside,Function.update_eq_self]
  by_cases single : shared.source.maxIndex = 0
  · refine ⟨2,?_⟩
    simp [List.replicate,step,moved,outside,single,back,determineCurrentLookupKey]
  · refine ⟨3,?_⟩
    by_cases past : shared.source.preIndex.toInt > shared.source.maxIndex
    · simp [List.replicate,step,moved,outside,single,back,determineCurrentLookupKey,past]
    · simp [List.replicate,step,moved,outside,single,back,determineCurrentLookupKey,past]

private theorem first_call_misses (keys : List Key) : (determineCurrentLookupKey (fresh keys)).1 = none := by
  have nothing : (fresh keys).indexedLookupKey 0 = none := by rw [fresh_lookup]; rfl
  unfold determineCurrentLookupKey
  split
  · exact nothing
  · dsimp only
    split
    · exact nothing
    · exact nothing

private theorem not_keysOnly (keys : List Key) (thread : Thread) : ¬ KeysOnly Thread keys := by
  intro only
  obtain ⟨count,alone⟩ := alone_call (start keys : Shared Key Thread) thread rfl
  have missing : none ∈ (final step (start keys) (List.replicate count thread)).answers := by
    rw [alone]
    exact List.mem_cons.mpr (.inl (first_call_misses keys).symm)
  obtain ⟨key,_,found⟩ := only _ none missing
  contradiction

/-- The first call finds no key and the last key is never returned: neither part
of the lookup's contract holds for any map. -/
theorem lookup_never (keys : List Key) (positive : 1 ≤ keys.length) (distinct : keys.Nodup)
    (thread : Thread) : ¬ KeysOnly Thread keys ∧ ∀ earlier, ¬ EachOnce keys earlier := by
  refine ⟨not_keysOnly keys thread,fun earlier each => ?_⟩
  have nonempty : keys ≠ [] := List.ne_nil_of_length_pos positive
  have last : some (keys.getLast nonempty) ∈ keys.map some :=
    List.mem_map_of_mem (List.getLast_mem nonempty)
  have configured : Configured keys (calls earlier (fresh keys)).2 :=
    calls_configured keys earlier _ ⟨rfl,rfl⟩
  have early := calls_dropLast keys nonempty _ _ configured _ (each.mem_iff.mpr last)
  rw [← List.dropLast_append_getLast nonempty] at distinct
  exact (List.nodup_append.mp distinct).2.2 _ early _ (by simp) rfl

theorem lookup_never_two_sources :
    ¬ KeysOnly ℕ ["first","second"] ∧ ∀ earlier, ¬ EachOnce ["first","second"] earlier :=
  lookup_never ["first","second"] (by decide) (by decide) 0

theorem two_sources_miss : ¬ KeysOnly ℕ ["first","second"] :=
  not_keysOnly ["first","second"] 0

end MultiDataSource
end YzFramework.Data
