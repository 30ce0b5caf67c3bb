import Mathlib.Algebra.BigOperators.Group.Finset.Basic
import Mathlib.Algebra.Order.BigOperators.Group.Finset
import Mathlib.Logic.Function.Basic
import Mathlib.Data.List.Basic
import Mathlib.Data.List.Nodup

/-! Key-value stores as partial functions, written and deleted by lists of keys, and parties
with a stage each, and what the stages add up to. -/
namespace YzFramework.Library

abbrev Store (Key Value : Type*) := Key → Option Value

namespace Store

variable {Key Value : Type*} [DecidableEq Key]

def put (store : Store Key Value) (key : Key) (value : Value) : Store Key Value :=
  Function.update store key (some value)

def delete (store : Store Key Value) (key : Key) : Store Key Value :=
  Function.update store key none

def putAll (store : Store Key Value) (keys : List Key) (value : Value) : Store Key Value :=
  fun key => if key ∈ keys then some value else store key

def deleteAll (store : Store Key Value) (keys : List Key) : Store Key Value := keys.foldl delete store

theorem delete_put (store : Store Key Value) (key : Key) (value : Value)
    (absent : store key = none) : delete (put store key value) key = store := by
  rw [delete,put,Function.update_idem,← absent,Function.update_eq_self]

theorem put_apply (store : Store Key Value) (key other : Key) (value : Value) :
    put store key value other = if other = key then some value else store other := by
  rw [put,Function.update_apply]

theorem put_eq_self_iff {store : Store Key Value} {key : Key} {value : Value} :
    put store key value = store ↔ store key = some value := by
  constructor
  · intro same
    rw [← same,put_apply,if_pos rfl]
  · intro held
    rw [put,← held,Function.update_eq_self]

theorem delete_apply (store : Store Key Value) (key other : Key) :
    delete store key other = if other = key then none else store other := by
  rw [delete,Function.update_apply]

theorem deleteAll_apply (store : Store Key Value) (keys : List Key) (key : Key) :
    deleteAll store keys key = if key ∈ keys then none else store key := by
  unfold deleteAll
  induction keys generalizing store with
  | nil => rfl
  | cons first rest ih =>
    rw [List.foldl_cons,ih,delete_apply]
    by_cases inside : key ∈ rest <;> by_cases same : key = first <;> simp [inside,same]

theorem putAll_nil (store : Store Key Value) (value : Value) : putAll store [] value = store := by
  funext key
  simp [putAll]

theorem putAll_put (store : Store Key Value) (key : Key) (rest : List Key) (value : Value) :
    putAll (put store key value) rest value = putAll store (key::rest) value := by
  funext other
  by_cases same : other = key <;> by_cases inside : other ∈ rest <;>
    simp [putAll,put_apply,same,inside]

inductive Guard
  | always
  | absent
  | present
deriving DecidableEq

def Guard.admits : Guard → Option Value → Bool
  | .always,_ => true
  | .absent,held => held.isNone
  | .present,held => held.isSome

def write (guard : Guard) (store : Store Key Value) (key : Key) (value : Value) : Store Key Value :=
  if guard.admits (store key) then put store key value else store

def writeAll (guard : Guard) (entries : List (Key × Value)) (store : Store Key Value) :
    Store Key Value := entries.foldl (fun store entry => write guard store entry.1 entry.2) store

/-- The value that stays: the first if the key must be absent, else the last. -/
def deciding : Guard → List (Key × Value) → Key → Option Value
  | .absent,entries,key => entries.lookup key
  | _,entries,key => entries.reverse.lookup key

theorem deciding_cons_other (guard : Guard) {first : Key × Value} (rest : List (Key × Value))
    {key : Key} (other : key ≠ first.1) : deciding guard (first::rest) key = deciding guard rest key := by
  obtain ⟨name,value⟩ := first
  have apart : (key == name) = false := beq_eq_false_iff_ne.mpr other
  cases guard <;> simp [deciding,List.lookup_append,List.lookup_cons,apart]

theorem deciding_map {Other : Type*} (guard : Guard) (f : Value → Other) (entries : List (Key × Value))
    (key : Key) : deciding guard (entries.map fun entry => (entry.1,f entry.2)) key =
      (deciding guard entries key).map f := by
  have mapped : ∀ entries : List (Key × Value),
      (entries.map fun entry => (entry.1,f entry.2)).lookup key = (entries.lookup key).map f := by
    intro entries
    induction entries with
    | nil => rfl
    | cons first rest ih =>
      rw [List.map_cons,List.lookup_cons,List.lookup_cons,ih]
      split <;> rfl
  cases guard <;> simp only [deciding,← List.map_reverse,mapped]

theorem deciding_mem {guard : Guard} {entries : List (Key × Value)} {key : Key} {value : Value}
    (decided : deciding guard entries key = some value) : (key,value) ∈ entries := by
  have found : ∀ {entries : List (Key × Value)}, entries.lookup key = some value →
      (key,value) ∈ entries := by
    intro entries given
    obtain ⟨before,after,rfl,_⟩ := List.lookup_eq_some_iff.mp given
    exact List.mem_append_right _ List.mem_cons_self
  cases guard with
  | absent => exact found decided
  | always => exact List.mem_reverse.mp (found decided)
  | present => exact List.mem_reverse.mp (found decided)

theorem deciding_isSome (guard : Guard) (entries : List (Key × Value)) (key : Key) :
    (deciding guard entries key).isSome = true ↔ ∃ entry ∈ entries, key = entry.1 := by
  cases guard <;> simp [deciding]

theorem writeAll_apply (guard : Guard) (entries : List (Key × Value)) (store : Store Key Value)
    (key : Key) : writeAll guard entries store key =
      if guard.admits (store key) then (deciding guard entries key).or (store key) else store key := by
  induction entries generalizing store with
  | nil => cases guard <;> simp [writeAll,deciding]
  | cons first rest ih =>
    obtain ⟨name,value⟩ := first
    have step : writeAll guard ((name,value)::rest) store =
      writeAll guard rest (write guard store name value) := rfl
    rw [step,ih]
    by_cases same : key = name
    · subst same
      cases admitted : guard.admits (store key) with
      | false => simp [write,admitted]
      | true =>
        rw [write,if_pos admitted,put_apply,if_pos rfl,if_pos rfl]
        cases guard <;> simp [deciding,Guard.admits,List.lookup_append] at admitted ⊢
    · have kept : write guard store name value key = store key := by
        unfold write
        split
        · rw [put_apply,if_neg same]
        · rfl
      rw [kept,deciding_cons_other guard rest same]

theorem writeAll_eq_self_iff {guard : Guard} {entries : List (Key × Value)} {store : Store Key Value} :
    writeAll guard entries store = store ↔ ∀ key value, guard.admits (store key) = true →
      deciding guard entries key = some value → store key = some value := by
  constructor
  · intro same key value admitted stays
    have here := congrFun same key
    rw [writeAll_apply,if_pos admitted,stays] at here
    exact here.symm
  · intro there
    funext key
    rw [writeAll_apply]
    split
    next admitted =>
      cases stays : deciding guard entries key with
      | none => rfl
      | some value => exact (there key value admitted stays).symm
    next => rfl

theorem writeAll_present {entries : List (Key × Value)} {store : Store Key Value}
    (held : ∀ entry ∈ entries, store entry.1 ≠ none) :
    writeAll .present entries store = writeAll .always entries store := by
  funext key
  rw [writeAll_apply,writeAll_apply]
  cases here : store key with
  | some value => rfl
  | none =>
    have outside : deciding .always entries key = none := by
      apply Option.not_isSome_iff_eq_none.mp
      intro some
      obtain ⟨entry,listed,rfl⟩ := (deciding_isSome _ _ _).mp some
      exact held entry listed here
    simp [Guard.admits,outside]

variable {Owner : Type*} [DecidableEq Owner]

def putAt (stores : Owner → Store Key Value) (owner : Owner) (key : Key) (value : Value) :
    Owner → Store Key Value := Function.update stores owner (put (stores owner) key value)

def deleteAt (stores : Owner → Store Key Value) (owner : Owner) (key : Key) :
    Owner → Store Key Value := Function.update stores owner (delete (stores owner) key)

theorem putAt_apply (stores : Owner → Store Key Value) (owner other : Owner) (key place : Key)
    (value : Value) : putAt stores owner key value other place =
      if other = owner ∧ place = key then some value else stores other place := by
  by_cases same : other = owner
  · subst same
    simp [putAt,put_apply]
  · simp [putAt,same]

theorem deleteAt_apply (stores : Owner → Store Key Value) (owner other : Owner) (key place : Key) :
    deleteAt stores owner key other place =
      if other = owner ∧ place = key then none else stores other place := by
  by_cases same : other = owner
  · subst same
    simp [deleteAt,delete_apply]
  · simp [deleteAt,same]

def Free (store : Store Key Value) (keys : List Key) : Prop :=
  keys.Nodup ∧ ∀ key ∈ keys, store key = none

instance (store : Store Key Value) (keys : List Key) : Decidable (Free store keys) :=
  have : DecidablePred fun key => store key = none := fun key =>
    decidable_of_iff (store key).isNone (by simp)
  inferInstanceAs (Decidable (_ ∧ _))

theorem free_cons_put (store : Store Key Value) (key : Key) (rest : List Key) (value : Value)
    (absent : store key = none) : Free (put store key value) rest ↔ Free store (key::rest) := by
  simp only [Free,List.nodup_cons,List.forall_mem_cons,absent,true_and]
  constructor
  · intro both
    obtain ⟨distinct,missing⟩ := both
    have outside : key ∉ rest := fun inside => by simpa [put_apply] using missing key inside
    refine ⟨⟨outside,distinct⟩,fun other inside => ?_⟩
    have different : other ≠ key := fun same => outside (same ▸ inside)
    simpa [put_apply,different] using missing other inside
  · intro both
    obtain ⟨⟨outside,distinct⟩,missing⟩ := both
    refine ⟨distinct,fun other inside => ?_⟩
    have different : other ≠ key := fun same => outside (same ▸ inside)
    simpa [put_apply,different] using missing other inside

end Store
end YzFramework.Library

namespace YzFramework.Library.Parties

variable {Party Stage : Type*} [DecidableEq Party] [Fintype Party]

/-- The new stage of one party replaces its old one in every sum over the parties. -/
theorem sum_update (stages : Party → Stage) (party : Party) (stage : Stage) (amount : Stage → ℕ) :
    ∑ place, amount (Function.update stages party stage place)+amount (stages party) =
      ∑ place, amount (stages place)+amount stage := by
  have others : ∑ place ∈ Finset.univ.erase party, amount (Function.update stages party stage place) =
      ∑ place ∈ Finset.univ.erase party, amount (stages place) := by
    apply Finset.sum_congr rfl
    intro place inside
    rw [Function.update_of_ne (Finset.ne_of_mem_erase inside)]
  rw [← Finset.add_sum_erase _ _ (Finset.mem_univ party),← Finset.add_sum_erase _ (fun place =>
    amount (stages place)) (Finset.mem_univ party),others,Function.update_self]
  omega

end YzFramework.Library.Parties
