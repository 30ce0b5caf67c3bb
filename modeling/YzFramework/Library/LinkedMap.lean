import Mathlib.Data.List.Nodup
import Mathlib.Data.List.Infix

/-! Maps that remember the order in which their keys came. A key that is put again
keeps its place. -/
namespace YzFramework.Library

@[ext] structure LinkedMap (Key Value : Type*) where
  pairs : List (Key × Value)
  distinct : (pairs.map Prod.fst).Nodup
deriving DecidableEq

namespace LinkedMap

variable {Key Value : Type*}

def empty : LinkedMap Key Value := ⟨[],List.nodup_nil⟩

def single (key : Key) (value : Value) : LinkedMap Key Value := ⟨[(key,value)],List.nodup_singleton key⟩

def keys (map : LinkedMap Key Value) : List Key := map.pairs.map Prod.fst

def values (map : LinkedMap Key Value) : List Value := map.pairs.map Prod.snd

variable [DecidableEq Key]

def putPairs (key : Key) (value : Value) : List (Key × Value) → List (Key × Value)
  | [] => [(key,value)]
  | pair::rest => if pair.1 = key then (key,value)::rest else pair::putPairs key value rest

theorem keys_putPairs (key : Key) (value : Value) (pairs : List (Key × Value)) :
    (putPairs key value pairs).map Prod.fst =
      if key ∈ pairs.map Prod.fst then pairs.map Prod.fst else pairs.map Prod.fst ++ [key] := by
  induction pairs with
  | nil => rfl
  | cons pair rest ih =>
    by_cases same : pair.1 = key
    · simp [putPairs,same]
    · have apart : key ≠ pair.1 := fun other => same other.symm
      rw [putPairs,if_neg same,List.map_cons,List.map_cons,ih]
      by_cases later : key ∈ rest.map Prod.fst
      · rw [if_pos later,if_pos (List.mem_cons_of_mem _ later)]
      · rw [if_neg later,if_neg (fun inside => (List.mem_cons.mp inside).elim apart later),List.cons_append]

def put (map : LinkedMap Key Value) (key : Key) (value : Value) : LinkedMap Key Value where
  pairs := putPairs key value map.pairs
  distinct := by
    rw [keys_putPairs]
    split
    next => exact map.distinct
    next absent =>
      refine List.nodup_append.mpr ⟨map.distinct,List.nodup_singleton key,?_⟩
      rintro other inside _ last rfl
      exact absent (List.mem_singleton.mp last ▸ inside)

def get (map : LinkedMap Key Value) (key : Key) : Option Value := map.pairs.lookup key

def remove (map : LinkedMap Key Value) (key : Key) : LinkedMap Key Value where
  pairs := map.pairs.filter fun pair => pair.1 ≠ key
  distinct := map.distinct.sublist (List.filter_sublist.map Prod.fst)

def ofPairs (pairs : List (Key × Value)) : LinkedMap Key Value :=
  pairs.foldl (fun map pair => map.put pair.1 pair.2) empty

theorem mem_putPairs {key : Key} {value : Value} {pairs : List (Key × Value)} {pair : Key × Value}
    (inside : pair ∈ putPairs key value pairs) : pair = (key,value) ∨ pair ∈ pairs := by
  induction pairs with
  | nil => exact Or.inl (List.mem_singleton.mp inside)
  | cons first rest ih =>
    rw [putPairs] at inside
    split at inside
    next =>
      exact (List.mem_cons.mp inside).imp id (List.mem_cons_of_mem _)
    next =>
      rcases List.mem_cons.mp inside with rfl | later
      · exact Or.inr List.mem_cons_self
      · exact (ih later).imp id (List.mem_cons_of_mem _)

theorem lookup_pair (other : Key) (pair : Key × Value) (rest : List (Key × Value)) :
    (pair::rest).lookup other = if other = pair.1 then some pair.2 else rest.lookup other := by
  rw [List.lookup_cons]
  by_cases same : other = pair.1
  · simp [same]
  · rw [if_neg same,beq_eq_false_iff_ne.mpr same]

theorem lookup_putPairs (key other : Key) (value : Value) (pairs : List (Key × Value)) :
    (putPairs key value pairs).lookup other = if other = key then some value else pairs.lookup other := by
  induction pairs with
  | nil => exact lookup_pair other (key,value) []
  | cons pair rest ih =>
    rw [putPairs]
    by_cases same : pair.1 = key
    · rw [if_pos same,lookup_pair,lookup_pair,same]
      split <;> rfl
    · rw [if_neg same,lookup_pair,lookup_pair,ih]
      by_cases hit : other = key
      · rw [if_pos hit,if_neg fun also => same (also.symm.trans hit),if_pos hit]
      · rw [if_neg hit,if_neg hit]

theorem get_put (map : LinkedMap Key Value) (key other : Key) (value : Value) :
    (map.put key value).get other = if other = key then some value else map.get other :=
  lookup_putPairs key other value map.pairs

theorem lookup_filter (key other : Key) (pairs : List (Key × Value)) :
    (pairs.filter fun pair => pair.1 ≠ key).lookup other =
      if other = key then none else pairs.lookup other := by
  induction pairs with
  | nil => simp
  | cons pair rest ih =>
    rw [List.filter_cons]
    by_cases same : pair.1 = key
    · rw [if_neg (by simp [same]),ih,lookup_pair,same]
      split <;> rfl
    · rw [if_pos (by simp [same]),lookup_pair,lookup_pair,ih]
      by_cases hit : other = key
      · rw [if_pos hit,if_neg fun also => same (also.symm.trans hit),if_pos hit]
      · rw [if_neg hit,if_neg hit]

theorem get_remove (map : LinkedMap Key Value) (key other : Key) :
    (map.remove key).get other = if other = key then none else map.get other :=
  lookup_filter key other map.pairs

theorem put_fresh {map : LinkedMap Key Value} {key : Key} (absent : key ∉ map.keys) (value : Value) :
    (map.put key value).pairs = map.pairs ++ [(key,value)] := by
  have last (pairs : List (Key × Value)) (absent : key ∉ pairs.map Prod.fst) :
      putPairs key value pairs = pairs ++ [(key,value)] := by
    induction pairs with
    | nil => rfl
    | cons first others ih =>
      rw [List.map_cons,List.mem_cons,not_or] at absent
      rw [putPairs,if_neg fun same => absent.1 same.symm,ih absent.2,List.cons_append]
  exact last map.pairs absent

theorem keys_put (map : LinkedMap Key Value) (key : Key) (value : Value) :
    (map.put key value).keys = if key ∈ map.keys then map.keys else map.keys ++ [key] :=
  keys_putPairs key value map.pairs

/-- Putting pairs with new keys appends them in their order. -/
theorem foldl_put (pairs : List (Key × Value)) (map : LinkedMap Key Value)
    (fresh : (map.pairs ++ pairs).map Prod.fst |>.Nodup) :
    (pairs.foldl (fun map pair => map.put pair.1 pair.2) map).pairs = map.pairs ++ pairs := by
  induction pairs generalizing map with
  | nil => simp
  | cons pair rest ih =>
    have absent : pair.1 ∉ map.keys := by
      rw [List.map_append,List.nodup_append] at fresh
      exact fun inside => fresh.2.2 pair.1 inside pair.1 (by simp) rfl
    have put := put_fresh absent pair.2
    have shape : (map.put pair.1 pair.2).pairs ++ rest = map.pairs ++ pair::rest := by simp [put]
    rw [List.foldl_cons,ih _ (by rw [shape]; exact fresh),shape]

theorem ofPairs_pairs (map : LinkedMap Key Value) : ofPairs map.pairs = map :=
  LinkedMap.ext (foldl_put map.pairs empty map.distinct)

theorem mem_ofPairs {pairs : List (Key × Value)} {pair : Key × Value}
    (inside : pair ∈ (ofPairs pairs).pairs) : pair ∈ pairs := by
  have from_start : ∀ (pairs : List (Key × Value)) (map : LinkedMap Key Value),
      pair ∈ (pairs.foldl (fun map pair => map.put pair.1 pair.2) map).pairs →
        pair ∈ map.pairs ∨ pair ∈ pairs := by
    intro pairs
    induction pairs with
    | nil => exact fun map => Or.inl
    | cons first rest ih =>
      intro map held
      rcases ih _ held with before | later
      · rcases mem_putPairs before with rfl | old
        · exact Or.inr List.mem_cons_self
        · exact Or.inl old
      · exact Or.inr (List.mem_cons_of_mem _ later)
  exact (from_start pairs empty inside).elim (fun none => by cases none) id

end LinkedMap

end YzFramework.Library
