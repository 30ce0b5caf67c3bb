import Mathlib.Data.List.AList
import Mathlib.Data.List.Perm.Subperm

/-! Finite tables from keys to values with the bulk operations of a map. Later pairs
of a `putAll` win over earlier ones. -/
namespace YzFramework.Library

abbrev Table (Key Value : Type*) := AList fun _ : Key => Value

namespace Table

variable {Key Value : Type*} [DecidableEq Key]

def putAll (table : Table Key Value) (pairs : List (Key × Value)) : Table Key Value :=
  pairs.foldl (fun table pair => table.insert pair.1 pair.2) table

/-- The loop over a copy of the keys that removes the unwanted ones. -/
def removeWhere (table : Table Key Value) (unwanted : Key → Bool) : Table Key Value :=
  table.keys.foldl (fun table key => if unwanted key then table.erase key else table) table

def pairs (table : Table Key Value) : List (Key × Value) :=
  table.entries.map fun entry => (entry.1,entry.2)

def holds (table : Table Key Value) (test : Value → Bool) : Bool :=
  table.entries.any fun entry => test entry.2

def mapValues {Other : Type*} (f : Value → Other) (table : Table Key Value) : Table Key Other where
  entries := table.entries.map fun entry => ⟨entry.1,f entry.2⟩
  nodupKeys := by
    have keys := table.keys_nodup
    rwa [AList.keys,List.keys,show (Sigma.fst : (Sigma fun _ : Key => Value) → Key) =
      Sigma.fst ∘ fun entry : Sigma fun _ : Key => Value => (⟨entry.1,f entry.2⟩ : Sigma fun _ : Key => Other)
      from rfl,← List.map_map] at keys

omit [DecidableEq Key] in
theorem mem_mapValues {Other : Type*} (f : Value → Other) (table : Table Key Value) (key : Key) :
    key ∈ table.mapValues f ↔ key ∈ table := by
  have keys : (table.mapValues f).keys = table.keys := by
    rw [AList.keys,List.keys,mapValues,List.map_map]
    rfl
  rw [AList.mem_keys,AList.mem_keys,keys]

@[simp] theorem lookup_mapValues {Other : Type*} (f : Value → Other) (table : Table Key Value) (key : Key) :
    (table.mapValues f).lookup key = (table.lookup key).map f := by
  cases found : table.lookup key with
  | none =>
    rw [AList.lookup_eq_none,← mem_mapValues f,← AList.lookup_eq_none] at found
    exact found
  | some value =>
    exact AList.mem_lookup_iff.mpr (List.mem_map.mpr
      ⟨⟨key,value⟩,AList.mem_lookup_iff.mp found,rfl⟩)

omit [DecidableEq Key] in
theorem pairs_mapValues {Other : Type*} (f : Value → Other) (table : Table Key Value) :
    (table.mapValues f).pairs = table.pairs.map fun pair => (pair.1,f pair.2) := by
  rw [pairs,mapValues,pairs,List.map_map,List.map_map]
  rfl

theorem lookup_put (table : Table Key Value) (key other : Key) (value : Value) :
    (table.insert key value).lookup other =
      if other = key then some value else table.lookup other := by
  by_cases same : other = key
  · subst same
    simp
  · rw [AList.lookup_insert_ne same,if_neg same]

theorem lookup_remove (table : Table Key Value) (key other : Key) :
    (table.erase key).lookup other = if other = key then none else table.lookup other := by
  by_cases same : other = key
  · subst same
    simp
  · rw [AList.lookup_erase_ne same,if_neg same]

theorem lookup_foldl_remove (unwanted : Key → Bool) (keys : List Key) (table : Table Key Value)
    (key : Key) :
    (keys.foldl (fun table key => if unwanted key then table.erase key else table) table).lookup key =
      if key ∈ keys ∧ unwanted key = true then none else table.lookup key := by
  induction keys generalizing table with
  | nil => simp
  | cons first rest ih =>
    rw [List.foldl_cons,ih]
    by_cases same : key = first
    · subst same
      by_cases drop : unwanted key = true <;> simp [drop]
    · have kept : (if unwanted first then table.erase first else table).lookup key =
          table.lookup key := by
        split
        · rw [lookup_remove,if_neg same]
        · rfl
      simp [kept,same]

theorem lookup_removeWhere (table : Table Key Value) (unwanted : Key → Bool) (key : Key) :
    (removeWhere table unwanted).lookup key =
      if unwanted key = true then none else table.lookup key := by
  rw [removeWhere,lookup_foldl_remove]
  by_cases present : key ∈ table.keys
  · simp [present]
  · have absent : table.lookup key = none := AList.lookup_eq_none.mpr present
    simp [present,absent]

theorem lookup_putAll_outside (table : Table Key Value) (pairs : List (Key × Value)) (key : Key)
    (outside : ∀ pair ∈ pairs, pair.1 ≠ key) : (putAll table pairs).lookup key = table.lookup key := by
  induction pairs generalizing table with
  | nil => rfl
  | cons pair rest ih =>
    rw [List.forall_mem_cons] at outside
    change (putAll (table.insert pair.1 pair.2) rest).lookup key = _
    rw [ih _ outside.2,lookup_put,if_neg outside.1.symm]

theorem lookup_putAll_inside (table : Table Key Value) (pairs : List (Key × Value)) (key : Key)
    (inside : ∃ pair ∈ pairs, pair.1 = key) :
    ∃ pair ∈ pairs, pair.1 = key ∧ (putAll table pairs).lookup key = some pair.2 := by
  induction pairs generalizing table with
  | nil => simp at inside
  | cons pair rest ih =>
    by_cases later : ∃ other ∈ rest, other.1 = key
    · obtain ⟨other,member,same,found⟩ := ih (table.insert pair.1 pair.2) later
      exact ⟨other,List.mem_cons_of_mem _ member,same,found⟩
    · have outside : ∀ other ∈ rest, other.1 ≠ key := fun other member same =>
        later ⟨other,member,same⟩
      obtain ⟨first,member,same⟩ := inside
      rcases List.mem_cons.mp member with rfl | member
      · refine ⟨first,List.mem_cons_self,same,?_⟩
        change (putAll (table.insert first.1 first.2) rest).lookup key = _
        rw [lookup_putAll_outside _ rest key outside,lookup_put,if_pos same.symm]
      · exact absurd same (outside first member)

theorem lookup_putAll (table : Table Key Value) (pairs : List (Key × Value)) (key : Key) :
    (putAll table pairs).lookup key = (pairs.reverse.lookup key).or (table.lookup key) := by
  induction pairs generalizing table with
  | nil => rfl
  | cons pair rest ih =>
    obtain ⟨name,value⟩ := pair
    change (putAll (table.insert name value) rest).lookup key = _
    rw [ih,lookup_put,List.reverse_cons,List.lookup_append,Option.or_assoc]
    by_cases same : key = name
    · simp [same]
    · have apart : (key == name) = false := beq_eq_false_iff_ne.mpr same
      simp [List.lookup_cons,same,apart]

theorem lookup_putAll_same (table : Table Key Value) {pairs : List (Key × Value)}
    (same : ∀ pair, pair ∈ pairs ↔ pair ∈ table.pairs) (key : Key) :
    (putAll ∅ pairs : Table Key Value).lookup key = table.lookup key := by
  by_cases inside : ∃ pair ∈ pairs, pair.1 = key
  · obtain ⟨pair,member,same',found⟩ := lookup_putAll_inside ∅ pairs key inside
    obtain ⟨entry,held,rfl⟩ := List.mem_map.mp ((same pair).mp member)
    rw [found]
    subst same'
    exact (AList.mem_lookup_iff.mpr held).symm
  · have outside : ∀ pair ∈ pairs, pair.1 ≠ key := fun pair member same =>
      inside ⟨pair,member,same⟩
    rw [lookup_putAll_outside ∅ pairs key outside,AList.lookup_empty,eq_comm,
      AList.lookup_eq_none]
    intro member
    obtain ⟨value,held⟩ := Option.isSome_iff_exists.mp (AList.lookup_isSome.mpr member)
    exact outside (key,value)
      ((same (key,value)).mpr (List.mem_map_of_mem (AList.mem_lookup_iff.mp held))) rfl


theorem mem_pairs (table : Table Key Value) (key : Key) (value : Value) :
    (key,value) ∈ table.pairs ↔ table.lookup key = some value := by
  rw [← Option.mem_def,AList.mem_lookup_iff]
  constructor
  · intro member
    obtain ⟨entry,held,same⟩ := List.mem_map.mp member
    cases same
    exact held
  · exact List.mem_map_of_mem

/-- What holds of every key with its value holds of every entry. -/
theorem forall_pairs (table : Table Key Value) (relation : Key → Value → Prop) :
    (∀ key value, table.lookup key = some value → relation key value) ↔
      ∀ entry ∈ table.pairs, relation entry.1 entry.2 :=
  ⟨fun all entry listed => all entry.1 entry.2 ((table.mem_pairs _ _).mp listed),
    fun all key value held => all (key,value) ((table.mem_pairs key value).mpr held)⟩

theorem lookup_putAll_pairs (table : Table Key Value) (key : Key) :
    (putAll ∅ table.pairs : Table Key Value).lookup key = table.lookup key :=
  lookup_putAll_same table (fun _ => Iff.rfl) key

theorem lookup_putAll_table (table other : Table Key Value) (key : Key) :
    (putAll table other.pairs).lookup key = (other.lookup key).or (table.lookup key) := by
  by_cases inside : ∃ pair ∈ other.pairs, pair.1 = key
  · obtain ⟨pair,listed,rfl,found⟩ := lookup_putAll_inside table other.pairs key inside
    rw [found,(other.mem_pairs pair.1 pair.2).mp listed,Option.some_or]
  · have outside : ∀ pair ∈ other.pairs, pair.1 ≠ key := fun pair listed same =>
      inside ⟨pair,listed,same⟩
    rw [lookup_putAll_outside table other.pairs key outside]
    cases found : other.lookup key with
    | none => rw [Option.none_or]
    | some value => exact absurd rfl (outside (key,value) ((other.mem_pairs key value).mpr found))

omit [DecidableEq Key] in
theorem pairs_nodup (table : Table Key Value) : table.pairs.Nodup := by
  have keys : (table.pairs.map Prod.fst).Nodup := by
    rw [pairs,List.map_map]
    exact table.keys_nodup
  exact keys.of_map _

omit [DecidableEq Key] in
theorem pairs_keys (table : Table Key Value) : table.pairs.map Prod.fst = table.keys := by
  rw [pairs,List.map_map]
  rfl

/-- As many pairs as a table has entries make that table only if they are its entries. -/
theorem lookup_putAll_iff_perm (table : Table Key Value) {pairs : List (Key × Value)}
    (count : pairs.length = table.pairs.length) :
    (∀ key, (putAll ∅ pairs : Table Key Value).lookup key = table.lookup key) ↔
      pairs.Perm table.pairs := by
  constructor
  · intro same
    have listed : table.pairs ⊆ pairs := by
      rintro ⟨key,value⟩ held
      have found := (same key).trans ((table.mem_pairs key value).mp held)
      by_cases inside : ∃ pair ∈ pairs, pair.1 = key
      · obtain ⟨pair,member,rfl,put⟩ := lookup_putAll_inside ∅ pairs key inside
        rw [put,Option.some.injEq] at found
        exact found ▸ member
      · rw [lookup_putAll_outside ∅ pairs key fun pair member same => inside ⟨pair,member,same⟩,
          AList.lookup_empty] at found
        cases found
    exact ((List.subperm_of_subset table.pairs_nodup listed).perm_of_length_le (Nat.le_of_eq count)).symm
  · exact fun perm key => lookup_putAll_same table (fun _ => perm.mem_iff) key

theorem lookup_eq_iff (table other : Table Key Value) :
    (∀ key, table.lookup key = other.lookup key) ↔ table.pairs.length = other.pairs.length ∧
      ∀ key value, table.lookup key = some value → other.lookup key = some value := by
  constructor
  · intro same
    have perm : table.pairs.Perm other.pairs :=
      (List.perm_ext_iff_of_nodup table.pairs_nodup other.pairs_nodup).mpr fun entry => by
        rw [table.mem_pairs entry.1 entry.2,other.mem_pairs entry.1 entry.2,same entry.1]
    exact ⟨perm.length_eq,fun key value held => same key ▸ held⟩
  · rintro ⟨size,entries⟩ key
    have listed : table.pairs ⊆ other.pairs := fun entry held =>
      (other.mem_pairs _ _).mpr (entries _ _ ((table.mem_pairs entry.1 entry.2).mp held))
    have perm := (List.subperm_of_subset table.pairs_nodup listed).perm_of_length_le
      (Nat.le_of_eq size.symm)
    rw [← table.lookup_putAll_pairs key,lookup_putAll_same other (fun _ => perm.mem_iff) key]

theorem lookup_pairs (table : Table Key Value) (key : Key) :
    table.pairs.lookup key = table.lookup key := by
  have entries : ∀ entries : List (Sigma fun _ : Key => Value),
      (entries.map fun entry => (entry.1,entry.2)).lookup key = entries.dlookup key := by
    intro entries
    induction entries with
    | nil => rfl
    | cons entry rest ih =>
      obtain ⟨name,value⟩ := entry
      rw [List.map_cons,List.lookup_cons]
      by_cases same : key = name
      · subst same
        rw [List.dlookup_cons_eq,beq_self_eq_true]
      · rw [List.dlookup_cons_ne _ _ same,beq_eq_false_iff_ne.mpr same,ih]
  exact entries table.entries

/-- The loop that puts what is not there yet. -/
def putMissing (table : Table Key Value) (pairs : List (Key × Value)) : Table Key Value :=
  pairs.foldl (fun table pair => if pair.1 ∈ table then table else table.insert pair.1 pair.2) table

theorem lookup_putMissing (table : Table Key Value) (pairs : List (Key × Value)) (key : Key) :
    (putMissing table pairs).lookup key = (table.lookup key).or (pairs.lookup key) := by
  induction pairs generalizing table with
  | nil => simp [putMissing]
  | cons pair rest ih =>
    obtain ⟨name,value⟩ := pair
    change (putMissing (if name ∈ table then table else table.insert name value) rest).lookup key = _
    rw [ih,List.lookup_cons]
    by_cases same : key = name
    · subst same
      rw [beq_self_eq_true]
      split
      next present =>
        obtain ⟨held,found⟩ := Option.isSome_iff_exists.mp (AList.lookup_isSome.mpr present)
        simp [found]
      next missing => simp [AList.lookup_eq_none.mpr missing]
    · have apart : (key == name) = false := beq_eq_false_iff_ne.mpr same
      rw [apart]
      split
      next => rfl
      next => rw [lookup_put,if_neg same]

theorem pairs_eq (table : Table Key Value) (missing : Value) :
    table.pairs = table.keys.map fun key => (key,(table.lookup key).getD missing) := by
  rw [pairs,AList.keys,List.keys,List.map_map]
  apply List.map_congr_left
  intro entry held
  have found : table.lookup entry.1 = some entry.2 := AList.mem_lookup_iff.mpr held
  simp [found]

theorem holds_iff (table : Table Key Value) (test : Value → Bool) :
    holds table test = true ↔ ∃ key value, table.lookup key = some value ∧ test value = true := by
  simp only [holds,List.any_eq_true]
  constructor
  · intro some
    obtain ⟨⟨key,value⟩,member,passes⟩ := some
    exact ⟨key,value,AList.mem_lookup_iff.mpr member,passes⟩
  · intro some
    obtain ⟨key,value,found,passes⟩ := some
    exact ⟨⟨key,value⟩,AList.mem_lookup_iff.mp found,passes⟩

end Table
end YzFramework.Library
