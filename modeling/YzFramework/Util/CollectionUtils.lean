import YzFramework.Library.Properties
import YzFramework.Library.Search
import YzFramework.Library.Table

/-! `CollectionUtils`: maps written as lists of items and read back, and the comparison
of maps. References that may be null are options. -/
namespace YzFramework.Util.CollectionUtils
open Library
open Library.Properties (Text)

/-- The item of one entry: the key alone for a null or empty value. -/
def item (separator : Text) (entry : Text × Option Text) : Text :=
  let value := entry.2.getD []
  if value.length = 0 then entry.1 else entry.1 ++ separator ++ value

def join (map : Option (Table Text (Option Text))) (separator : Text) : Option (List Text) :=
  map.map fun map => map.pairs.map (item separator)

/-- What `split` puts for an item: `substring(0, index)` and `substring(index + 1)`. -/
def entry (separator item : Text) : Text × Text :=
  match Search.indexOf separator item with
  | none => (item,[])
  | some index => (item.take index,item.drop (index+1))

def split (list : Option (List Text)) (separator : Text) : Option (Table Text Text) :=
  list.map fun list => Table.putAll ∅ (list.map (entry separator))

/-- Splitting what was joined gives the map back, with empty strings for null values. -/
def RoundTrip (map : Table Text (Option Text)) (separator : Text) : Prop :=
  ∃ result, split (join (some map) separator) separator = some result ∧
    ∀ key, result.lookup key = (map.lookup key).map (·.getD [])

def ValuesEmpty (map : Table Text (Option Text)) : Prop :=
  ∀ key value, map.lookup key = some value → value.getD [] = []

abbrev KeysPlain (map : Table Text (Option Text)) (separator : Text) : Prop :=
  ∀ key ∈ map.keys, ¬ separator <:+: key

theorem entry_plain {separator key : Text} (plain : ¬ separator <:+: key) :
    entry separator key = (key,[]) := by
  rw [entry,Search.indexOf_none.mpr plain]

theorem entry_length {separator item : Text} (inside : separator <:+: item) (some : separator ≠ []) :
    (entry separator item).1.length + (entry separator item).2.length + 1 = item.length := by
  have positive := List.length_pos_iff.mpr some
  cases found : Search.indexOf separator item with
  | none => exact absurd inside (Search.indexOf_none.mp found)
  | some index =>
    obtain ⟨after,same⟩ := Search.indexOf_some found
    have whole := congrArg List.length same
    rw [List.length_append,List.length_append,List.length_take] at whole
    rw [entry,found]
    simp only [List.length_take,List.length_drop]
    omega

theorem entry_single {c : UInt16} {key : Text} (plain : ¬ [c] <:+: key) (value : Text) :
    entry [c] (key ++ [c] ++ value) = (key,value) := by
  have found := Search.indexOf_append List.not_mem_nil plain value
  rw [List.nil_append] at found
  rw [entry,List.append_assoc,List.singleton_append,found]
  simp

theorem entry_item {separator : Text} {pair : Text × Option Text} (plain : ¬ separator <:+: pair.1)
    (fits : separator.length = 1 ∨ pair.2.getD [] = []) :
    entry separator (item separator pair) = (pair.1,pair.2.getD []) := by
  rw [item]
  rcases Decidable.em (pair.2.getD [] = []) with empty | value
  · simp [empty,entry_plain plain]
  · obtain ⟨c,rfl⟩ := List.length_eq_one_iff.mp (fits.resolve_right value)
    simp only [List.length_eq_zero_iff,if_neg value]
    exact entry_single plain _

theorem entry_gain {separator : Text} {pair : Text × Option Text} (some : separator ≠ [])
    (plain : ¬ separator <:+: pair.1) :
    (entry separator (item separator pair)).1.length + (entry separator (item separator pair)).2.length =
      pair.1.length + (pair.2.getD []).length +
        if pair.2.getD [] = [] then 0 else separator.length - 1 := by
  have positive := List.length_pos_iff.mpr some
  rw [item]
  by_cases empty : pair.2.getD [] = []
  · simp [empty,entry_plain plain]
  · have held : ¬ (pair.2.getD []).length = 0 := fun none => empty (List.length_eq_zero_iff.mp none)
    simp only [if_neg held,if_neg empty]
    have inside : separator <:+: pair.1 ++ separator ++ pair.2.getD [] := ⟨pair.1,pair.2.getD [],rfl⟩
    have cut := entry_length inside some
    simp only [List.length_append] at cut
    omega

private theorem roundTrip_iff_perm (map : Table Text (Option Text)) (separator : Text) :
    RoundTrip map separator ↔
      (map.pairs.map fun pair => entry separator (item separator pair)).Perm
        (map.mapValues (·.getD [])).pairs := by
  have count : (map.pairs.map fun pair => entry separator (item separator pair)).length =
      (map.mapValues (·.getD [])).pairs.length := by
    simp [Table.pairs_mapValues]
  rw [← Table.lookup_putAll_iff_perm _ count]
  simp [RoundTrip,split,join,Function.comp_def]

private theorem sum_gain {α : Type*} (weight gain : α → ℕ) (items : List α)
    (same : (items.map fun item => weight item + gain item).sum = (items.map weight).sum) :
    ∀ item ∈ items, gain item = 0 := by
  have split : (items.map fun item => weight item + gain item).sum =
      (items.map weight).sum + (items.map gain).sum := List.sum_map_add
  have none : (items.map gain).sum = 0 := by omega
  intro item inside
  exact List.sum_eq_zero_iff.mp none _ (List.mem_map_of_mem inside)

/-- A joined map is read back if and only if the separator is a single unit, or
no value is ever written behind one. -/
theorem split_join_iff (map : Table Text (Option Text)) (separator : Text) (some : separator ≠ [])
    (plain : KeysPlain map separator) :
    RoundTrip map separator ↔ separator.length = 1 ∨ ValuesEmpty map := by
  have keys : ∀ pair ∈ map.pairs, ¬ separator <:+: pair.1 := fun pair held =>
    plain pair.1 (map.pairs_keys ▸ List.mem_map_of_mem held)
  rw [roundTrip_iff_perm,Table.pairs_mapValues]
  constructor
  · intro perm
    by_contra lost
    rw [not_or] at lost
    have lengths := (perm.map fun pair => pair.1.length + pair.2.length).sum_eq
    rw [List.map_map,List.map_map] at lengths
    have gained := sum_gain (fun pair : Text × Option Text => pair.1.length + (pair.2.getD []).length)
      (fun pair => if pair.2.getD [] = [] then 0 else separator.length - 1) map.pairs
      (lengths ▸ congrArg List.sum (List.map_congr_left fun pair held =>
        (entry_gain some (keys pair held)).symm))
    apply lost.2
    intro key value found
    have none := gained (key,value) ((map.mem_pairs key value).mpr found)
    have positive := List.length_pos_iff.mpr some
    by_contra held
    rw [if_neg held] at none
    exact lost.1 (by omega)
  · intro fits
    have read : map.pairs.map (fun pair => entry separator (item separator pair)) =
        map.pairs.map fun pair => (pair.1,pair.2.getD []) :=
      List.map_congr_left fun pair held => entry_item (keys pair held)
        (fits.imp id fun none => none pair.1 pair.2 ((map.mem_pairs _ _).mp held))
    rw [read]

theorem split_join_arrow :
    let map : Table Text (Option Text) := AList.insert [107] (some [118]) ∅
    [61,62] ≠ ([] : Text) ∧ KeysPlain map [61,62] ∧ ¬ RoundTrip map [61,62] := by
  refine ⟨by decide,by decide,?_⟩
  rintro ⟨result,read,same⟩
  cases read
  exact absurd (same [107]) (by decide)

theorem split_join_iff_arrow : RoundTrip (AList.insert [107] (some [118,61]) (AList.insert [106] none ∅)) [61] :=
  (split_join_iff _ [61] (by decide) (by decide)).mpr (.inl rfl)

section

variable {K V : Type*} [DecidableEq K] [DecidableEq V]

/-- `Map.get`: null also for an absent key. -/
def get (map : Table (Option K) (Option V)) (key : Option K) : Option V := (map.lookup key).join

def objectEquals : Option V → Option V → Bool
  | none, none => true
  | some obj1, some obj2 => obj1 == obj2
  | _, _ => false

def mapEquals : Option (Table (Option K) (Option V)) → Option (Table (Option K) (Option V)) → Bool
  | none, none => true
  | some map1, some map2 =>
    if map1.pairs.length ≠ map2.pairs.length then false
    else map1.pairs.all fun entry => objectEquals entry.2 (get map2 entry.1)
  | _, _ => false

/-- The same keys with the same values; null is only equal to null. -/
def Same : Option (Table (Option K) (Option V)) → Option (Table (Option K) (Option V)) → Prop
  | none, none => True
  | some map1, some map2 => ∀ key, map1.lookup key = map2.lookup key
  | _, _ => False

/-- The maps have one size and differ only in null values of the first under keys
that the second lacks. -/
def NullMissing : Option (Table (Option K) (Option V)) → Option (Table (Option K) (Option V)) → Prop
  | some map1, some map2 => map1.pairs.length = map2.pairs.length ∧
    (∃ key, map1.lookup key = some none ∧ map2.lookup key = none) ∧
    ∀ key value, map1.lookup key = some value →
      map2.lookup key = some value ∨ value = none ∧ map2.lookup key = none
  | _, _ => False

theorem objectEquals_iff (obj1 obj2 : Option V) : objectEquals obj1 obj2 = true ↔ obj1 = obj2 := by
  cases obj1 <;> cases obj2 <;> simp [objectEquals]

theorem mapEquals_iff (map1 map2 : Table (Option K) (Option V)) :
    mapEquals (some map1) (some map2) = true ↔ map1.pairs.length = map2.pairs.length ∧
      ∀ key value, map1.lookup key = some value → value = get map2 key := by
  have entries : (∀ entry ∈ map1.pairs, entry.2 = get map2 entry.1) ↔
      ∀ key value, map1.lookup key = some value → value = get map2 key :=
    (map1.forall_pairs fun key value => value = get map2 key).symm
  simp only [mapEquals]
  split
  next differ => simp [differ]
  next same =>
    rw [not_not] at same
    rw [List.all_eq_true,← entries]
    simp [same,objectEquals_iff]

omit [DecidableEq V] in
theorem get_eq (map : Table (Option K) (Option V)) (key : Option K) (value : Option V) :
    value = get map key ↔ map.lookup key = some value ∨ value = none ∧ map.lookup key = none := by
  rw [get]
  cases found : map.lookup key <;> simp [eq_comm]

theorem mapEquals_same_iff (map1 map2 : Option (Table (Option K) (Option V))) :
    (mapEquals map1 map2 = true ↔ Same map1 map2) ↔ ¬ NullMissing map1 map2 := by
  cases map1 with
  | none => cases map2 <;> simp [mapEquals,Same,NullMissing]
  | some map1 =>
    cases map2 with
    | none => simp [mapEquals,Same,NullMissing]
    | some map2 =>
      simp only [mapEquals_iff,get_eq]
      constructor
      · rintro right ⟨size,⟨key,held,missed⟩,entries⟩
        have same := right.mp ⟨size,entries⟩ key
        rw [held,missed] at same
        cases same
      · intro told
        constructor
        · rintro ⟨size,entries⟩
          refine (Table.lookup_eq_iff map1 map2).mpr ⟨size,fun key value held => ?_⟩
          rcases entries key value held with found | ⟨rfl,missed⟩
          · exact found
          · exact absurd ⟨size,⟨key,held,missed⟩,entries⟩ told
        · intro same
          obtain ⟨size,entries⟩ := (Table.lookup_eq_iff map1 map2).mp same
          exact ⟨size,fun key value held => .inl (entries key value held)⟩

omit [DecidableEq V] in
theorem same_equivalence :
    Equivalence (Same : Option (Table (Option K) (Option V)) → Option (Table (Option K) (Option V)) → Prop) where
  refl map := by cases map <;> simp [Same]
  symm {map1 map2} same := by
    cases map1 <;> cases map2 <;> simp_all [Same]
  trans {map1 map2 map3} first second := by
    cases map1 <;> cases map2 <;> cases map3 <;> simp_all [Same]

/-- The comparison is right about two maps unless the first one has null values that
the second one misses and nothing else tells them apart; it is an equivalence on all
maps among which that does not happen. -/
theorem mapEquals_extensional :
    (∀ map1 map2 : Option (Table (Option K) (Option V)),
      (mapEquals map1 map2 = true ↔ Same map1 map2) ↔ ¬ NullMissing map1 map2) ∧
    ∀ maps : Set (Option (Table (Option K) (Option V))),
      (∀ map1 ∈ maps, ∀ map2 ∈ maps, ¬ NullMissing map1 map2) →
      Equivalence fun map1 map2 : maps => mapEquals map1.1 map2.1 = true := by
  refine ⟨mapEquals_same_iff,fun maps told => ?_⟩
  have right : ∀ map1 map2 : maps, mapEquals map1.1 map2.1 = true ↔ Same map1.1 map2.1 :=
    fun map1 map2 => (mapEquals_same_iff _ _).mpr (told _ map1.2 _ map2.2)
  refine ⟨fun map => (right _ _).mpr (same_equivalence.refl _),?_,?_⟩
  · exact fun same => (right _ _).mpr (same_equivalence.symm ((right _ _).mp same))
  · exact fun first second => (right _ _).mpr
      (same_equivalence.trans ((right _ _).mp first) ((right _ _).mp second))

theorem mapEquals_null :
    let left : Table (Option ℕ) (Option ℕ) := AList.insert (some 0) none ∅
    let right : Table (Option ℕ) (Option ℕ) := AList.insert (some 1) (some 7) ∅
    mapEquals (some left) (some (AList.insert (some 1) none ∅)) = true ∧
      ¬ Same (some left) (some (AList.insert (some 1) none ∅)) ∧
    mapEquals (some left) (some right) = true ∧ mapEquals (some right) (some left) = false := by
  refine ⟨by decide,fun same => absurd (same (some 0)) (by decide),by decide,by decide⟩

end

end YzFramework.Util.CollectionUtils
