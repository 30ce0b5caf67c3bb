import YzFramework.Library.Table
import Mathlib.Logic.Function.Basic
import Mathlib.Data.List.Nodup

/-! Lists of maps that `MapUtil` merges by the value of a unique key. Maps and lists are
references into a heap, so that arguments may share them; `none` is an exception. -/
namespace YzFramework.Util.MapUtil
open Library

variable {R L K V : Type*} [DecidableEq R] [DecidableEq L] [DecidableEq K] [DecidableEq V]

structure Heap (R L K V : Type*) where
  maps : R → Table K (Option V)
  lists : L → List R

/-- `Map.get`: null also for an absent key. -/
def get (map : Table K (Option V)) (key : K) : Option V := (map.lookup key).join

def equals (map other : Table K (Option V)) : Bool :=
  map.pairs.length == other.pairs.length &&
    map.pairs.all fun entry => other.lookup entry.1 == some entry.2

/-- `merge` of two maps: what it leaves in the first one. -/
def mergeMaps (map1 map2 : Table K (Option V)) (overwrite : Bool) : Table K (Option V) :=
  if overwrite then Table.putAll map1 map2.pairs else Table.putMissing map1 map2.pairs

/-- The inner loop: the first map with the value under the unique key. A null value has
no `equals` to call. -/
def search (maps : R → Table K (Option V)) (uniqueKey : K) (keyValue : Option V) :
    List R → Option (Option R)
  | [] => some none
  | payMap::rest =>
    match keyValue with
    | none => none
    | some value =>
      if get (maps payMap) uniqueKey = some value then some (some payMap)
      else search maps uniqueKey keyValue rest

/-- The body of both outer loops: one map of the first list is merged with the map it is
looked up in the second list, which then loses the first map equal to the one found. -/
def pass (uniqueKey : K) (overwrite : Bool) (maps : R → Table K (Option V)) (mapList2 : List R)
    (map : R) : Option ((R → Table K (Option V)) × List R) :=
  (search maps uniqueKey (get (maps map) uniqueKey) mapList2).map fun
    | none => (maps,mapList2)
    | some findMap =>
      let merged := Function.update maps map (mergeMaps (maps map) (maps findMap) overwrite)
      (merged,mapList2.eraseP fun other => equals (merged findMap) (merged other))

def mergeAndCombine (heap : Heap R L K V) (mapList1 mapList2 : L) (uniqueKey : K)
    (overwrite : Bool) : Option (Heap R L K V × List R) :=
  if (heap.lists mapList1).isEmpty then some (heap,heap.lists mapList2)
  else if (heap.lists mapList2).isEmpty then some (heap,heap.lists mapList1)
  else
    let returnMapList := heap.lists mapList1
    (returnMapList.foldlM (fun heap map =>
      (pass uniqueKey overwrite heap.maps (heap.lists mapList2) map).map fun result =>
        { maps := result.1, lists := Function.update heap.lists mapList2 result.2 }) heap).map
      fun after => (after,returnMapList ++ after.lists mapList2)

/-- `merge` of two lists, which takes its matches out of a copy. -/
def merge (heap : Heap R L K V) (mapList1 mapList2 : L) (uniqueKey : K) (overwrite : Bool) :
    Option (Heap R L K V) :=
  ((heap.lists mapList1).foldlM (fun result map1 =>
    pass uniqueKey overwrite result.1 result.2 map1) (heap.maps,heap.lists mapList2)).map
    fun result => { heap with maps := result.1 }

structure Keyed (maps : R → Table K (Option V)) (uniqueKey : K) (list : List R) : Prop where
  nonNull : ∀ map ∈ list, get (maps map) uniqueKey ≠ none
  unique : (list.map fun map => get (maps map) uniqueKey).Nodup

/-- The maps of `done` are merged with their matches in the second list; no other map
is different. -/
structure Merged (before after : R → Table K (Option V)) (uniqueKey : K) (overwrite : Bool)
    (mapList2 done : List R) : Prop where
  merged : ∀ map ∈ done, ∀ other ∈ mapList2,
    get (before other) uniqueKey = get (before map) uniqueKey →
    ∀ key, (after map).lookup key = (mergeMaps (before map) (before other) overwrite).lookup key
  same : ∀ map, (map ∈ done → ∀ other ∈ mapList2,
      get (before other) uniqueKey ≠ get (before map) uniqueKey) →
    ∀ key, (after map).lookup key = (before map).lookup key

def unmatched (maps : R → Table K (Option V)) (uniqueKey : K) (mapList2 done : List R) : List R :=
  mapList2.filter fun other => ∀ map ∈ done, get (maps map) uniqueKey ≠ get (maps other) uniqueKey

theorem equals_iff (map other : Table K (Option V)) :
    equals map other = true ↔ ∀ key, map.lookup key = other.lookup key := by
  rw [Table.lookup_eq_iff,equals,Bool.and_eq_true,beq_iff_eq,List.all_eq_true]
  refine and_congr_right fun _ => ?_
  rw [map.forall_pairs fun key value => other.lookup key = some value]
  exact forall₂_congr fun entry _ => beq_iff_eq

omit [DecidableEq V] in
theorem lookup_mergeMaps (map1 map2 : Table K (Option V)) (overwrite : Bool) (key : K) :
    (mergeMaps map1 map2 overwrite).lookup key =
      if overwrite then (map2.lookup key).or (map1.lookup key)
      else (map1.lookup key).or (map2.lookup key) := by
  cases overwrite with
  | true => exact Table.lookup_putAll_table map1 map2 key
  | false =>
    rw [mergeMaps,if_neg Bool.false_ne_true,Table.lookup_putMissing,Table.lookup_pairs]
    rfl

omit [DecidableEq V] in
theorem get_congr {map other : Table K (Option V)}
    (same : ∀ key, map.lookup key = other.lookup key) (key : K) : get map key = get other key := by
  rw [get,get,same]

omit [DecidableEq V] in
theorem get_mergeMaps {map1 map2 : Table K (Option V)} {key : K} {value : V}
    (first : get map1 key = some value) (second : get map2 key = some value) (overwrite : Bool) :
    get (mergeMaps map1 map2 overwrite) key = some value := by
  rw [get] at first second ⊢
  rw [lookup_mergeMaps]
  cases here : map1.lookup key <;> cases there : map2.lookup key <;> cases overwrite <;> simp_all

omit [DecidableEq R] in
theorem search_eq (maps : R → Table K (Option V)) (uniqueKey : K) (value : V) (list : List R) :
    search maps uniqueKey (some value) list =
      some (list.find? fun map => get (maps map) uniqueKey = some value) := by
  induction list with
  | nil => rfl
  | cons map rest ih =>
    rw [search,List.find?_cons]
    split
    next found => simp [found]
    next other => simp [other,ih]

omit [DecidableEq R] [DecidableEq V] in
theorem Keyed.eq {maps : R → Table K (Option V)} {uniqueKey : K} {list : List R}
    (keyed : Keyed maps uniqueKey list) {map other : R} (listed : map ∈ list) (also : other ∈ list)
    (same : get (maps map) uniqueKey = get (maps other) uniqueKey) : map = other :=
  List.inj_on_of_nodup_map keyed.unique listed also same

omit [DecidableEq R] [DecidableEq V] in
private theorem matched_or_alone (maps : R → Table K (Option V)) (uniqueKey : K) (mapList2 done : List R)
    (map : R) :
    (map ∈ done ∧ ∃ other ∈ mapList2, get (maps other) uniqueKey = get (maps map) uniqueKey) ∨
      (map ∈ done → ∀ other ∈ mapList2, get (maps other) uniqueKey ≠ get (maps map) uniqueKey) := by
  apply Classical.or_iff_not_imp_left.mpr
  intro unmatched inside other listed same
  exact unmatched ⟨inside,other,listed,same⟩

omit [DecidableEq R] [DecidableEq V] in
theorem Merged.get {before after : R → Table K (Option V)} {uniqueKey : K} {overwrite : Bool}
    {mapList2 done : List R} (merged : Merged before after uniqueKey overwrite mapList2 done)
    (keyed : Keyed before uniqueKey done) (map : R) :
    get (after map) uniqueKey = get (before map) uniqueKey := by
  rcases matched_or_alone before uniqueKey mapList2 done map with ⟨inside,other,listed,same⟩ | alone
  · obtain ⟨value,held⟩ := Option.ne_none_iff_exists'.mp (keyed.nonNull map inside)
    rw [get_congr (merged.merged map inside other listed same),held]
    exact get_mergeMaps held (same.trans held) overwrite
  · exact get_congr (merged.same map alone) uniqueKey

omit [DecidableEq R] in
theorem unmatched_concat (maps : R → Table K (Option V)) (uniqueKey : K) (mapList2 done : List R)
    (map : R) : unmatched maps uniqueKey mapList2 (done ++ [map]) =
      (unmatched maps uniqueKey mapList2 done).filter fun other =>
        get (maps map) uniqueKey ≠ get (maps other) uniqueKey := by
  rw [unmatched,unmatched,List.filter_filter]
  apply List.filter_congr
  intro other _
  simp [or_imp,forall_and,and_comm]

private theorem eraseP_eq_filter {α : Type*} (test : α → Bool) (list : List α)
    (once : list.Pairwise fun first second => test first = true → test second = false) :
    list.eraseP test = list.filter fun element => !test element := by
  induction list with
  | nil => rfl
  | cons first rest ih =>
    rw [List.pairwise_cons] at once
    cases found : test first with
    | true =>
      rw [List.eraseP_cons_of_pos found,List.filter_cons_of_neg (by simp [found])]
      exact (List.filter_eq_self.mpr fun other inside => by simp [once.1 other inside found]).symm
    | false => rw [List.eraseP_cons_of_neg (by simp [found]),List.filter_cons_of_pos (by simp [found]),ih once.2]

section

variable {before after : R → Table K (Option V)} {uniqueKey : K} {overwrite : Bool}
  {mapList2 done : List R} {map : R}

omit [DecidableEq R] [DecidableEq V] in
theorem Merged.alone (merged : Merged before after uniqueKey overwrite mapList2 done)
    (alone : ∀ other ∈ mapList2, MapUtil.get (before other) uniqueKey ≠ MapUtil.get (before map) uniqueKey) :
    Merged before after uniqueKey overwrite mapList2 (done ++ [map]) := by
  refine ⟨?_,fun first other => merged.same first fun inside => other (List.mem_append_left _ inside)⟩
  intro first inside other listed same
  rcases List.mem_append.mp inside with inside | last
  · exact merged.merged first inside other listed same
  · rw [List.mem_singleton.mp last] at same
    exact absurd same (alone other listed)

omit [DecidableEq V] in
private theorem Merged.meet (merged : Merged before after uniqueKey overwrite mapList2 done)
    (keyed : Keyed before uniqueKey mapList2)
    (apart : ∀ other ∈ done, MapUtil.get (before other) uniqueKey ≠ MapUtil.get (before map) uniqueKey)
    {findMap : R} (listed : findMap ∈ mapList2)
    (found : MapUtil.get (before findMap) uniqueKey = MapUtil.get (before map) uniqueKey) :
    Merged before (Function.update after map (mergeMaps (after map) (after findMap) overwrite))
      uniqueKey overwrite mapList2 (done ++ [map]) := by
  -- Neither of the two maps was merged before, since no earlier map has their key.
  have unmerged : ∀ first, MapUtil.get (before first) uniqueKey = MapUtil.get (before map) uniqueKey →
      ∀ key, (after first).lookup key = (before first).lookup key :=
    fun first same => merged.same first fun inside => absurd same (apart first inside)
  refine ⟨fun first inside other also same key => ?_,fun first alone key => ?_⟩
  · rcases List.mem_append.mp inside with inside | last
    · have differ : first ≠ map := fun equal => apart first inside (equal ▸ rfl)
      rw [Function.update_of_ne differ]
      exact merged.merged first inside other also same key
    · cases List.mem_singleton.mp last
      cases keyed.eq also listed (same.trans found.symm)
      rw [Function.update_self,lookup_mergeMaps,lookup_mergeMaps,unmerged map rfl,unmerged findMap found]
  · have differ : first ≠ map := fun equal => alone (by simp [equal]) findMap listed (equal ▸ found)
    rw [Function.update_of_ne differ]
    exact merged.same first (fun inside => alone (List.mem_append_left _ inside)) key

omit [DecidableEq R] in
private theorem eraseP_match (keyed : Keyed before uniqueKey mapList2) {next : R → Table K (Option V)}
    (keys : ∀ other, get (next other) uniqueKey = get (before other) uniqueKey) {findMap : R}
    (listed : findMap ∈ mapList2) (found : get (before findMap) uniqueKey = get (before map) uniqueKey) :
    ((unmatched before uniqueKey mapList2 done).eraseP fun other => equals (next findMap) (next other)) =
      unmatched before uniqueKey mapList2 (done ++ [map]) := by
  have removed : ∀ other ∈ unmatched before uniqueKey mapList2 done,
      equals (next findMap) (next other) = true ↔
        get (before map) uniqueKey = get (before other) uniqueKey := by
    intro other left
    rw [equals_iff]
    constructor
    · intro equal
      rw [← found,← keys findMap,← keys other]
      exact get_congr equal uniqueKey
    · intro same
      cases keyed.eq (List.mem_of_mem_filter left) listed (same.symm.trans found.symm)
      exact fun _ => rfl
  rw [unmatched_concat,eraseP_eq_filter]
  · apply List.filter_congr
    intro other left
    rw [Bool.eq_iff_iff,Bool.not_eq_true',decide_eq_true_eq,Ne,← removed other left,Bool.not_eq_true]
  · have nodup : (unmatched before uniqueKey mapList2 done).Nodup := keyed.unique.of_map.filter _
    refine nodup.imp_of_mem fun {first second} left also differ passes => ?_
    refine eq_false_of_ne_true fun again => differ ?_
    exact keyed.eq (List.mem_of_mem_filter left) (List.mem_of_mem_filter also)
      (((removed first left).mp passes).symm.trans ((removed second also).mp again))

theorem pass_step (keyed : Keyed before uniqueKey mapList2)
    (fresh : Keyed before uniqueKey (done ++ [map]))
    (merged : Merged before after uniqueKey overwrite mapList2 done) :
    ∃ next, pass uniqueKey overwrite after (unmatched before uniqueKey mapList2 done) map =
        some (next,unmatched before uniqueKey mapList2 (done ++ [map])) ∧
      Merged before next uniqueKey overwrite mapList2 (done ++ [map]) := by
  have unique := fresh.unique
  rw [List.map_append,List.nodup_append] at unique
  have keyedDone : Keyed before uniqueKey done :=
    ⟨fun other inside => fresh.nonNull other (List.mem_append_left _ inside),unique.1⟩
  have apart : ∀ other ∈ done, get (before other) uniqueKey ≠ get (before map) uniqueKey :=
    fun other inside => unique.2.2 _ (List.mem_map_of_mem inside) _ (by simp)
  have keys := merged.get keyedDone
  obtain ⟨value,held⟩ := Option.ne_none_iff_exists'.mp (fresh.nonNull map (by simp))
  rw [pass,keys map,held,search_eq,Option.map_some]
  cases found : (unmatched before uniqueKey mapList2 done).find?
      fun other => get (after other) uniqueKey = some value with
  | none =>
    have alone : ∀ other ∈ mapList2, get (before other) uniqueKey ≠ get (before map) uniqueKey := by
      intro other listed same
      have left : other ∈ unmatched before uniqueKey mapList2 done :=
        List.mem_filter.mpr ⟨listed,decide_eq_true fun first inside => same ▸ apart first inside⟩
      have missed := List.find?_eq_none.mp found other left
      rw [keys other,same,held] at missed
      exact missed (decide_eq_true rfl)
    refine ⟨after,?_,merged.alone alone⟩
    rw [unmatched_concat,List.filter_eq_self.mpr fun other left => ?_]
    exact decide_eq_true (alone other (List.mem_of_mem_filter left)).symm
  | some findMap =>
    have listed := List.mem_of_mem_filter (List.mem_of_find?_eq_some found)
    have same : get (before findMap) uniqueKey = get (before map) uniqueKey := by
      rw [held,← keys findMap]
      exact of_decide_eq_true (List.find?_some found :)
    have meets := merged.meet keyed apart listed same
    refine ⟨_,?_,meets⟩
    simp only [eraseP_match keyed (meets.get fresh) listed same]

end

private theorem passes_merged {before : R → Table K (Option V)} {uniqueKey : K} {overwrite : Bool}
    {mapList2 : List R} (keyed : Keyed before uniqueKey mapList2) (rest : List R) :
    ∀ (done : List R) (after : R → Table K (Option V)), Keyed before uniqueKey (done ++ rest) →
      Merged before after uniqueKey overwrite mapList2 done →
      ∃ final, rest.foldlM (fun result map => pass uniqueKey overwrite result.1 result.2 map)
          (after,unmatched before uniqueKey mapList2 done) =
          some (final,unmatched before uniqueKey mapList2 (done ++ rest)) ∧
        Merged before final uniqueKey overwrite mapList2 (done ++ rest) := by
  induction rest with
  | nil =>
    intro done after fresh merged
    rw [List.append_nil]
    exact ⟨after,rfl,merged⟩
  | cons map rest ih =>
    intro done after fresh merged
    have split : done ++ map::rest = done ++ [map] ++ rest := by simp
    rw [split] at fresh ⊢
    have first : Keyed before uniqueKey (done ++ [map]) := by
      refine ⟨fun other inside => fresh.nonNull other (List.mem_append_left _ inside),?_⟩
      have unique := fresh.unique
      rw [List.map_append] at unique
      exact unique.of_append_left
    obtain ⟨next,passed,mergedNext⟩ := pass_step keyed first merged
    rw [List.foldlM_cons,passed]
    exact ih (done ++ [map]) next fresh mergedNext

/-- What a combining call owes its caller, apart from leaving the arguments alone. -/
structure Combined (heap after : Heap R L K V) (returned : List R) (mapList1 mapList2 : L)
    (uniqueKey : K) (overwrite : Bool) : Prop where
  returned : returned = heap.lists mapList1 ++
    unmatched heap.maps uniqueKey (heap.lists mapList2) (heap.lists mapList1)
  /-- Each map of the second list is used by one map of the first, or is listed after them. -/
  once : ∀ other ∈ heap.lists mapList2,
    ((heap.lists mapList1).filter fun map =>
      get (heap.maps map) uniqueKey = get (heap.maps other) uniqueKey).length +
    (unmatched heap.maps uniqueKey (heap.lists mapList2) (heap.lists mapList1)).count other = 1
  merged : ∀ map ∈ heap.lists mapList1, ∀ other ∈ heap.lists mapList2,
    get (heap.maps other) uniqueKey = get (heap.maps map) uniqueKey →
    ∀ key, (after.maps map).lookup key =
      if overwrite then ((heap.maps other).lookup key).or ((heap.maps map).lookup key)
      else ((heap.maps map).lookup key).or ((heap.maps other).lookup key)
  same : ∀ map, (map ∈ heap.lists mapList1 → ∀ other ∈ heap.lists mapList2,
      get (heap.maps other) uniqueKey ≠ get (heap.maps map) uniqueKey) →
    ∀ key, (after.maps map).lookup key = (heap.maps map).lookup key
  agrees : ∃ sibling, merge heap mapList1 mapList2 uniqueKey overwrite = some sibling ∧
    sibling.lists = heap.lists ∧ ∀ map key,
      (sibling.maps map).lookup key = (after.maps map).lookup key

omit [DecidableEq R] in
theorem unmatched_self (maps : R → Table K (Option V)) (uniqueKey : K) (mapList2 done : List R) :
    unmatched maps uniqueKey mapList2 done = mapList2 ↔ ∀ map ∈ done, ∀ other ∈ mapList2,
      get (maps map) uniqueKey ≠ get (maps other) uniqueKey := by
  rw [unmatched,List.filter_eq_self]
  simp only [decide_eq_true_eq]
  exact ⟨fun all map inside other listed => all other listed map inside,
    fun all other listed map inside => all map inside other listed⟩

private theorem used_once {maps : R → Table K (Option V)} {uniqueKey : K} {list mapList2 : List R}
    (first : Keyed maps uniqueKey list) (second : Keyed maps uniqueKey mapList2) {other : R}
    (listed : other ∈ mapList2) :
    (list.filter fun map => get (maps map) uniqueKey = get (maps other) uniqueKey).length +
      (unmatched maps uniqueKey mapList2 list).count other = 1 := by
  have counted : (list.filter fun map => get (maps map) uniqueKey = get (maps other) uniqueKey).length =
      (list.map fun map => get (maps map) uniqueKey).count (get (maps other) uniqueKey) := by
    rw [List.count_eq_length_filter,List.filter_map,List.length_map]
    exact congrArg List.length (List.filter_congr fun map _ => (beq_eq_decide _ _).symm)
  have nodup : (unmatched maps uniqueKey mapList2 list).Nodup := second.unique.of_map.filter _
  rw [counted,first.unique.count,nodup.count]
  by_cases matched : ∃ map ∈ list, get (maps map) uniqueKey = get (maps other) uniqueKey
  · obtain ⟨map,inside,same⟩ := matched
    rw [if_pos (List.mem_map.mpr ⟨map,inside,same⟩),if_neg]
    exact fun left => of_decide_eq_true (List.mem_filter.mp left).2 map inside same
  · rw [if_neg fun inside => matched (List.mem_map.mp inside),if_pos]
    exact List.mem_filter.mpr ⟨listed,decide_eq_true fun map inside same => matched ⟨map,inside,same⟩⟩

private theorem foldlM_combine (heap : Heap R L K V) (mapList2 : L) (uniqueKey : K) (overwrite : Bool)
    (items : List R) :
    items.foldlM (fun heap map =>
      (pass uniqueKey overwrite heap.maps (heap.lists mapList2) map).map fun result =>
        { maps := result.1, lists := Function.update heap.lists mapList2 result.2 : Heap R L K V }) heap =
      (items.foldlM (fun result map => pass uniqueKey overwrite result.1 result.2 map)
        (heap.maps,heap.lists mapList2)).map fun result =>
          { maps := result.1, lists := Function.update heap.lists mapList2 result.2 } := by
  induction items generalizing heap with
  | nil => simp
  | cons map rest ih =>
    rw [List.foldlM_cons,List.foldlM_cons]
    cases pass uniqueKey overwrite heap.maps (heap.lists mapList2) map with
    | none => rfl
    | some result =>
      have later := ih { maps := result.1, lists := Function.update heap.lists mapList2 result.2 }
      simp only [Function.update_self,Function.update_idem] at later
      exact later

omit [DecidableEq R] [DecidableEq V] in
theorem Merged.eq {before first second : R → Table K (Option V)} {uniqueKey : K} {overwrite : Bool}
    {mapList2 done : List R} (merged : Merged before first uniqueKey overwrite mapList2 done)
    (also : Merged before second uniqueKey overwrite mapList2 done) (map : R) (key : K) :
    (first map).lookup key = (second map).lookup key := by
  rcases matched_or_alone before uniqueKey mapList2 done map with ⟨inside,other,listed,same⟩ | alone
  · rw [merged.merged map inside other listed same,also.merged map inside other listed same]
  · rw [merged.same map alone,also.same map alone]

omit [DecidableEq R] [DecidableEq V] in
theorem Merged.refl {maps : R → Table K (Option V)} {uniqueKey : K} {mapList2 done : List R}
    (apart : ∀ map ∈ done, ∀ other ∈ mapList2,
      MapUtil.get (maps map) uniqueKey ≠ MapUtil.get (maps other) uniqueKey) (overwrite : Bool) :
    Merged maps maps uniqueKey overwrite mapList2 done :=
  ⟨fun map inside other listed same => absurd same.symm (apart map inside other listed),fun _ _ _ => rfl⟩

theorem mergeAndCombine_run (heap : Heap R L K V) (mapList1 mapList2 : L) (uniqueKey : K)
    (overwrite : Bool) (first : Keyed heap.maps uniqueKey (heap.lists mapList1))
    (second : Keyed heap.maps uniqueKey (heap.lists mapList2)) :
    ∃ after, mergeAndCombine heap mapList1 mapList2 uniqueKey overwrite =
        some (after,heap.lists mapList1 ++
          unmatched heap.maps uniqueKey (heap.lists mapList2) (heap.lists mapList1)) ∧
      Merged heap.maps after.maps uniqueKey overwrite (heap.lists mapList2) (heap.lists mapList1) ∧
      after.lists = Function.update heap.lists mapList2
        (unmatched heap.maps uniqueKey (heap.lists mapList2) (heap.lists mapList1)) := by
  have apart (none : ∀ map ∈ heap.lists mapList1, ∀ other ∈ heap.lists mapList2,
      get (heap.maps map) uniqueKey ≠ get (heap.maps other) uniqueKey) :
      unmatched heap.maps uniqueKey (heap.lists mapList2) (heap.lists mapList1) = heap.lists mapList2 ∧
      Merged heap.maps heap.maps uniqueKey overwrite (heap.lists mapList2) (heap.lists mapList1) :=
    ⟨(unmatched_self _ _ _ _).mpr none,Merged.refl none overwrite⟩
  rw [mergeAndCombine]
  split
  next empty =>
    rw [List.isEmpty_iff] at empty
    obtain ⟨whole,merged⟩ := apart (by rw [empty]; nofun)
    refine ⟨heap,?_,merged,?_⟩
    · rw [whole,empty,List.nil_append]
    · rw [whole,Function.update_eq_self]
  next =>
    split
    next empty =>
      rw [List.isEmpty_iff] at empty
      obtain ⟨whole,merged⟩ := apart (by rw [empty]; exact fun _ _ => nofun)
      refine ⟨heap,?_,merged,?_⟩
      · rw [whole,empty,List.append_nil]
      · rw [whole,Function.update_eq_self]
    next =>
      obtain ⟨final,passed,merged⟩ := passes_merged second (heap.lists mapList1) [] heap.maps first
        (Merged.refl nofun overwrite)
      rw [(unmatched_self _ _ _ _).mpr nofun,List.nil_append] at passed
      refine ⟨⟨final,Function.update heap.lists mapList2 _⟩,?_,merged,rfl⟩
      simp only [foldlM_combine,passed,Option.map_some,Function.update_self]

omit [DecidableEq L] in
theorem merge_run (heap : Heap R L K V) (mapList1 mapList2 : L) (uniqueKey : K)
    (overwrite : Bool) (first : Keyed heap.maps uniqueKey (heap.lists mapList1))
    (second : Keyed heap.maps uniqueKey (heap.lists mapList2)) :
    ∃ after, merge heap mapList1 mapList2 uniqueKey overwrite = some after ∧
      Merged heap.maps after.maps uniqueKey overwrite (heap.lists mapList2) (heap.lists mapList1) ∧
      after.lists = heap.lists := by
  obtain ⟨final,passed,merged⟩ := passes_merged second (heap.lists mapList1) [] heap.maps first
    (Merged.refl nofun overwrite)
  rw [(unmatched_self _ _ _ _).mpr nofun,List.nil_append] at passed
  refine ⟨{ heap with maps := final },?_,merged,rfl⟩
  rw [merge,passed]
  rfl

/-- The result is right for all lists; the arguments keep their elements if and only
if no map of the first list matches one of the second. -/
theorem mergeAndCombine_combined (heap : Heap R L K V) (mapList1 mapList2 : L) (uniqueKey : K)
    (overwrite : Bool) (first : Keyed heap.maps uniqueKey (heap.lists mapList1))
    (second : Keyed heap.maps uniqueKey (heap.lists mapList2)) :
    ∃ after returned,
      mergeAndCombine heap mapList1 mapList2 uniqueKey overwrite = some (after,returned) ∧
      Combined heap after returned mapList1 mapList2 uniqueKey overwrite ∧
      (after.lists mapList1 = heap.lists mapList1 ∧ after.lists mapList2 = heap.lists mapList2 ↔
        ∀ map ∈ heap.lists mapList1, ∀ other ∈ heap.lists mapList2,
          get (heap.maps map) uniqueKey ≠ get (heap.maps other) uniqueKey) := by
  obtain ⟨after,ran,merged,lists⟩ := mergeAndCombine_run heap mapList1 mapList2 uniqueKey overwrite first second
  obtain ⟨sibling,also,mergedAlso,listsAlso⟩ := merge_run heap mapList1 mapList2 uniqueKey overwrite first second
  refine ⟨after,_,ran,⟨rfl,fun other listed => used_once first second listed,?_,merged.same,?_⟩,?_⟩
  · intro map inside other listed same key
    rw [merged.merged map inside other listed same,lookup_mergeMaps]
  · exact ⟨sibling,also,listsAlso,mergedAlso.eq merged⟩
  · rw [← unmatched_self,lists,Function.update_self]
    refine ⟨And.right,fun whole => ⟨?_,whole⟩⟩
    rw [whole,Function.update_eq_self]

def sample : Heap ℕ ℕ ℕ ℕ where
  maps := fun map => AList.insert 0 (some (if map = 2 then 0 else map)) (AList.insert map none ∅)
  lists := fun list => if list = 0 then [0,1] else [2,3]

theorem mergeAndCombine_sample : Keyed sample.maps 0 (sample.lists 0) ∧
    Keyed sample.maps 0 (sample.lists 1) ∧ sample.lists 1 = [2,3] ∧
    (mergeAndCombine sample 0 1 0 true).map (fun result => result.1.lists 1) = some [3] :=
  ⟨⟨by decide,by decide⟩,⟨by decide,by decide⟩,rfl,by decide⟩

theorem mergeAndCombine_combined_sample : ∃ after returned,
    mergeAndCombine sample 0 1 0 true = some (after,returned) ∧
    Combined sample after returned 0 1 0 true ∧
    (after.lists 0 = sample.lists 0 ∧ after.lists 1 = sample.lists 1 ↔
      ∀ map ∈ sample.lists 0, ∀ other ∈ sample.lists 1,
        get (sample.maps map) 0 ≠ get (sample.maps other) 0) :=
  mergeAndCombine_combined sample 0 1 0 true ⟨by decide,by decide⟩ ⟨by decide,by decide⟩

end YzFramework.Util.MapUtil
