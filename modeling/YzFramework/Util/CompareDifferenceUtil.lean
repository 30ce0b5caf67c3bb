import Mathlib.Data.Finset.Dedup
import Mathlib.Data.Finset.SDiff
import Mathlib.Data.Finset.Card

/-! The differences that `CompareDifferenceUtil` reports between two collections. -/
namespace YzFramework.Util.CompareDifferenceUtil

/-- A collection of the caller's. Its own `contains` answers by `equals` or by a comparator
(`TreeSet`), or throws (a `TreeSet` asked for `null`). -/
structure Collection (T : Type*) where
  elements : List T
  contains : T → Option Bool

/-- The caller's own collection, or a set the comparison built. -/
inductive Value (T : Type*) where
  | collection (held : Collection T)
  | set (elements : Finset T)

structure Difference (T : Type*) where
  oldValue : Option (Value T) := none
  newValue : Option (Value T) := none

structure DifferenceWapper (T : Type*) where
  column : String
  difference : Difference T

/-- The comparison's own exception, or what the caller's `contains` threw. -/
inductive Thrown where
  | runtimeException (message : String)
  | contains

variable {T : Type*} [DecidableEq T]

def Collection.toSet (collection : Collection T) : Finset T := collection.elements.toFinset

def Value.toSet : Value T → Finset T
  | .collection held => held.toSet
  | .set elements => elements

/-- `HashSet.retainAll` asks its argument for every element of the set. -/
def retainAll (result : Finset T) (collection : Collection T) : Except Thrown (Finset T) :=
  if (result.filter fun element => (collection.contains element).isNone) = ∅ then
    .ok (result.filter fun element => (collection.contains element).getD false)
  else .error .contains

def compareCollectionAdd (newCollection : Collection T) : List (DifferenceWapper T) :=
  [{ column := "add", difference := { newValue := some (.collection newCollection) } }]

def compareCollectionDelete (oldCollection : Collection T) : List (DifferenceWapper T) :=
  [{ column := "delete", difference := { oldValue := some (.collection oldCollection) } }]

def compareCollectionUpdate (oldCollection newCollection : Collection T) :
    Except Thrown (List (DifferenceWapper T)) :=
  let oldSet := oldCollection.toSet
  let newSet := newCollection.toSet
  -- The intersection asks `newCollection` itself, not the set of its elements.
  (retainAll oldCollection.toSet newCollection).map fun result =>
    if result.card = newSet.card ∧ result.card = oldSet.card then []
    else
      let oldSet := oldSet \ result
      let newSet := newSet \ result
      (if oldSet = ∅ then [] else
        [{ column := "delete", difference := { oldValue := some (.set oldSet) } }]) ++
      (if newSet = ∅ then [] else
        [{ column := "add", difference := { newValue := some (.set newSet) } }])

/-- A collection that is not null and not empty. -/
def present (collection : Option (Collection T)) : Option (Collection T) :=
  collection.filter fun collection => !collection.elements.isEmpty

def compareCollectionList (oldCollection newCollection : Option (Collection T)) :
    Except Thrown (List (DifferenceWapper T)) :=
  match present oldCollection, present newCollection with
  | none, none => .error (.runtimeException "两个需要比较的集合不能都为空")
  | none, some newCollection => .ok (compareCollectionAdd newCollection)
  | some oldCollection, none => .ok (compareCollectionDelete oldCollection)
  | some oldCollection, some newCollection => compareCollectionUpdate oldCollection newCollection

def isDifference (oldCollection newCollection : Option (Collection T)) : Except Thrown Bool :=
  (compareCollectionList oldCollection newCollection).map fun report => !report.isEmpty

def toSet (collection : Option (Collection T)) : Finset T := collection.elim ∅ Collection.toSet

/-- The values in the entries of a column, on one side of their differences. -/
def reported (column : String) (side : Difference T → Option (Value T))
    (report : List (DifferenceWapper T)) : Finset T :=
  report.foldr (fun entry rest =>
    (if entry.column = column then ((side entry.difference).map Value.toSet).getD ∅ else ∅) ∪ rest) ∅

def deleted (report : List (DifferenceWapper T)) : Finset T := reported "delete" Difference.oldValue report

def added (report : List (DifferenceWapper T)) : Finset T := reported "add" Difference.newValue report

/-- A report is right if it lists what only one side has, and nothing for equal sets. -/
structure Reports (old new : Finset T) (report : List (DifferenceWapper T)) : Prop where
  deleted : deleted report = old \ new
  added : added report = new \ old
  empty : report = [] ↔ old = new

/-- The comparison of two collections, its own swap and the answer of `isDifference`. -/
structure Delta (oldCollection newCollection : Option (Collection T))
    (report swapped : List (DifferenceWapper T)) : Prop where
  compared : compareCollectionList oldCollection newCollection = .ok report
  back : compareCollectionList newCollection oldCollection = .ok swapped
  deleted_subset : deleted report ⊆ toSet oldCollection \ toSet newCollection
  added_subset : added report ⊆ toSet newCollection \ toSet oldCollection
  replay : (toSet oldCollection \ deleted report) ∪ added report = toSet newCollection
  empty : report = [] ↔ toSet oldCollection = toSet newCollection
  difference : isDifference oldCollection newCollection =
    .ok (decide (toSet oldCollection ≠ toSet newCollection))
  swapped_deleted : deleted swapped = added report
  swapped_added : added swapped = deleted report

/-- `contains` answers for these elements, without an exception and as `equals` does. -/
def Collection.AnswersFor (collection : Collection T) (elements : List T) : Prop :=
  ∀ element ∈ elements, collection.contains element = some (decide (element ∈ collection.elements))

/-- Where both collections have elements, each answers for those of the other. -/
def Answered (oldCollection newCollection : Option (Collection T)) : Prop :=
  ∀ old ∈ present oldCollection, ∀ new ∈ present newCollection,
    new.AnswersFor old.elements ∧ old.AnswersFor new.elements

theorem present_none_iff (collection : Option (Collection T)) :
    present collection = none ↔ toSet collection = ∅ := by
  cases collection <;> simp [present,toSet,Collection.toSet,Option.filter]

theorem toSet_of_present {collection : Option (Collection T)} {held : Collection T}
    (some : present collection = some held) : toSet collection = held.toSet := by
  obtain ⟨rfl,_⟩ := Option.filter_eq_some_iff.mp some
  rfl

theorem retainAll_ok_iff (result kept : Finset T) (collection : Collection T) :
    retainAll result collection = .ok kept ↔
      kept ⊆ result ∧ ∀ element ∈ result, collection.contains element = some (decide (element ∈ kept)) := by
  rw [retainAll]
  split
  next answers =>
    rw [Finset.filter_eq_empty_iff] at answers
    rw [Except.ok.injEq]
    constructor
    · rintro rfl
      refine ⟨Finset.filter_subset _ _,fun element mem => ?_⟩
      cases answer : collection.contains element with
      | none => exact absurd (by rw [answer]; rfl) (answers mem)
      | some held => cases held <;> simp [mem,answer]
    · rintro ⟨subset,asked⟩
      ext element
      rw [Finset.mem_filter]
      constructor
      · rintro ⟨mem,held⟩
        simpa [asked element mem] using held
      · intro held
        exact ⟨subset held,by simp [asked element (subset held),held]⟩
  next throws =>
    refine ⟨nofun,fun ⟨_,asked⟩ => absurd ?_ throws⟩
    rw [Finset.filter_eq_empty_iff]
    intro element mem
    rw [asked element mem]
    nofun

/-- The intersection is the right one exactly if the new collection answers. -/
theorem retainAll_inter_iff (old new : Collection T) :
    retainAll old.toSet new = .ok (old.toSet ∩ new.toSet) ↔ new.AnswersFor old.elements := by
  rw [retainAll_ok_iff,Collection.AnswersFor]
  simp only [Finset.inter_subset_left,true_and,Finset.mem_inter,Collection.toSet,List.mem_toFinset]
  refine forall₂_congr fun element mem => ?_
  simp only [mem,true_and]

private theorem card_inter_iff (old new : Finset T) :
    (old ∩ new).card = new.card ∧ (old ∩ new).card = old.card ↔ old = new := by
  constructor
  · rintro ⟨asNew,asOld⟩
    have wholeNew := Finset.eq_of_subset_of_card_le Finset.inter_subset_right asNew.ge
    have wholeOld := Finset.eq_of_subset_of_card_le Finset.inter_subset_left asOld.ge
    rw [← wholeOld,wholeNew]
  · rintro rfl
    rw [Finset.inter_self]
    exact ⟨rfl,rfl⟩

theorem compareCollectionAdd_reports (newCollection : Collection T) (some : newCollection.toSet ≠ ∅) :
    Reports ∅ newCollection.toSet (compareCollectionAdd newCollection) where
  deleted := by simp [CompareDifferenceUtil.deleted,reported,compareCollectionAdd]
  added := by simp [CompareDifferenceUtil.added,reported,compareCollectionAdd,Value.toSet]
  empty := ⟨nofun,fun same => absurd same.symm some⟩

theorem compareCollectionDelete_reports (oldCollection : Collection T) (some : oldCollection.toSet ≠ ∅) :
    Reports oldCollection.toSet ∅ (compareCollectionDelete oldCollection) where
  deleted := by simp [CompareDifferenceUtil.deleted,reported,compareCollectionDelete,Value.toSet]
  added := by simp [CompareDifferenceUtil.added,reported,compareCollectionDelete]
  empty := ⟨nofun,fun same => absurd same some⟩

theorem reported_append (column : String) (side : Difference T → Option (Value T))
    (first second : List (DifferenceWapper T)) : reported column side (first ++ second) =
      reported column side first ∪ reported column side second := by
  induction first with
  | nil => simp [reported]
  | cons entry rest ih =>
    simp only [reported,List.cons_append,List.foldr_cons] at ih ⊢
    rw [ih,Finset.union_assoc]

theorem reported_optional (column : String) (side : Difference T → Option (Value T))
    (elements held : Finset T) (entry : DifferenceWapper T) (none : elements = ∅ → held = ∅)
    (single : reported column side [entry] = held) :
    reported column side (if elements = ∅ then [] else [entry]) = held := by
  split
  next empty => exact (none empty).symm
  next => exact single

/-- The deleted elements are the ones not kept, whatever the collection answered. -/
theorem retainAll_of_update {old new : Collection T} {report : List (DifferenceWapper T)}
    (compared : compareCollectionUpdate old new = .ok report) :
    retainAll old.toSet new = .ok (old.toSet \ deleted report) := by
  rw [compareCollectionUpdate] at compared
  cases asked : retainAll old.toSet new with
  | error thrown => rw [asked] at compared; cases compared
  | ok kept =>
    rw [asked] at compared
    have subset := ((retainAll_ok_iff _ _ _).mp asked).1
    have dropped : deleted report = old.toSet \ kept := by
      obtain rfl := Except.ok.inj compared
      beta_reduce
      split
      next same =>
        have whole := Finset.eq_of_subset_of_card_le subset same.2.ge
        simp [deleted,reported,whole]
      next =>
        rw [deleted,reported_append,
          reported_optional _ _ _ (old.toSet \ kept) _ id (by simp [reported,Value.toSet]),
          reported_optional _ _ _ ∅ _ (fun _ => rfl) (by simp [reported]),Finset.union_empty]
    rw [dropped,Finset.sdiff_sdiff_eq_self subset]

theorem compareCollectionUpdate_eq {old new : Collection T} (answers : new.AnswersFor old.elements) :
    compareCollectionUpdate old new = .ok (
      if old.toSet = new.toSet then [] else
      (if old.toSet \ new.toSet = ∅ then [] else
        [{ column := "delete", difference := { oldValue := some (.set (old.toSet \ new.toSet)) } }]) ++
      (if new.toSet \ old.toSet = ∅ then [] else
        [{ column := "add", difference := { newValue := some (.set (new.toSet \ old.toSet)) } }])) := by
  simp only [compareCollectionUpdate,(retainAll_inter_iff old new).mpr answers,Except.map,card_inter_iff,
    Finset.sdiff_inter_self_left,Finset.sdiff_inter_self_right]

theorem compareCollectionUpdate_reports {oldCollection newCollection : Collection T}
    (answers : newCollection.AnswersFor oldCollection.elements) :
    ∃ report, compareCollectionUpdate oldCollection newCollection = .ok report ∧
      Reports oldCollection.toSet newCollection.toSet report := by
  refine ⟨_,compareCollectionUpdate_eq answers,?_⟩
  generalize oldCollection.toSet = old
  generalize newCollection.toSet = new
  by_cases same : old = new
  · subst same
    rw [if_pos rfl]
    exact ⟨by simp [deleted,reported],by simp [added,reported],⟨fun _ => rfl,fun _ => rfl⟩⟩
  · rw [if_neg same]
    refine ⟨?_,?_,?_⟩
    · rw [deleted,reported_append,
        reported_optional _ _ _ (old \ new) _ id (by simp [reported,Value.toSet]),
        reported_optional _ _ _ ∅ _ (fun _ => rfl) (by simp [reported]),Finset.union_empty]
    · rw [added,reported_append,
        reported_optional _ _ _ ∅ _ (fun _ => rfl) (by simp [reported]),
        reported_optional _ _ _ (new \ old) _ id (by simp [reported,Value.toSet]),Finset.empty_union]
    · -- Two different sets: one of the two differences has an element.
      refine ⟨fun empty => ?_,fun equal => absurd equal same⟩
      obtain ⟨noneDeleted,noneAdded⟩ := List.append_eq_nil_iff.mp empty
      have left : old \ new = ∅ := by
        by_contra some
        rw [if_neg some] at noneDeleted
        cases noneDeleted
      have right : new \ old = ∅ := by
        by_contra some
        rw [if_neg some] at noneAdded
        cases noneAdded
      exact (Finset.sdiff_eq_empty_iff_subset.mp left).antisymm (Finset.sdiff_eq_empty_iff_subset.mp right)

theorem Answered.symm {oldCollection newCollection : Option (Collection T)}
    (answered : Answered oldCollection newCollection) : Answered newCollection oldCollection :=
  fun new isNew old isOld => (answered old isOld new isNew).symm

theorem compareCollectionList_reports (oldCollection newCollection : Option (Collection T))
    (some : ¬ (toSet oldCollection = ∅ ∧ toSet newCollection = ∅))
    (answered : Answered oldCollection newCollection) :
    ∃ report, compareCollectionList oldCollection newCollection = .ok report ∧
      Reports (toSet oldCollection) (toSet newCollection) report := by
  rw [compareCollectionList]
  cases isOld : present oldCollection with
  | none =>
    have noOld := (present_none_iff _).mp isOld
    cases isNew : present newCollection with
    | none => exact absurd ⟨noOld,(present_none_iff _).mp isNew⟩ some
    | some new =>
      rw [toSet_of_present isNew,noOld] at some ⊢
      exact ⟨_,rfl,compareCollectionAdd_reports _ fun noNew => some ⟨rfl,noNew⟩⟩
  | some old =>
    cases isNew : present newCollection with
    | none =>
      have noNew := (present_none_iff _).mp isNew
      rw [toSet_of_present isOld,noNew] at some ⊢
      exact ⟨_,rfl,compareCollectionDelete_reports _ fun noOld => some ⟨noOld,rfl⟩⟩
    | some new =>
      rw [toSet_of_present isOld,toSet_of_present isNew]
      exact compareCollectionUpdate_reports (answered old isOld new isNew).1

theorem delta_of_reports {oldCollection newCollection : Option (Collection T)}
    {report swapped : List (DifferenceWapper T)}
    (compared : compareCollectionList oldCollection newCollection = .ok report)
    (back : compareCollectionList newCollection oldCollection = .ok swapped)
    (reports : Reports (toSet oldCollection) (toSet newCollection) report)
    (backReports : Reports (toSet newCollection) (toSet oldCollection) swapped) :
    Delta oldCollection newCollection report swapped where
  compared := compared
  back := back
  deleted_subset := reports.deleted.subset
  added_subset := reports.added.subset
  replay := by
    rw [reports.deleted,reports.added,sdiff_sdiff_right_self,Finset.inf_eq_inter,Finset.inter_comm,
      Finset.union_comm]
    exact Finset.sdiff_union_inter _ _
  empty := reports.empty
  difference := by
    rw [isDifference,compared]
    apply congrArg Except.ok
    rw [Bool.eq_iff_iff,decide_eq_true_eq,Ne,← reports.empty,Bool.not_eq_true',List.isEmpty_eq_false_iff]
  swapped_deleted := backReports.deleted.trans reports.added.symm
  swapped_added := backReports.added.trans reports.deleted.symm

/-- A comparison that deletes the right elements has asked a collection that answers. -/
theorem answersFor_of_deleted {old new : Collection T} {report : List (DifferenceWapper T)}
    (compared : compareCollectionUpdate old new = .ok report)
    (right : deleted report = old.toSet \ new.toSet) : new.AnswersFor old.elements := by
  have asked := retainAll_of_update compared
  rw [right,sdiff_sdiff_right_self] at asked
  exact (retainAll_inter_iff old new).mp asked

theorem compare_delta (oldCollection newCollection : Option (Collection T))
    (some : ¬ (toSet oldCollection = ∅ ∧ toSet newCollection = ∅)) :
    (∃ report swapped, Delta oldCollection newCollection report swapped) ↔
      Answered oldCollection newCollection := by
  constructor
  · rintro ⟨report,swapped,delta⟩ old isOld new isNew
    have compared := delta.compared
    have back := delta.back
    have deletedSubset := delta.deleted_subset
    have replay := delta.replay
    rw [compareCollectionList,isOld,isNew] at compared
    rw [compareCollectionList,isNew,isOld] at back
    rw [toSet_of_present isOld,toSet_of_present isNew] at deletedSubset replay
    -- What is not deleted is in the new set, and nothing of the new set is deleted.
    have right : deleted report = old.toSet \ new.toSet := by
      refine deletedSubset.antisymm fun element mem => ?_
      obtain ⟨isOld,notNew⟩ := Finset.mem_sdiff.mp mem
      by_contra notDeleted
      exact notNew (replay ▸ Finset.mem_union_left _ (Finset.mem_sdiff.mpr ⟨isOld,notDeleted⟩))
    have answers := answersFor_of_deleted compared right
    obtain ⟨same,again,reports⟩ := compareCollectionUpdate_reports answers
    obtain rfl := Except.ok.inj (compared.symm.trans again)
    exact ⟨answers,answersFor_of_deleted back (delta.swapped_deleted.trans reports.added)⟩
  · intro answered
    obtain ⟨report,compared,reports⟩ := compareCollectionList_reports _ _ some answered
    obtain ⟨swapped,back,backReports⟩ := compareCollectionList_reports newCollection oldCollection
      (fun both => some both.symm) answered.symm
    exact ⟨report,swapped,delta_of_reports compared back reports backReports⟩

/-- A list answers by `equals`. -/
def listed (elements : List T) : Collection T := ⟨elements,fun element => some (decide (element ∈ elements))⟩

theorem compare_delta_lists :
    ∃ report swapped, Delta (some (listed [1,2,2])) (some (listed [2,3])) report swapped :=
  (compare_delta (some (listed [1,2,2])) (some (listed [2,3])) (by decide)).mpr
    fun _ isOld _ isNew => by
      obtain rfl := Option.some.inj isOld
      obtain rfl := Option.some.inj isNew
      exact ⟨fun _ _ => rfl,fun _ _ => rfl⟩

/-- A `TreeSet` of texts that orders by length finds another text of the same length, and throws
for `null`. -/
def byLength (elements : List String) : Collection (Option String) where
  elements := elements.map some
  contains := fun element => element.map fun text => elements.any fun held => held.length == text.length

theorem compare_not_delta :
    (¬ ∃ report swapped,
      Delta (some (listed [some "a",none])) (some (byLength ["a"])) report swapped) ∧
    ¬ ∃ report swapped, Delta (some (listed [some "a"])) (some (byLength ["b"])) report swapped := by
  refine ⟨fun ⟨report,swapped,delta⟩ => ?_,fun ⟨report,swapped,delta⟩ => ?_⟩
  · have threw : compareCollectionList (some (listed [some "a",none])) (some (byLength ["a"])) =
        .error .contains := rfl
    cases threw.symm.trans delta.compared
  · have unchanged : compareCollectionList (some (listed [some "a"])) (some (byLength ["b"])) = .ok [] := rfl
    have same := delta.empty.mp (Except.ok.inj (unchanged.symm.trans delta.compared)).symm
    exact absurd same (by decide)

end YzFramework.Util.CompareDifferenceUtil
