import YzFramework.Library.Table
import Mathlib.Data.List.Infix

/-! Trees of named nodes with data, addressed by paths. A path lists the names from
the node up to the top, so that the head is the node's own name and the tail its
parent's path. -/
namespace YzFramework.Library

structure NodeTree (Name Data : Type*) where
  nodes : Table (List Name) Data
  closed : ∀ name parent, name::parent ∈ nodes → parent ∈ nodes

namespace NodeTree

variable {Name Data : Type*} [DecidableEq Name]

def empty : NodeTree Name Data := ⟨∅,fun _ _ member => absurd member (AList.notMem_empty _)⟩

def data (tree : NodeTree Name Data) (path : List Name) : Option Data := tree.nodes.lookup path

/-- The place for a node: the top needs none above it. -/
def Seated (tree : NodeTree Name Data) : List Name → Prop
  | [] => True
  | _::parent => parent ∈ tree.nodes

instance (tree : NodeTree Name Data) : DecidablePred tree.Seated
  | [] => isTrue trivial
  | _::parent => inferInstanceAs (Decidable (parent ∈ tree.nodes))

def childOf (path : List Name) : List Name → Option Name
  | [] => none
  | name::parent => if parent = path then some name else none

def children (tree : NodeTree Name Data) (path : List Name) : List Name :=
  tree.nodes.keys.filterMap (childOf path)

def Leaf (tree : NodeTree Name Data) (path : List Name) : Prop :=
  path ∈ tree.nodes ∧ tree.children path = []

instance (tree : NodeTree Name Data) : DecidablePred tree.Leaf := fun _ =>
  inferInstanceAs (Decidable (_ ∧ _))

theorem childOf_eq (path : List Name) (other : List Name) (name : Name) :
    childOf path other = some name ↔ other = name::path := by
  cases other with
  | nil => simp [childOf]
  | cons first parent =>
    by_cases same : parent = path
    · simp [childOf,same]
    · simp [childOf,same]

theorem mem_children (tree : NodeTree Name Data) (path : List Name) (name : Name) :
    name ∈ tree.children path ↔ name::path ∈ tree.nodes := by
  simp only [children,List.mem_filterMap,childOf_eq,AList.mem_keys]
  constructor
  · intro found
    obtain ⟨other,member,rfl⟩ := found
    exact member
  · exact fun member => ⟨_,member,rfl⟩

theorem leaf_iff (tree : NodeTree Name Data) (path : List Name) :
    tree.Leaf path ↔ path ∈ tree.nodes ∧ ∀ name, name::path ∉ tree.nodes := by
  simp only [Leaf,List.eq_nil_iff_forall_not_mem,mem_children]

omit [DecidableEq Name] in
theorem mem_of_suffix (tree : NodeTree Name Data) {upper path : List Name} (above : upper <:+ path)
    (member : path ∈ tree.nodes) : upper ∈ tree.nodes := by
  obtain ⟨lower,rfl⟩ := above
  induction lower with
  | nil => exact member
  | cons name rest ih => exact ih (tree.closed name _ member)

def put (tree : NodeTree Name Data) (path : List Name) (value : Data) (seated : tree.Seated path) :
    NodeTree Name Data where
  nodes := tree.nodes.insert path value
  closed := fun name parent member => by
    rw [AList.mem_insert] at member ⊢
    rcases member with rfl | member
    · exact .inr seated
    · exact .inr (tree.closed name parent member)

def create (tree : NodeTree Name Data) (path : List Name) (value : Data) :
    Option (NodeTree Name Data) :=
  if path ∈ tree.nodes then none
  else if seated : tree.Seated path then some (tree.put path value seated)
  else none

omit [DecidableEq Name] in
theorem seated_of_mem (tree : NodeTree Name Data) (path : List Name) (member : path ∈ tree.nodes) :
    tree.Seated path := by
  cases path with
  | nil => trivial
  | cons name parent => exact tree.closed name parent member

def setData (tree : NodeTree Name Data) (path : List Name) (value : Data) :
    Option (NodeTree Name Data) :=
  if member : path ∈ tree.nodes then some (tree.put path value (tree.seated_of_mem path member))
  else none

def delete (tree : NodeTree Name Data) (path : List Name) : Option (NodeTree Name Data) :=
  if leaf : tree.Leaf path then
    some {
      nodes := tree.nodes.erase path
      closed := fun name parent member => by
        rw [AList.mem_erase] at member ⊢
        refine ⟨fun same => ?_,tree.closed name parent member.2⟩
        subst same
        exact ((tree.leaf_iff parent).mp leaf).2 name member.2 }
  else none

theorem data_eq_none (tree : NodeTree Name Data) (path : List Name) :
    tree.data path = none ↔ path ∉ tree.nodes := AList.lookup_eq_none

theorem mem_congr {tree other : NodeTree Name Data} {path : List Name} (same : tree.data path = other.data path) :
    path ∈ tree.nodes ↔ path ∈ other.nodes := by
  rw [← not_iff_not,← data_eq_none,← data_eq_none,same]

theorem mem_of_data {tree : NodeTree Name Data} {path : List Name} {value : Data}
    (found : tree.data path = some value) : path ∈ tree.nodes :=
  AList.lookup_isSome.mp (Option.isSome_iff_exists.mpr ⟨value,found⟩)

theorem data_of_mem {tree : NodeTree Name Data} {path : List Name} (member : path ∈ tree.nodes) :
    ∃ value, tree.data path = some value :=
  Option.isSome_iff_exists.mp (AList.lookup_isSome.mpr member)

theorem data_put (tree : NodeTree Name Data) (path other : List Name) (value : Data)
    (seated : tree.Seated path) : (tree.put path value seated).data other =
      if other = path then some value else tree.data other := Table.lookup_put _ _ _ _

theorem mem_put (tree : NodeTree Name Data) (path other : List Name) (value : Data)
    (seated : tree.Seated path) :
    other ∈ (tree.put path value seated).nodes ↔ other = path ∨ other ∈ tree.nodes :=
  AList.mem_insert _

theorem create_some {tree after : NodeTree Name Data} {path : List Name} {value : Data}
    (created : tree.create path value = some after) :
    path ∉ tree.nodes ∧ ∃ seated, after = tree.put path value seated := by
  unfold create at created
  split at created
  next => contradiction
  next absent =>
    split at created
    next seated => exact ⟨absent,seated,(Option.some.inj created).symm⟩
    next => contradiction

theorem setData_some {tree after : NodeTree Name Data} {path : List Name} {value : Data}
    (written : tree.setData path value = some after) :
    path ∈ tree.nodes ∧ ∃ seated, after = tree.put path value seated := by
  unfold setData at written
  split at written
  next member => exact ⟨member,_,(Option.some.inj written).symm⟩
  next => contradiction

theorem delete_some {tree after : NodeTree Name Data} {path : List Name}
    (deleted : tree.delete path = some after) :
    tree.Leaf path ∧ (∀ other, other ∈ after.nodes ↔ other ≠ path ∧ other ∈ tree.nodes) ∧
      ∀ other, after.data other = if other = path then none else tree.data other := by
  unfold delete at deleted
  split at deleted
  next leaf =>
    rw [← Option.some.inj deleted]
    exact ⟨leaf,fun other => AList.mem_erase,fun other => Table.lookup_remove _ _ _⟩
  next => contradiction

theorem leaf_create {tree after : NodeTree Name Data} {path : List Name} {value : Data}
    (created : tree.create path value = some after) (other : List Name) :
    after.Leaf other ↔ other = path ∨ tree.Leaf other ∧ ∀ name, name::other ≠ path := by
  obtain ⟨absent,seated,rfl⟩ := create_some created
  simp only [leaf_iff,mem_put,not_or]
  constructor
  · intro leaf
    obtain ⟨here | member,childless⟩ := leaf
    · exact .inl here
    · exact .inr ⟨⟨member,fun name => (childless name).2⟩,fun name => (childless name).1⟩
  · intro either
    rcases either with here | leaf
    · subst here
      refine ⟨.inl rfl,fun name => ⟨fun same => ?_,fun member => absent (tree.closed name _ member)⟩⟩
      exact absurd (congrArg List.length same) (by simp)
    · obtain ⟨⟨member,childless⟩,apart⟩ := leaf
      exact ⟨.inr member,fun name => ⟨apart name,childless name⟩⟩

theorem leaf_setData {tree after : NodeTree Name Data} {path : List Name} {value : Data}
    (written : tree.setData path value = some after) (other : List Name) :
    after.Leaf other ↔ tree.Leaf other := by
  obtain ⟨member,seated,rfl⟩ := setData_some written
  have same : ∀ place, place ∈ (tree.put path value seated).nodes ↔ place ∈ tree.nodes := by
    intro place
    rw [mem_put]
    exact ⟨fun either => either.elim (fun here => here ▸ member) id,.inr⟩
  simp only [leaf_iff,same]

theorem leaf_delete {tree after : NodeTree Name Data} {path : List Name}
    (deleted : tree.delete path = some after) (other : List Name) :
    after.Leaf other ↔ other ≠ path ∧ other ∈ tree.nodes ∧
      ∀ name, name::other ∈ tree.nodes → name::other = path := by
  obtain ⟨_,member,_⟩ := delete_some deleted
  simp only [leaf_iff,member,not_and_or,not_not]
  constructor
  · intro leaf
    obtain ⟨⟨apart,present⟩,childless⟩ := leaf
    exact ⟨apart,present,fun name inside => (childless name).resolve_right (not_not.mpr inside)⟩
  · intro leaf
    obtain ⟨apart,present,only⟩ := leaf
    refine ⟨⟨apart,present⟩,fun name => ?_⟩
    by_cases inside : name::other ∈ tree.nodes
    · exact .inl (only name inside)
    · exact .inr inside

def visit (tree : NodeTree Name Data) : ℕ → List Name → List (List Name)
  | 0,_ => []
  | fuel+1,path => path::(tree.children path).flatMap fun name => visit tree fuel (name::path)

def height (tree : NodeTree Name Data) : ℕ := (tree.nodes.keys.map List.length).foldr max 0+1

omit [DecidableEq Name] in
theorem length_lt_height (tree : NodeTree Name Data) (path : List Name)
    (member : path ∈ tree.nodes) : path.length < tree.height := by
  have bounded : ∀ lengths : List ℕ, ∀ length ∈ lengths, length ≤ lengths.foldr max 0 := by
    intro lengths
    induction lengths with
    | nil => simp
    | cons first rest ih =>
      intro length inside
      rcases List.mem_cons.mp inside with rfl | later
      · exact Nat.le_max_left _ _
      · exact Nat.le_trans (ih length later) (Nat.le_max_right _ _)
  exact Nat.lt_succ_of_le (bounded _ _ (List.mem_map_of_mem (AList.mem_keys.mp member)))

omit [DecidableEq Name] in
theorem suffix_step {upper path : List Name} (above : upper <:+ path) (apart : path ≠ upper) :
    ∃ name, name::upper <:+ path := by
  obtain ⟨lower,rfl⟩ := above
  rcases List.eq_nil_or_concat lower with rfl | ⟨rest,name,rfl⟩
  · exact absurd rfl apart
  · exact ⟨name,rest,by simp⟩

theorem mem_visit (tree : NodeTree Name Data) (fuel : ℕ) (top path : List Name)
    (present : top ∈ tree.nodes) : path ∈ tree.visit fuel top ↔
      top <:+ path ∧ path ∈ tree.nodes ∧ path.length < top.length+fuel := by
  induction fuel generalizing top with
  | zero =>
    simp only [visit,List.not_mem_nil,Nat.add_zero,false_iff,not_and,not_lt]
    exact fun above _ => above.length_le
  | succ fuel ih =>
    simp only [visit,List.mem_cons,List.mem_flatMap]
    constructor
    · intro reached
      rcases reached with rfl | ⟨name,child,deeper⟩
      · exact ⟨List.suffix_rfl,present,by omega⟩
      · obtain ⟨above,member,near⟩ := (ih _ ((tree.mem_children top name).mp child)).mp deeper
        refine ⟨(List.suffix_cons name top).trans above,member,?_⟩
        rw [List.length_cons] at near
        omega
    · intro inside
      obtain ⟨above,member,near⟩ := inside
      by_cases here : path = top
      · exact .inl here
      · obtain ⟨name,lower⟩ := suffix_step above here
        have child := tree.mem_of_suffix lower member
        refine .inr ⟨name,(tree.mem_children top name).mpr child,(ih _ child).mpr ⟨lower,member,?_⟩⟩
        rw [List.length_cons]
        omega

theorem mem_visit_height (tree : NodeTree Name Data) (top path : List Name)
    (present : top ∈ tree.nodes) :
    path ∈ tree.visit tree.height top ↔ top <:+ path ∧ path ∈ tree.nodes := by
  rw [mem_visit tree _ top path present]
  constructor
  · exact fun inside => ⟨inside.1,inside.2.1⟩
  · intro inside
    have short := tree.length_lt_height path inside.2
    exact ⟨inside.1,inside.2,by omega⟩

theorem children_nodup (tree : NodeTree Name Data) (path : List Name) :
    (tree.children path).Nodup := by
  apply tree.nodes.keys_nodup.filterMap
  intro first second name here there
  rw [(childOf_eq path first name).mp here,(childOf_eq path second name).mp there]

theorem visit_below (tree : NodeTree Name Data) (fuel : ℕ) (top : List Name) :
    ∀ path ∈ tree.visit fuel top, top <:+ path := by
  induction fuel generalizing top with
  | zero => simp [visit]
  | succ fuel ih =>
    intro path reached
    rcases List.mem_cons.mp reached with rfl | deeper
    · exact List.suffix_rfl
    · obtain ⟨name,_,inside⟩ := List.mem_flatMap.mp deeper
      exact (List.suffix_cons name top).trans (ih (name::top) path inside)

theorem visit_nodup (tree : NodeTree Name Data) (fuel : ℕ) (top : List Name) :
    (tree.visit fuel top).Nodup := by
  induction fuel generalizing top with
  | zero => exact List.nodup_nil
  | succ fuel ih =>
    refine List.nodup_cons.mpr ⟨fun again => ?_,List.nodup_flatMap.mpr ⟨fun name _ => ih _,?_⟩⟩
    · obtain ⟨name,_,inside⟩ := List.mem_flatMap.mp again
      have longer := (tree.visit_below fuel (name::top) top inside).length_le
      rw [List.length_cons] at longer
      omega
    · refine (tree.children_nodup top).imp fun apart path here there => apart ?_
      have first := tree.visit_below fuel _ path here
      have second := tree.visit_below fuel _ path there
      have nested := List.suffix_of_suffix_length_le first second (le_of_eq rfl)
      exact (List.cons.inj (nested.eq_of_length rfl)).1

section Map
variable {Other : Type*} (tree : NodeTree Name Data) (f : Data → Other)

def map : NodeTree Name Other where
  nodes := tree.nodes.mapValues f
  closed := fun name parent member => by
    rw [Table.mem_mapValues] at member ⊢
    exact tree.closed name parent member

omit [DecidableEq Name] in
theorem mem_map (path : List Name) : path ∈ (tree.map f).nodes ↔ path ∈ tree.nodes :=
  Table.mem_mapValues f tree.nodes path

theorem leaf_map (path : List Name) : (tree.map f).Leaf path ↔ tree.Leaf path := by
  simp only [leaf_iff,mem_map]

end Map

end NodeTree
end YzFramework.Library
