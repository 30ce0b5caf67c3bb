import YzFramework.Library.NodeTree
import YzFramework.Library.Run
import YzFramework.Library.Text

/-! `PropertyRegistry`: configuration nodes mirrored into `ALL_PROPERTIES`. Every read
registers a watcher of its own, watches fire once and belong to a session, and the
event thread handles one notice at a time, in the order in which they were sent. -/
namespace YzFramework.Config
open Library Library.Run

/-- A node's path below the configuration root, its own name first. -/
abbrev NodePath := List String

abbrev ConfigTree := NodeTree String (Option String)

/-- `derived` is bookkeeping: the value was put after a read from ZooKeeper. -/
structure Property where
  value : String
  derived : Bool
deriving DecidableEq

inductive EventType
  | nodeDataChanged
  | nodeChildrenChanged
  | nodeDeleted
deriving DecidableEq

/-- The nodes, the watchers by kind and path, the notices sent and not yet handled,
whether the session has expired, and the properties. -/
structure PropertyRegistry where
  tree : ConfigTree
  dataWatches : NodePath → ℕ := fun _ => 0
  childWatches : NodePath → ℕ := fun _ => 0
  pending : List (EventType × NodePath) := []
  expired : Bool := false
  ALL_PROPERTIES : Table String Property

namespace PropertyRegistry

def getFullPath (path childPath : String) : String :=
  if Text.blank path || path == "/" then "/" ++ childPath else path ++ "/" ++ childPath

def fullPath : NodePath → String
  | [] => "/"
  | name::parent => getFullPath (fullPath parent) name

def buildPropertyName (fullPath : String) : String :=
  match fullPath.toList.map fun character => if character = '/' then '.' else character with
  | '.'::rest => String.ofList rest
  | text => String.ofList text

def nameOf (path : NodePath) : String := buildPropertyName (fullPath path)

def valueOf (tree : ConfigTree) (path : NodePath) : String := (tree.data path).join.getD ""

def visited (tree : ConfigTree) (path : NodePath) : List NodePath := tree.visit tree.height path

def leaves (tree : ConfigTree) (path : NodePath) : List NodePath :=
  (visited tree path).filter fun node => tree.Leaf node

def loaded (tree : ConfigTree) (path : NodePath) : List (String × Property) :=
  (leaves tree path).map fun node => (nameOf node,⟨valueOf tree node,true⟩)

def watched (registry : PropertyRegistry) (path : NodePath) : PropertyRegistry :=
  {registry with
    dataWatches := fun node => registry.dataWatches node+(leaves registry.tree path).count node
    childWatches := fun node => registry.childWatches node+(visited registry.tree path).count node}

/-- The test is `ConcurrentHashMap.contains`, which looks for a value. -/
def deleteChildProperties (propertyName : String) (properties : Table String Property) :
    Table String Property :=
  if Table.holds properties fun property => property.value == propertyName then
    Table.removeWhere properties fun key => Text.startsWith key (propertyName ++ ".")
  else properties

def reloadChildPropertiesForPath (registry : PropertyRegistry) (path : NodePath) :
    PropertyRegistry :=
  if registry.expired then registry
  else if path ∈ registry.tree.nodes then
    {watched registry path with
      ALL_PROPERTIES := Table.putAll
        (deleteChildProperties (nameOf path) registry.ALL_PROPERTIES) (loaded registry.tree path)}
  else registry

def deletePropertiesForPath (registry : PropertyRegistry) (path : NodePath) : PropertyRegistry :=
  {registry with
    ALL_PROPERTIES :=
      (deleteChildProperties (nameOf path) registry.ALL_PROPERTIES).erase (nameOf path)}

def reloadPropertyForPath (registry : PropertyRegistry) (path : NodePath) : PropertyRegistry :=
  if registry.expired then registry
  else if path ∈ registry.tree.nodes then
    {registry with
      dataWatches := Function.update registry.dataWatches path (registry.dataWatches path+1)
      ALL_PROPERTIES :=
        registry.ALL_PROPERTIES.insert (nameOf path) ⟨valueOf registry.tree path,true⟩}
  else registry

/-- A first start, or the reconnect that handles an expired session. -/
def startLoadPropertiesFromZK (registry : PropertyRegistry) : PropertyRegistry :=
  if [] ∈ registry.tree.nodes then
    {watched registry [] with
      expired := false
      ALL_PROPERTIES := Table.putAll registry.ALL_PROPERTIES (loaded registry.tree [])}
  else {registry with expired := false}

def process (registry : PropertyRegistry) : EventType → NodePath → PropertyRegistry
  | .nodeDataChanged,path => reloadPropertyForPath registry path
  | .nodeChildrenChanged,path => reloadChildPropertiesForPath registry path
  | .nodeDeleted,path => deletePropertiesForPath registry path

/-- When a session expires, the notices beyond the kept ones have not reached the client. -/
inductive Event
  | create (name : String) (parent : NodePath) (data : Option String)
  | setData (path : NodePath) (data : Option String)
  | delete (name : String) (parent : NodePath)
  | deliver
  | expire (kept : ℕ)

def create (registry : PropertyRegistry) (name : String) (parent : NodePath)
    (data : Option String) : PropertyRegistry :=
  match registry.tree.create (name::parent) data with
  | none => registry
  | some tree => {registry with
      tree
      childWatches := Function.update registry.childWatches parent 0
      pending := registry.pending++
        List.replicate (registry.childWatches parent) (.nodeChildrenChanged,parent)}

def setData (registry : PropertyRegistry) (path : NodePath) (data : Option String) :
    PropertyRegistry :=
  match registry.tree.setData path data with
  | none => registry
  | some tree => {registry with
      tree
      dataWatches := Function.update registry.dataWatches path 0
      pending := registry.pending++
        List.replicate (registry.dataWatches path) (.nodeDataChanged,path)}

def delete (registry : PropertyRegistry) (name : String) (parent : NodePath) : PropertyRegistry :=
  let path := name::parent
  match registry.tree.delete path with
  | none => registry
  | some tree => {registry with
      tree
      dataWatches := Function.update registry.dataWatches path 0
      childWatches := Function.update (Function.update registry.childWatches path 0) parent 0
      pending := registry.pending++
        List.replicate (registry.dataWatches path+registry.childWatches path) (.nodeDeleted,path)++
        List.replicate (registry.childWatches parent) (.nodeChildrenChanged,parent)}

def deliver (registry : PropertyRegistry) : PropertyRegistry :=
  match registry.pending with
  | (type,path)::rest => process {registry with pending := rest} type path
  | [] => if registry.expired then startLoadPropertiesFromZK registry else registry

def expire (registry : PropertyRegistry) (kept : ℕ) : PropertyRegistry :=
  if registry.expired then registry
  else {registry with
    dataWatches := fun _ => 0
    childWatches := fun _ => 0
    pending := registry.pending.take kept
    expired := true}

def step (registry : PropertyRegistry) : Event → PropertyRegistry
  | .create name parent data => create registry name parent data
  | .setData path data => setData registry path data
  | .delete name parent => delete registry name parent
  | .deliver => deliver registry
  | .expire kept => expire registry kept

/-- Before the first load, with the local properties in the map. -/
def initial (tree : ConfigTree) (properties : List (String × String)) : PropertyRegistry where
  tree
  expired := true
  ALL_PROPERTIES := Table.putAll ∅ (properties.map fun pair => (pair.1,⟨pair.2,false⟩))

def derivedAt (properties : Table String Property) (key : String) : Option String :=
  (properties.lookup key).bind fun property => if property.derived then some property.value else none

def Quiet (registry : PropertyRegistry) : Prop :=
  registry.pending = [] ∧ registry.expired = false

def Converged (registry : PropertyRegistry) : Prop :=
  ∀ key value, derivedAt registry.ALL_PROPERTIES key = some value ↔
    ∃ path, registry.tree.Leaf path ∧ nameOf path = key ∧ valueOf registry.tree path = value

/-- The node and what is below it will be loaded again. -/
def Covered (registry : PropertyRegistry) (path : NodePath) : Prop :=
  registry.expired = true ∨ ∃ upper, upper <:+ path ∧ (.nodeChildrenChanged,upper) ∈ registry.pending

def Refreshing (registry : PropertyRegistry) (path : NodePath) : Prop :=
  (.nodeDataChanged,path) ∈ registry.pending ∨ Covered registry path

def Dropping (registry : PropertyRegistry) (key : String) : Prop :=
  ∃ path, (.nodeDeleted,path) ∈ registry.pending ∧ nameOf path = key

def Named (tree : ConfigTree) (key : String) : Prop := ∃ path, tree.Leaf path ∧ nameOf path = key

/-- The key of a leaf that ceases to be one is not there, or another leaf has it, or it
is about to be removed. -/
def Spared (registry : PropertyRegistry) (path : NodePath) : Prop :=
  derivedAt registry.ALL_PROPERTIES (nameOf path) = none ∨
    (∃ other, other ≠ path ∧ registry.tree.Leaf other ∧ nameOf other = nameOf path) ∨
    Dropping registry (nameOf path)

/-- `deleteChildProperties` for the upper node removes the key. -/
def Cleared (registry : PropertyRegistry) (upper : NodePath) (key : String) : Prop :=
  (∃ other property, registry.ALL_PROPERTIES.lookup other = some property ∧
    property.value = nameOf upper) ∧ Text.startsWith key (nameOf upper ++ ".") = true

/-- What a notice has to find when it is handled, with the later ones still pending.
Children read anew agree with all leaves of their names, and the keys removed around
them belong to no other leaf; data are read at a leaf, or at a key to be removed; a
removed key belongs to no leaf. Leaves that will be loaded again are free. -/
def FitNotice (registry : PropertyRegistry) : EventType → NodePath → Prop
  | .nodeChildrenChanged,upper =>
    registry.expired = false → upper ∈ registry.tree.nodes →
      ∀ leaf, registry.tree.Leaf leaf → Refreshing registry leaf ∨
        (∀ other, upper <:+ other → registry.tree.Leaf other → nameOf other = nameOf leaf →
          valueOf registry.tree other = valueOf registry.tree leaf) ∧
        (Cleared registry upper (nameOf leaf) →
          ∃ other, upper <:+ other ∧ registry.tree.Leaf other ∧ nameOf other = nameOf leaf)
  | .nodeDataChanged,path =>
    registry.expired = false → path ∈ registry.tree.nodes →
      (Named registry.tree (nameOf path) ∨ Dropping registry (nameOf path)) ∧
      ∀ leaf, registry.tree.Leaf leaf → nameOf leaf = nameOf path →
        Refreshing registry leaf ∨ valueOf registry.tree leaf = valueOf registry.tree path
  | .nodeDeleted,path =>
    ∀ leaf, registry.tree.Leaf leaf →
      nameOf leaf = nameOf path ∨ Cleared registry path (nameOf leaf) → Refreshing registry leaf

/-- What the state has to be for an event. A leaf gets children, or is deleted without
a watcher, only if its key is spared; a reconnect finds leaves of one name with one
value; an expiring session loses no notice that is to remove a stale key. -/
def Fit (registry : PropertyRegistry) : Event → Prop
  | .create _ parent _ => registry.tree.Leaf parent → Spared registry parent
  | .setData _ _ => True
  | .delete name parent => registry.tree.Leaf (name::parent) →
      0 < registry.dataWatches (name::parent)+registry.childWatches (name::parent) ∨
        Spared registry (name::parent)
  | .deliver =>
    match registry.pending with
    | (type,path)::rest => FitNotice {registry with pending := rest} type path
    | [] => registry.expired = true → ∀ leaf other, registry.tree.Leaf leaf →
        registry.tree.Leaf other → nameOf leaf = nameOf other →
          valueOf registry.tree leaf = valueOf registry.tree other
  | .expire kept => registry.expired = false → ∀ key value,
      derivedAt registry.ALL_PROPERTIES key = some value → Named registry.tree key ∨
        ∃ path, (.nodeDeleted,path) ∈ registry.pending.take kept ∧ nameOf path = key

/-- Each node's children and each leaf's data are watched, or they will be read again.
Each leaf has its value in the map, or will be loaded again; each derived key is a
leaf's, or will be removed. -/
structure Mirrored (registry : PropertyRegistry) : Prop where
  childWatched : ∀ path ∈ registry.tree.nodes,
    0 < registry.childWatches path ∨ Covered registry path
  dataWatched : ∀ path, registry.tree.Leaf path →
    0 < registry.dataWatches path ∨ Refreshing registry path
  loaded : ∀ path, registry.tree.Leaf path →
    derivedAt registry.ALL_PROPERTIES (nameOf path) = some (valueOf registry.tree path) ∨
      Refreshing registry path
  named : ∀ key value, derivedAt registry.ALL_PROPERTIES key = some value →
    Named registry.tree key ∨ Dropping registry key

theorem mirrored_converged (registry : PropertyRegistry) (mirrored : Mirrored registry)
    (quiet : Quiet registry) : Converged registry := by
  obtain ⟨empty,alive⟩ := quiet
  have settled : ∀ path, ¬ Refreshing registry path := by
    intro path refreshing
    simp [Refreshing,Covered,empty,alive] at refreshing
  have value_of_leaf : ∀ path, registry.tree.Leaf path →
      derivedAt registry.ALL_PROPERTIES (nameOf path) = some (valueOf registry.tree path) :=
    fun path leaf => (mirrored.loaded path leaf).resolve_right (settled path)
  intro key value
  constructor
  · intro derived
    rcases mirrored.named key value derived with ⟨path,leaf,rfl⟩ | ⟨path,dropping,_⟩
    · refine ⟨path,leaf,rfl,?_⟩
      rw [value_of_leaf path leaf] at derived
      exact Option.some.inj derived
    · simp [empty] at dropping
  · intro holder
    obtain ⟨path,leaf,rfl,rfl⟩ := holder
    exact value_of_leaf path leaf

private theorem covered_below {registry : PropertyRegistry} {upper path : NodePath}
    (covered : Covered registry upper) (above : upper <:+ path) : Covered registry path := by
  rcases covered with expired | ⟨top,higher,sent⟩
  · exact .inl expired
  · exact .inr ⟨top,higher.trans above,sent⟩

section More
variable {registry after : PropertyRegistry} (more : ∀ notice ∈ registry.pending, notice ∈ after.pending)
  (session : registry.expired = true → after.expired = true)
include more

theorem dropping_more {key : String} (dropping : Dropping registry key) : Dropping after key := by
  obtain ⟨path,sent,named⟩ := dropping
  exact ⟨path,more _ sent,named⟩

include session

theorem covered_more {path : NodePath} (covered : Covered registry path) : Covered after path := by
  rcases covered with expired | ⟨upper,above,sent⟩
  · exact .inl (session expired)
  · exact .inr ⟨upper,above,more _ sent⟩

theorem refreshing_more {path : NodePath} (refreshing : Refreshing registry path) :
    Refreshing after path :=
  refreshing.imp (more _) (covered_more more session)

private theorem covered_told (mirrored : Mirrored registry) {path : NodePath}
    (present : path ∈ registry.tree.nodes)
    (told : 0 < registry.childWatches path → (.nodeChildrenChanged,path) ∈ after.pending) :
    Covered after path := by
  rcases mirrored.childWatched path present with watched | covered
  · exact .inr ⟨path,List.suffix_rfl,told watched⟩
  · exact covered_more more session covered

/-- A mutation keeps the registry mirrored if each node and each leaf is as before or
will be loaded again, and each leaf's key is still a leaf's or will be removed. -/
theorem mutated_mirrored (mirrored : Mirrored registry)
    (kept : after.ALL_PROPERTIES = registry.ALL_PROPERTIES)
    (nodes : ∀ path ∈ after.tree.nodes, (path ∈ registry.tree.nodes ∧
      after.childWatches path = registry.childWatches path) ∨ Covered after path)
    (leaves : ∀ path, after.tree.Leaf path → (registry.tree.Leaf path ∧
      after.dataWatches path = registry.dataWatches path ∧
        valueOf after.tree path = valueOf registry.tree path) ∨ Refreshing after path)
    (names : ∀ path value, registry.tree.Leaf path →
      derivedAt registry.ALL_PROPERTIES (nameOf path) = some value →
        Named after.tree (nameOf path) ∨ Dropping after (nameOf path)) : Mirrored after := by
  refine ⟨fun path member => ?_,fun path leaf => ?_,fun path leaf => ?_,fun key value derived => ?_⟩
  · rcases nodes path member with ⟨before,same⟩ | covered
    · rw [same]
      exact (mirrored.childWatched path before).imp id (covered_more more session)
    · exact .inr covered
  · rcases leaves path leaf with ⟨before,same,_⟩ | refreshing
    · rw [same]
      exact (mirrored.dataWatched path before).imp id (refreshing_more more session)
    · exact .inr refreshing
  · rcases leaves path leaf with ⟨before,_,same⟩ | refreshing
    · rw [kept,same]
      exact (mirrored.loaded path before).imp id (refreshing_more more session)
    · exact .inr refreshing
  · rw [kept] at derived
    rcases mirrored.named key value derived with ⟨path,before,rfl⟩ | dropping
    · exact names path value before derived
    · exact .inr (dropping_more more dropping)

end More

theorem mem_notices {count : ℕ} (notice : EventType × NodePath) (watched : 0 < count)
    (before : List (EventType × NodePath)) : notice ∈ before++List.replicate count notice :=
  List.mem_append_right _ (List.mem_replicate.mpr ⟨Nat.ne_of_gt watched,rfl⟩)

theorem valueOf_put (tree : ConfigTree) (path other : NodePath) (data : Option String)
    (seated : tree.Seated path) (apart : other ≠ path) :
    valueOf (tree.put path data seated) other = valueOf tree other := by
  rw [valueOf,NodeTree.data_put,if_neg apart,valueOf]

theorem create_mirrored (registry : PropertyRegistry) (name : String) (parent : NodePath)
    (data : Option String) (mirrored : Mirrored registry)
    (fit : registry.tree.Leaf parent → Spared registry parent) :
    Mirrored (create registry name parent data) := by
  unfold create
  split
  next => exact mirrored
  next tree created =>
    obtain ⟨absent,seated,rfl⟩ := NodeTree.create_some created
    set after : PropertyRegistry := _
    change Mirrored after
    have more : ∀ notice ∈ registry.pending, notice ∈ after.pending :=
      fun notice sent => List.mem_append_left _ sent
    have session : registry.expired = true → after.expired = true := id
    have covers : Covered after parent :=
      covered_told more session mirrored seated fun watched => mem_notices _ watched _
    have fresh : Covered after (name::parent) := covered_below covers (List.suffix_cons name parent)
    have leaf_after := NodeTree.leaf_create created
    refine mutated_mirrored more session mirrored rfl (fun path member => ?_) (fun path leaf => ?_)
      fun path value before derived => ?_
    · rcases (registry.tree.mem_put _ _ _ seated).mp member with rfl | before
      · exact .inr fresh
      · by_cases above : path = parent
        · exact .inr (above ▸ covers)
        · exact .inl ⟨before,Function.update_of_ne above _ _⟩
    · rcases (leaf_after path).mp leaf with rfl | ⟨before,_⟩
      · exact .inr (.inr fresh)
      · have apart : path ≠ name::parent := fun same => absent (same ▸ before.1)
        exact .inl ⟨before,rfl,valueOf_put _ _ _ _ seated apart⟩
    · by_cases above : path = parent
      · subst above
        rcases fit before with missing | ⟨other,apart,leaf,same⟩ | dropping
        · rw [missing] at derived
          contradiction
        · refine .inl ⟨other,(leaf_after other).mpr (.inr ⟨leaf,fun child same => ?_⟩),same⟩
          exact apart (List.cons.inj same).2
        · exact .inr (dropping_more more dropping)
      · refine .inl ⟨path,(leaf_after path).mpr (.inr ⟨before,fun child same => ?_⟩),rfl⟩
        exact above (List.cons.inj same).2

theorem setData_mirrored (registry : PropertyRegistry) (path : NodePath) (data : Option String)
    (mirrored : Mirrored registry) : Mirrored (setData registry path data) := by
  unfold setData
  split
  next => exact mirrored
  next tree written =>
    obtain ⟨member,seated,rfl⟩ := NodeTree.setData_some written
    set after : PropertyRegistry := _
    change Mirrored after
    have more : ∀ notice ∈ registry.pending, notice ∈ after.pending :=
      fun notice sent => List.mem_append_left _ sent
    have session : registry.expired = true → after.expired = true := id
    have leaf_after := NodeTree.leaf_setData written
    have refreshes : registry.tree.Leaf path → Refreshing after path := by
      intro leaf
      rcases mirrored.dataWatched path leaf with watched | refreshing
      · exact .inl (mem_notices _ watched _)
      · exact refreshing_more more session refreshing
    refine mutated_mirrored more session mirrored rfl (fun node inside => ?_) (fun node leaf => ?_)
      fun node value before _ => .inl ⟨node,(leaf_after node).mpr before,rfl⟩
    · rcases (registry.tree.mem_put _ _ _ seated).mp inside with rfl | before
      · exact .inl ⟨member,rfl⟩
      · exact .inl ⟨before,rfl⟩
    · have before := (leaf_after node).mp leaf
      by_cases same : node = path
      · subst same
        exact .inr (refreshes before)
      · exact .inl ⟨before,Function.update_of_ne same _ _,valueOf_put _ _ _ _ seated same⟩

theorem delete_mirrored (registry : PropertyRegistry) (name : String) (parent : NodePath)
    (mirrored : Mirrored registry) (fit : registry.tree.Leaf (name::parent) →
      0 < registry.dataWatches (name::parent)+registry.childWatches (name::parent) ∨
        Spared registry (name::parent)) : Mirrored (delete registry name parent) := by
  unfold delete
  dsimp only
  split
  next => exact mirrored
  next tree deleted =>
    obtain ⟨leaf,member,data⟩ := NodeTree.delete_some deleted
    set after : PropertyRegistry := _
    change Mirrored after
    have more : ∀ notice ∈ registry.pending, notice ∈ after.pending :=
      fun notice sent => List.mem_append_left _ (List.mem_append_left _ sent)
    have session : registry.expired = true → after.expired = true := id
    have present := registry.tree.closed name parent leaf.1
    have covers : Covered after parent :=
      covered_told more session mirrored present fun watched => mem_notices _ watched _
    have leaf_stays : ∀ path, path ≠ name::parent → registry.tree.Leaf path → tree.Leaf path := by
      intro path apart before
      refine (NodeTree.leaf_delete deleted path).mpr ⟨apart,before.1,fun child inside => ?_⟩
      exact absurd inside (((registry.tree.leaf_iff path).mp before).2 child)
    refine mutated_mirrored more session mirrored rfl (fun path inside => ?_) (fun path now => ?_)
      fun path value before derived => ?_
    · obtain ⟨apart,before⟩ := (member path).mp inside
      by_cases above : path = parent
      · exact .inr (above ▸ covers)
      · refine .inl ⟨before,?_⟩
        simp [after,above,apart]
    · -- only the parent can have become a leaf
      by_cases above : path = parent
      · exact .inr (.inr (above ▸ covers))
      · obtain ⟨apart,before,only⟩ := (NodeTree.leaf_delete deleted path).mp now
        refine .inl ⟨(registry.tree.leaf_iff path).mpr ⟨before,fun child inside => above ?_⟩,?_,?_⟩
        · exact (List.cons.inj (only child inside)).2
        · exact Function.update_of_ne apart _ _
        · rw [valueOf,data,if_neg apart,valueOf]
    · by_cases here : path = name::parent
      · subst here
        rcases fit leaf with watched | missing | ⟨other,apart,before,same⟩ | dropping
        · exact .inr ⟨_,List.mem_append_left _ (mem_notices _ watched _),rfl⟩
        · rw [missing] at derived
          contradiction
        · exact .inl ⟨other,leaf_stays other apart before,same⟩
        · exact .inr (dropping_more more dropping)
      · exact .inl ⟨path,leaf_stays path here before,rfl⟩

theorem mem_visited (tree : ConfigTree) (upper path : NodePath) (present : upper ∈ tree.nodes) :
    path ∈ visited tree upper ↔ upper <:+ path ∧ path ∈ tree.nodes :=
  tree.mem_visit_height upper path present

theorem mem_leaves (tree : ConfigTree) (upper path : NodePath) (present : upper ∈ tree.nodes) :
    path ∈ leaves tree upper ↔ upper <:+ path ∧ tree.Leaf path := by
  rw [leaves,List.mem_filter,mem_visited tree upper path present,decide_eq_true_eq]
  exact ⟨fun inside => ⟨inside.1.1,inside.2⟩,fun inside => ⟨⟨inside.1,inside.2.1⟩,inside.2⟩⟩

theorem lookup_deleteChildProperties (registry : PropertyRegistry) (upper : NodePath) (key : String) :
    ((deleteChildProperties (nameOf upper) registry.ALL_PROPERTIES).lookup key = none ∧
      Cleared registry upper key) ∨
    ((deleteChildProperties (nameOf upper) registry.ALL_PROPERTIES).lookup key =
      registry.ALL_PROPERTIES.lookup key ∧ ¬ Cleared registry upper key) := by
  unfold deleteChildProperties
  split
  next contained =>
    rw [Table.holds_iff] at contained
    simp only [beq_iff_eq] at contained
    rw [Table.lookup_removeWhere]
    split
    next below => exact .inl ⟨rfl,contained,below⟩
    next outside => exact .inr ⟨rfl,fun cleared => outside cleared.2⟩
  next missing =>
    rw [Table.holds_iff] at missing
    simp only [beq_iff_eq] at missing
    exact .inr ⟨rfl,fun cleared => missing cleared.1⟩

theorem derivedAt_deleteChildProperties {registry : PropertyRegistry} {upper : NodePath}
    {key value : String} (derived : derivedAt (deleteChildProperties (nameOf upper)
      registry.ALL_PROPERTIES) key = some value) :
    derivedAt registry.ALL_PROPERTIES key = some value := by
  rcases lookup_deleteChildProperties registry upper key with ⟨removed,_⟩ | ⟨same,_⟩
  · simp [derivedAt,removed] at derived
  · rwa [derivedAt,same] at derived

theorem derivedAt_putAll_loaded (tree : ConfigTree) (upper : NodePath) (present : upper ∈ tree.nodes)
    (properties : Table String Property) (key : String) :
    (∃ leaf, upper <:+ leaf ∧ tree.Leaf leaf ∧ nameOf leaf = key ∧
      derivedAt (Table.putAll properties (loaded tree upper)) key = some (valueOf tree leaf)) ∨
    ((∀ leaf, upper <:+ leaf → tree.Leaf leaf → nameOf leaf ≠ key) ∧
      derivedAt (Table.putAll properties (loaded tree upper)) key = derivedAt properties key) := by
  have pairs : ∀ pair, pair ∈ loaded tree upper ↔
      ∃ leaf, (upper <:+ leaf ∧ tree.Leaf leaf) ∧ (nameOf leaf,⟨valueOf tree leaf,true⟩) = pair := by
    intro pair
    simp only [loaded,List.mem_map,mem_leaves tree upper _ present]
  by_cases inside : ∃ pair ∈ loaded tree upper, pair.1 = key
  · obtain ⟨pair,member,same,found⟩ := Table.lookup_putAll_inside properties _ key inside
    obtain ⟨leaf,⟨below,isLeaf⟩,rfl⟩ := (pairs pair).mp member
    refine .inl ⟨leaf,below,isLeaf,same,?_⟩
    simp [derivedAt,found]
  · have outside : ∀ pair ∈ loaded tree upper, pair.1 ≠ key := fun pair member same =>
      inside ⟨pair,member,same⟩
    refine .inr ⟨fun leaf below isLeaf => outside _ ((pairs _).mpr ⟨leaf,⟨below,isLeaf⟩,rfl⟩),?_⟩
    rw [derivedAt,Table.lookup_putAll_outside _ _ key outside,derivedAt]

def notified (registry : PropertyRegistry) (type : EventType) (path : NodePath) :
    PropertyRegistry := {registry with pending := (type,path)::registry.pending}

theorem covered_notified {registry : PropertyRegistry} {type : EventType} {path node : NodePath}
    (covered : Covered (notified registry type path) node) :
    Covered registry node ∨ type = .nodeChildrenChanged ∧ path <:+ node := by
  rcases covered with expired | ⟨upper,above,sent⟩
  · exact .inl (.inl expired)
  · rcases List.mem_cons.mp sent with here | later
    · obtain ⟨rfl,rfl⟩ := Prod.mk.inj here
      exact .inr ⟨rfl,above⟩
    · exact .inl (.inr ⟨upper,above,later⟩)

theorem refreshing_notified {registry : PropertyRegistry} {type : EventType} {path node : NodePath}
    (refreshing : Refreshing (notified registry type path) node) :
    Refreshing registry node ∨ type = .nodeDataChanged ∧ path = node ∨
      type = .nodeChildrenChanged ∧ path <:+ node := by
  rcases refreshing with sent | covered
  · rcases List.mem_cons.mp sent with here | later
    · obtain ⟨rfl,rfl⟩ := Prod.mk.inj here
      exact .inr (.inl ⟨rfl,rfl⟩)
    · exact .inl (.inl later)
  · exact (covered_notified covered).imp .inr .inr

theorem dropping_notified {registry : PropertyRegistry} {type : EventType} {path : NodePath}
    {key : String} (dropping : Dropping (notified registry type path) key) :
    Dropping registry key ∨ type = .nodeDeleted ∧ nameOf path = key := by
  obtain ⟨node,sent,same⟩ := dropping
  rcases List.mem_cons.mp sent with here | later
  · obtain ⟨rfl,rfl⟩ := Prod.mk.inj here
    exact .inr ⟨rfl,same⟩
  · exact .inl ⟨node,later,same⟩

/-- A handler whose read fails does nothing, and nothing depended on it. -/
theorem failed_mirrored (registry : PropertyRegistry) (type : EventType) (path : NodePath)
    (mirrored : Mirrored (notified registry type path)) (reads : type ≠ .nodeDeleted)
    (fails : registry.expired = true ∨ path ∉ registry.tree.nodes) : Mirrored registry := by
  have expired_of_mem : path ∈ registry.tree.nodes → registry.expired = true :=
    fun member => fails.resolve_right (not_not.mpr member)
  have refreshes : ∀ node, registry.tree.Leaf node →
      Refreshing (notified registry type path) node → Refreshing registry node := by
    intro node leaf refreshing
    rcases refreshing_notified refreshing with kept | ⟨_,rfl⟩ | ⟨_,above⟩
    · exact kept
    · exact .inr (.inl (expired_of_mem leaf.1))
    · exact .inr (.inl (expired_of_mem (registry.tree.mem_of_suffix above leaf.1)))
  refine ⟨fun node member => ?_,fun node leaf => ?_,fun node leaf => ?_,fun key value derived => ?_⟩
  · rcases mirrored.childWatched node member with watched | covered
    · exact .inl watched
    · rcases covered_notified covered with kept | ⟨_,above⟩
      · exact .inr kept
      · exact .inr (.inl (expired_of_mem (registry.tree.mem_of_suffix above member)))
  · exact (mirrored.dataWatched node leaf).imp id (refreshes node leaf)
  · exact (mirrored.loaded node leaf).imp id (refreshes node leaf)
  · rcases mirrored.named key value derived with named | dropping
    · exact .inl named
    · exact .inr ((dropping_notified dropping).resolve_right fun deleted => reads deleted.1)

/-- A handler keeps the registry mirrored if it takes no watcher away, leaves one on
what its notice stood for, and keeps each leaf's value and each key's owner. -/
theorem handled_mirrored {registry : PropertyRegistry} {type : EventType} {path : NodePath}
    (mirrored : Mirrored (notified registry type path)) {childWatches dataWatches : NodePath → ℕ}
    {properties : Table String Property}
    (childKept : ∀ node, registry.childWatches node ≤ childWatches node)
    (dataKept : ∀ node, registry.dataWatches node ≤ dataWatches node)
    (below : type = .nodeChildrenChanged → ∀ node ∈ registry.tree.nodes, path <:+ node →
      0 < childWatches node ∧ (registry.tree.Leaf node → 0 < dataWatches node))
    (own : type = .nodeDataChanged → 0 < dataWatches path)
    (loaded : ∀ node, registry.tree.Leaf node →
      derivedAt properties (nameOf node) = some (valueOf registry.tree node) ∨
        Refreshing registry node)
    (named : ∀ key value, derivedAt properties key = some value →
      Named registry.tree key ∨ Dropping registry key) :
    Mirrored {registry with childWatches,dataWatches,ALL_PROPERTIES := properties} := by
  refine ⟨fun node member => ?_,fun node leaf => ?_,loaded,named⟩
  · rcases mirrored.childWatched node member with watched | covered
    · exact .inl (Nat.lt_of_lt_of_le watched (childKept node))
    · rcases covered_notified covered with kept | ⟨children,above⟩
      · exact .inr kept
      · exact .inl (below children node member above).1
  · rcases mirrored.dataWatched node leaf with watched | refreshing
    · exact .inl (Nat.lt_of_lt_of_le watched (dataKept node))
    · rcases refreshing_notified refreshing with kept | ⟨data,rfl⟩ | ⟨children,above⟩
      · exact .inr kept
      · exact .inl (own data)
      · exact .inl ((below children node leaf.1 above).2 leaf)

private theorem reloadChildProperties_mirrored (registry : PropertyRegistry) (upper : NodePath)
    (mirrored : Mirrored (notified registry .nodeChildrenChanged upper))
    (fit : FitNotice registry .nodeChildrenChanged upper) :
    Mirrored (reloadChildPropertiesForPath registry upper) := by
  unfold reloadChildPropertiesForPath
  split
  next expired => exact failed_mirrored registry _ upper mirrored (by simp) (.inl expired)
  next alive =>
    split
    next present =>
      have fits := fit (eq_false_of_ne_true alive) present
      refine handled_mirrored mirrored (fun node => Nat.le_add_right _ _)
        (fun node => Nat.le_add_right _ _) (fun _ node member above => ?_) (by simp)
        (fun node leaf => ?_) fun key value derived => ?_
      · refine ⟨Nat.add_pos_right _ (List.count_pos_iff.mpr ?_),fun leaf =>
          Nat.add_pos_right _ (List.count_pos_iff.mpr ?_)⟩
        · exact (mem_visited registry.tree upper node present).mpr ⟨above,member⟩
        · exact (mem_leaves registry.tree upper node present).mpr ⟨above,leaf⟩
      · rcases fits node leaf with refreshing | ⟨agree,restored⟩
        · exact .inr refreshing
        · rcases derivedAt_putAll_loaded registry.tree upper present
              (deleteChildProperties (nameOf upper) registry.ALL_PROPERTIES) (nameOf node) with
            ⟨other,below,isLeaf,same,found⟩ | ⟨outside,kept⟩
          · exact .inl (found.trans (congrArg some (agree other below isLeaf same)))
          · rcases lookup_deleteChildProperties registry upper (nameOf node) with
              ⟨_,cleared⟩ | ⟨same,_⟩
            · obtain ⟨other,below,isLeaf,again⟩ := restored cleared
              exact absurd again (outside other below isLeaf)
            · rcases mirrored.loaded node leaf with held | refreshing
              · refine .inl (kept.trans ?_)
                rw [derivedAt,same]
                exact held
              · rcases refreshing_notified refreshing with later | ⟨other,_⟩ | ⟨_,above⟩
                · exact .inr later
                · contradiction
                · exact absurd rfl (outside node above leaf)
      · rcases derivedAt_putAll_loaded registry.tree upper present
            (deleteChildProperties (nameOf upper) registry.ALL_PROPERTIES) key with
          ⟨other,_,isLeaf,same,_⟩ | ⟨_,kept⟩
        · exact .inl ⟨other,isLeaf,same⟩
        · have before := derivedAt_deleteChildProperties (kept.symm.trans derived)
          rcases mirrored.named key value before with named | dropping
          · exact .inl named
          · exact .inr ((dropping_notified dropping).resolve_right (by simp))
    next absent => exact failed_mirrored registry _ upper mirrored (by simp) (.inr absent)

theorem derivedAt_put (properties : Table String Property) (key other value : String) :
    derivedAt (properties.insert key ⟨value,true⟩) other =
      if other = key then some value else derivedAt properties other := by
  rw [derivedAt,Table.lookup_put]
  split
  · rfl
  · rfl

private theorem reloadProperty_mirrored (registry : PropertyRegistry) (path : NodePath)
    (mirrored : Mirrored (notified registry .nodeDataChanged path))
    (fit : FitNotice registry .nodeDataChanged path) :
    Mirrored (reloadPropertyForPath registry path) := by
  unfold reloadPropertyForPath
  split
  next expired => exact failed_mirrored registry _ path mirrored (by simp) (.inl expired)
  next alive =>
    split
    next present =>
      obtain ⟨known,agree⟩ := fit (eq_false_of_ne_true alive) present
      refine handled_mirrored mirrored (fun node => le_rfl) (fun node => ?_) (by simp) (by simp)
        (fun node leaf => ?_) fun key value derived => ?_
      · by_cases same : node = path
        · subst same
          simp
        · rw [Function.update_of_ne same]
      · rw [derivedAt_put]
        split
        next same =>
          rcases agree node leaf same with refreshing | equal
          · exact .inr refreshing
          · exact .inl (congrArg some equal.symm)
        next apart =>
          rcases mirrored.loaded node leaf with held | refreshing
          · exact .inl held
          · rcases refreshing_notified refreshing with kept | ⟨_,same⟩ | ⟨other,_⟩
            · exact .inr kept
            · exact absurd (congrArg nameOf same.symm) apart
            · contradiction
      · rw [derivedAt_put] at derived
        split at derived
        next same =>
          subst same
          exact known
        next =>
          rcases mirrored.named key value derived with named | dropping
          · exact .inl named
          · exact .inr ((dropping_notified dropping).resolve_right (by simp))
    next absent => exact failed_mirrored registry _ path mirrored (by simp) (.inr absent)

private theorem deleteProperties_mirrored (registry : PropertyRegistry) (path : NodePath)
    (mirrored : Mirrored (notified registry .nodeDeleted path))
    (fit : FitNotice registry .nodeDeleted path) :
    Mirrored (deletePropertiesForPath registry path) := by
  refine handled_mirrored mirrored (fun node => le_rfl) (fun node => le_rfl) (by simp) (by simp)
    (fun node leaf => ?_) fun key value derived => ?_
  · by_cases same : nameOf node = nameOf path
    · exact .inr (fit node leaf (.inl same))
    · rcases lookup_deleteChildProperties registry path (nameOf node) with ⟨_,cleared⟩ | ⟨kept,_⟩
      · exact .inr (fit node leaf (.inr cleared))
      · rcases mirrored.loaded node leaf with held | refreshing
        · refine .inl ?_
          rw [derivedAt,Table.lookup_remove,if_neg same,kept]
          exact held
        · exact .inr ((refreshing_notified refreshing).resolve_right (by simp))
  · rw [derivedAt,Table.lookup_remove] at derived
    split at derived
    next => simp at derived
    next apart =>
      have before := derivedAt_deleteChildProperties derived
      rcases mirrored.named key value before with named | dropping
      · exact .inl named
      · exact .inr ((dropping_notified dropping).resolve_right fun here => apart here.2.symm)

private theorem reconnect_mirrored (registry : PropertyRegistry) (empty : registry.pending = [])
    (mirrored : Mirrored registry) (agree : ∀ leaf other, registry.tree.Leaf leaf →
      registry.tree.Leaf other → nameOf leaf = nameOf other →
        valueOf registry.tree leaf = valueOf registry.tree other) :
    Mirrored (startLoadPropertiesFromZK registry) := by
  have stale : ∀ key value, derivedAt registry.ALL_PROPERTIES key = some value →
      Named registry.tree key := by
    intro key value derived
    rcases mirrored.named key value derived with named | ⟨path,sent,_⟩
    · exact named
    · simp [empty] at sent
  unfold startLoadPropertiesFromZK
  split
  next present =>
    refine ⟨fun node member => ?_,fun node leaf => ?_,fun node leaf => ?_,
      fun key value derived => ?_⟩
    · exact .inl (Nat.add_pos_right _ (List.count_pos_iff.mpr
        ((mem_visited registry.tree [] node present).mpr ⟨List.nil_suffix,member⟩)))
    · exact .inl (Nat.add_pos_right _ (List.count_pos_iff.mpr
        ((mem_leaves registry.tree [] node present).mpr ⟨List.nil_suffix,leaf⟩)))
    · rcases derivedAt_putAll_loaded registry.tree [] present registry.ALL_PROPERTIES
          (nameOf node) with ⟨other,_,isLeaf,same,found⟩ | ⟨outside,_⟩
      · exact .inl (found.trans (congrArg some (agree other node isLeaf leaf same)))
      · exact absurd rfl (outside node List.nil_suffix leaf)
    · rcases derivedAt_putAll_loaded registry.tree [] present registry.ALL_PROPERTIES key with
        ⟨other,_,isLeaf,same,_⟩ | ⟨_,kept⟩
      · exact .inl ⟨other,isLeaf,same⟩
      · exact .inl (stale key value (kept.symm.trans derived))
  next rootless =>
    have nothing : ∀ path, path ∉ registry.tree.nodes := fun path member =>
      rootless (registry.tree.mem_of_suffix List.nil_suffix member)
    refine ⟨fun node member => absurd member (nothing node),
      fun node leaf => absurd leaf.1 (nothing node),fun node leaf => absurd leaf.1 (nothing node),
      fun key value derived => .inl (stale key value derived)⟩

theorem step_mirrored (registry : PropertyRegistry) (event : Event) (mirrored : Mirrored registry)
    (fit : Fit registry event) : Mirrored (step registry event) := by
  cases event with
  | create name parent data => exact create_mirrored registry name parent data mirrored fit
  | setData path data => exact setData_mirrored registry path data mirrored
  | delete name parent => exact delete_mirrored registry name parent mirrored fit
  | deliver =>
    simp only [step,deliver]
    simp only [Fit] at fit
    cases waiting : registry.pending with
    | nil =>
      rw [waiting] at fit
      dsimp only at fit ⊢
      split
      next expired => exact reconnect_mirrored registry waiting mirrored (fit expired)
      next => exact mirrored
    | cons notice rest =>
      obtain ⟨type,path⟩ := notice
      rw [waiting] at fit
      have headed : Mirrored (notified {registry with pending := rest} type path) := by
        have same : notified {registry with pending := rest} type path = registry := by
          rw [notified,← waiting]
        rwa [same]
      cases type with
      | nodeDataChanged => exact reloadProperty_mirrored _ path headed fit
      | nodeChildrenChanged => exact reloadChildProperties_mirrored _ path headed fit
      | nodeDeleted => exact deleteProperties_mirrored _ path headed fit
  | expire kept =>
    simp only [step,expire]
    split
    next => exact mirrored
    next alive =>
      refine ⟨fun _ _ => .inr (.inl rfl),fun _ _ => .inr (.inr (.inl rfl)),
        fun _ _ => .inr (.inr (.inl rfl)),fun key value derived => ?_⟩
      exact fit (eq_false_of_ne_true alive) key value derived

/-- Leaves have property names of their own, and a node that comes or goes has a name. -/
def Distinct (registry : PropertyRegistry) (event : Event) : Prop :=
  (∀ leaf other, registry.tree.Leaf leaf → registry.tree.Leaf other → nameOf leaf = nameOf other →
    leaf = other) ∧
  match event with
  | .create name _ _ => name ≠ ""
  | .delete name _ => name ≠ ""
  | _ => True

theorem fullPath_slash (path : NodePath) : ∃ rest, (fullPath path).toList = '/'::rest := by
  induction path with
  | nil => exact ⟨[],rfl⟩
  | cons name parent ih =>
    obtain ⟨rest,begins⟩ := ih
    rw [fullPath,getFullPath]
    split
    · exact ⟨name.toList,by rw [String.toList_append]; rfl⟩
    · exact ⟨rest ++ '/'::name.toList,by simp [String.toList_append,begins]⟩

theorem nameOf_length (path : NodePath) :
    (nameOf path).toList.length+1 = (fullPath path).toList.length := by
  obtain ⟨rest,begins⟩ := fullPath_slash path
  rw [nameOf,buildPropertyName,begins]
  simp

theorem nameOf_child {name : String} (named : name ≠ "") (parent : NodePath) :
    nameOf (name::parent) ≠ nameOf parent := by
  intro same
  have lengths := nameOf_length (name::parent)
  rw [same,nameOf_length parent,fullPath,getFullPath] at lengths
  have some : 0 < name.toList.length := by
    refine List.length_pos_iff.mpr fun empty => named ?_
    exact String.toList_inj.mp empty
  split at lengths
  next top =>
    obtain ⟨rest,begins⟩ := fullPath_slash parent
    have shown : ¬ Text.blank (fullPath parent) = true := by
      rw [Text.blank,begins,List.all_cons,decide_eq_false (by decide),Bool.false_and]
      exact Bool.false_ne_true
    rw [Bool.or_eq_true,beq_iff_eq] at top
    rw [top.resolve_left shown,String.toList_append,List.length_append] at lengths
    omega
  next => simp [String.toList_append] at lengths

theorem create_fit (registry : PropertyRegistry) (name : String) (parent : NodePath)
    (data : Option String) (apart : nameOf (name::parent) ≠ nameOf parent)
    (mirrored : Mirrored (create registry name parent data)) (leaf : registry.tree.Leaf parent) :
    Spared registry parent := by
  have absent := ((registry.tree.leaf_iff parent).mp leaf).2 name
  have created : registry.tree.create (name::parent) data =
      some (registry.tree.put (name::parent) data leaf.1) :=
    (if_neg absent).trans (dif_pos leaf.1)
  simp only [create,created] at mirrored
  cases derived : derivedAt registry.ALL_PROPERTIES (nameOf parent) with
  | none => exact .inl derived
  | some value =>
    rcases mirrored.named (nameOf parent) value derived with ⟨other,now,same⟩ | ⟨path,sent,same⟩
    · rcases (NodeTree.leaf_create created other).mp now with rfl | ⟨before,childless⟩
      · exact absurd same apart
      · refine .inr (.inl ⟨other,fun here => ?_,before,same⟩)
        exact childless name (by rw [here])
    · rcases List.mem_append.mp sent with earlier | told
      · exact .inr (.inr ⟨path,earlier,same⟩)
      · simp at told

theorem delete_fit (registry : PropertyRegistry) (name : String) (parent : NodePath)
    (apart : nameOf (name::parent) ≠ nameOf parent)
    (mirrored : Mirrored (delete registry name parent)) (leaf : registry.tree.Leaf (name::parent)) :
    0 < registry.dataWatches (name::parent)+registry.childWatches (name::parent) ∨
      Spared registry (name::parent) := by
  rcases Nat.eq_zero_or_pos (registry.dataWatches (name::parent)+registry.childWatches (name::parent))
    with unwatched | watched
  · refine .inr ?_
    cases deleted : registry.tree.delete (name::parent) with
    | none => simp [NodeTree.delete,leaf] at deleted
    | some tree =>
      simp only [delete,deleted,unwatched] at mirrored
      cases derived : derivedAt registry.ALL_PROPERTIES (nameOf (name::parent)) with
      | none => exact .inl derived
      | some value =>
        rcases mirrored.named _ value derived with ⟨other,now,same⟩ | ⟨path,sent,same⟩
        · obtain ⟨different,before,only⟩ := (NodeTree.leaf_delete deleted other).mp now
          refine .inr (.inl ⟨other,different,?_,same⟩)
          refine (registry.tree.leaf_iff other).mpr ⟨before,fun child inside => ?_⟩
          have above := (List.cons.inj (only child inside)).2
          rw [above] at same
          exact apart same.symm
        · rcases List.mem_append.mp sent with earlier | told
          · exact .inr (.inr ⟨path,by simpa using earlier,same⟩)
          · simp at told
  · exact .inl watched

private theorem reloadChildProperties_fit (registry : PropertyRegistry) (upper : NodePath)
    (own : ∀ leaf other, registry.tree.Leaf leaf → registry.tree.Leaf other →
      nameOf leaf = nameOf other → leaf = other)
    (mirrored : Mirrored (reloadChildPropertiesForPath registry upper)) :
    FitNotice registry .nodeChildrenChanged upper := by
  intro alive present leaf isLeaf
  have loaded := mirrored.loaded
  simp only [reloadChildPropertiesForPath,alive,present,if_true,Bool.false_eq_true,if_false] at loaded
  rcases loaded leaf isLeaf with held | refreshing
  · refine .inr ⟨fun other _ otherLeaf same => by rw [own other leaf otherLeaf isLeaf same],
      fun cleared => ?_⟩
    rcases derivedAt_putAll_loaded registry.tree upper present
        (deleteChildProperties (nameOf upper) registry.ALL_PROPERTIES) (nameOf leaf) with
      ⟨other,below,otherLeaf,same,_⟩ | ⟨_,kept⟩
    · exact ⟨other,below,otherLeaf,same⟩
    · rcases lookup_deleteChildProperties registry upper (nameOf leaf) with
        ⟨removed,_⟩ | ⟨_,uncleared⟩
      · have gone := kept.symm.trans held
        simp [derivedAt,removed] at gone
      · exact absurd cleared uncleared
  · exact .inl refreshing

private theorem reloadProperty_fit (registry : PropertyRegistry) (path : NodePath)
    (mirrored : Mirrored (reloadPropertyForPath registry path)) :
    FitNotice registry .nodeDataChanged path := by
  intro alive present
  have put : reloadPropertyForPath registry path = {registry with
      dataWatches := Function.update registry.dataWatches path (registry.dataWatches path+1)
      ALL_PROPERTIES :=
        registry.ALL_PROPERTIES.insert (nameOf path) ⟨valueOf registry.tree path,true⟩} := by
    rw [reloadPropertyForPath,alive,if_neg (by simp),if_pos present]
  rw [put] at mirrored
  have own : derivedAt (registry.ALL_PROPERTIES.insert (nameOf path)
      ⟨valueOf registry.tree path,true⟩) (nameOf path) = some (valueOf registry.tree path) :=
    (derivedAt_put _ _ _ _).trans (if_pos rfl)
  refine ⟨mirrored.named _ _ own,fun leaf isLeaf same => ?_⟩
  rcases mirrored.loaded leaf isLeaf with held | refreshing
  · rw [same] at held
    exact .inr (Option.some.inj (held.symm.trans own))
  · exact .inl refreshing

private theorem deleteProperties_fit (registry : PropertyRegistry) (path : NodePath)
    (mirrored : Mirrored (deletePropertiesForPath registry path)) :
    FitNotice registry .nodeDeleted path := by
  intro leaf isLeaf hit
  apply (mirrored.loaded leaf isLeaf).resolve_left
  intro held
  rw [deletePropertiesForPath,derivedAt,Table.lookup_remove] at held
  split at held
  next => simp at held
  next apart =>
    rcases lookup_deleteChildProperties registry path (nameOf leaf) with
      ⟨removed,_⟩ | ⟨_,uncleared⟩
    · simp [removed] at held
    · exact uncleared (hit.resolve_left apart)

/-- Where names are distinct, the condition is exactly what keeps a registry mirrored. -/
theorem step_mirrored_iff (registry : PropertyRegistry) (event : Event) (mirrored : Mirrored registry)
    (distinct : Distinct registry event) : Mirrored (step registry event) ↔ Fit registry event := by
  refine ⟨fun after => ?_,step_mirrored registry event mirrored⟩
  obtain ⟨own,apart⟩ := distinct
  cases event with
  | create name parent data => exact create_fit registry name parent data (nameOf_child apart parent) after
  | setData path data => trivial
  | delete name parent => exact delete_fit registry name parent (nameOf_child apart parent) after
  | deliver =>
    simp only [step,deliver] at after
    simp only [Fit]
    cases waiting : registry.pending with
    | nil => exact fun _ leaf other isLeaf otherLeaf same => by rw [own leaf other isLeaf otherLeaf same]
    | cons notice rest =>
      obtain ⟨type,path⟩ := notice
      rw [waiting] at after
      cases type with
      | nodeDataChanged => exact reloadProperty_fit _ path after
      | nodeChildrenChanged => exact reloadChildProperties_fit _ path own after
      | nodeDeleted => exact deleteProperties_fit _ path after
  | expire kept =>
    intro alive key value derived
    have named := after.named
    simp only [step,expire,alive,Bool.false_eq_true,if_false] at named
    exact named key value derived

theorem initial_mirrored (tree : ConfigTree) (properties : List (String × String)) :
    Mirrored (initial tree properties) := by
  refine ⟨fun _ _ => .inr (.inl rfl),fun _ _ => .inr (.inr (.inl rfl)),
    fun _ _ => .inr (.inr (.inl rfl)),fun key value derived => ?_⟩
  by_cases inside : ∃ pair ∈ properties.map fun pair => (pair.1,(⟨pair.2,false⟩ : Property)),
      pair.1 = key
  · obtain ⟨pair,member,_,found⟩ := Table.lookup_putAll_inside (∅ : Table String Property) _ key inside
    obtain ⟨source,_,rfl⟩ := List.mem_map.mp member
    simp [initial,derivedAt,found] at derived
  · have outside := Table.lookup_putAll_outside (∅ : Table String Property)
      (properties.map fun pair => (pair.1,(⟨pair.2,false⟩ : Property))) key
      fun pair member same => inside ⟨pair,member,same⟩
    simp [initial,derivedAt,outside] at derived

end PropertyRegistry
end YzFramework.Config
