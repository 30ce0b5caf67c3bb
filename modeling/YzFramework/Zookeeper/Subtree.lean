import YzFramework.Zookeeper.ZooKeeper

/-! `ZK`: deleting a node with all below it, and reading a subtree. -/
namespace YzFramework.Zookeeper.ZK
open Library Library.Script Config
open Config.PropertyRegistry (fullPath getFullPath)

inductive TreeNode
  | mk (fullPath text : String) (data : Option String) (id : ℕ) (children : Option (List TreeNode))

variable (valid : String → Bool) (newString : Bytes → String)

/-- The depth is that of the call stack. -/
def deleteRecursive : ℕ → String → ℤ → Script ZooKeeper Unit
  | 0,_,_ => fun zk => (.error "StackOverflowError",zk)
  | depth+1,path,version => do
    let stat ← existsPath valid path
    match stat with
    | none => pure ()
    | some stat =>
      (if stat.numChildren > 0 then do
        let children ← getChildren valid path
        children.forM fun childPath => deleteRecursive depth (getFullPath path childPath) version
      else pure ())
      delete valid path version

def deleteChildrenIfExists (depth : ℕ) (path : String) (version : ℤ) : Script ZooKeeper Unit :=
  deleteRecursive valid depth path version

def getNodeData (path : String) : Script ZooKeeper (Option String × Stat) := do
  let (data,stat) ← getData valid path
  pure (data.map newString,stat)

/-- The children that are set at the node of the path. -/
def loadChildren : ℕ → String → Script ZooKeeper (List TreeNode)
  | 0,_ => fun zk => (.error "StackOverflowError",zk)
  | depth+1,pathNode => do
    let children ← getChildren valid pathNode
    children.mapM fun path => do
      let fullPath := getFullPath pathNode path
      let (data,stat) ← getNodeData valid newString fullPath
      let below ← (if stat.numChildren > 0 then some <$> loadChildren depth fullPath else pure none)
      pure (.mk fullPath path data stat.czxid below)

def getTree (depth : ℕ) (rootPath : String) : Script ZooKeeper TreeNode := do
  let children ← loadChildren valid newString depth rootPath
  pure (.mk rootPath rootPath none 0 (some children))

def getPathName (path : String) : String := String.ofList (path.toList.rtakeWhile (· ≠ '/'))

def getNode (path : String) : Script ZooKeeper (Option TreeNode) := do
  let stat ← existsPath valid path
  match stat with
  | none => pure none
  | some _ => do
    let (data,stat) ← getData valid path
    pure (some (.mk path (getPathName path) (data.map newString) stat.czxid none))

def TreeNode.getFullPath : TreeNode → String
  | .mk fullPath _ _ _ _ => fullPath

mutual
/-- The full paths and data in a tree, from the top. -/
def TreeNode.entries : TreeNode → List (String × Option String)
  | .mk fullPath _ data _ none => [(fullPath,data)]
  | .mk fullPath _ data _ (some children) => (fullPath,data)::entriesOf children

def TreeNode.entriesOf : List TreeNode → List (String × Option String)
  | [] => []
  | node::rest => node.entries++entriesOf rest
end

/-- Of the nodes below the path, whose names ZooKeeper accepts, none is deeper. -/
def Bounded (zk : ZooKeeper) (depth : ℕ) (path : NodePath) : Prop :=
  ∀ other ∈ zk.tree.nodes, path <:+ other →
    (∀ name ∈ other, valid name = true) ∧ other.length < path.length+depth

/-- The nodes at and below the path are gone, the others as before. -/
def Cut (zk after : ZooKeeper) (path : NodePath) : Prop :=
  ∀ other, after.tree.data other = if path <:+ other then none else zk.tree.data other

variable {valid}

theorem cut_fewer {zk after : ZooKeeper} {path : NodePath} (cut : Cut zk after path) :
    ∀ other ∈ after.tree.nodes, other ∈ zk.tree.nodes := by
  intro other member
  obtain ⟨node,found⟩ := NodeTree.data_of_mem member
  rw [cut] at found
  split at found
  next => cases found
  next => exact NodeTree.mem_of_data found

private theorem bounded_fewer {zk after : ZooKeeper} {depth : ℕ} {path : NodePath}
    (bounded : Bounded valid zk depth path) (fewer : ∀ other ∈ after.tree.nodes, other ∈ zk.tree.nodes) :
    Bounded valid after depth path :=
  fun other member => bounded other (fewer other member)

private theorem bounded_child {zk : ZooKeeper} {depth : ℕ} {path : NodePath} (name : String)
    (bounded : Bounded valid zk (depth+1) path) : Bounded valid zk depth (name::path) := by
  intro other member below
  obtain ⟨names,short⟩ := bounded other member ((List.suffix_cons name path).trans below)
  refine ⟨names,?_⟩
  rw [List.length_cons]
  omega

private theorem forM_cut {path : NodePath} {script : String → Script ZooKeeper Unit} (children : List String)
    {zk : ZooKeeper} (each : ∀ name ∈ children, ∀ before : ZooKeeper,
      (∀ other ∈ before.tree.nodes, other ∈ zk.tree.nodes) →
        ∃ after, script name before = (.ok (),after) ∧ Cut before after (name::path)) :
    ∃ after, children.forM script zk = (.ok (),after) ∧ ∀ other, after.tree.data other =
      if ∃ name ∈ children, name::path <:+ other then none else zk.tree.data other := by
  induction children generalizing zk with
  | nil => exact ⟨zk,rfl,fun other => by simp⟩
  | cons name rest ih =>
    obtain ⟨middle,first,cut⟩ := each name List.mem_cons_self zk fun _ => id
    obtain ⟨after,others,removed⟩ := ih fun next inside before fewer =>
      each next (List.mem_cons_of_mem _ inside) before fun other member =>
        cut_fewer cut other (fewer other member)
    refine ⟨after,(bind_ok _ first).trans others,fun other => ?_⟩
    rw [removed,cut]
    by_cases later : ∃ next ∈ rest, next::path <:+ other <;> by_cases here : name::path <:+ other <;>
      simp [later,here]

theorem deleteRecursive_absent (proper : Proper valid) (depth : ℕ) {path : NodePath} {zk : ZooKeeper}
    (names : ∀ name ∈ path, valid name = true) (absent : path ∉ zk.tree.nodes) (version : ℤ) :
    deleteRecursive valid (depth+1) (fullPath path) version zk = (.ok (),zk) := by
  have missing : zk.tree.data path = none := (zk.tree.data_eq_none path).mpr absent
  rw [deleteRecursive,bind_ok _ (existsPath_eq (nodePath_fullPath proper names) zk),missing]
  rfl

/-- The nodes at and below the children of the path are gone, the others as before. -/
def Emptied (zk middle : ZooKeeper) (path : NodePath) : Prop :=
  ∀ other, middle.tree.data other =
    if ∃ name ∈ zk.tree.children path, name::path <:+ other then none else zk.tree.data other

private theorem deleteChildren_emptied (proper : Proper valid) (depth : ℕ) {path : NodePath} {zk : ZooKeeper}
    (names : ∀ name ∈ path, valid name = true) (present : path ∈ zk.tree.nodes) (node : Znode)
    (each : ∀ name ∈ zk.tree.children path, ∀ before : ZooKeeper,
      (∀ other ∈ before.tree.nodes, other ∈ zk.tree.nodes) →
        ∃ after, deleteRecursive valid depth (fullPath (name::path)) (-1) before = (.ok (),after) ∧
          Cut before after (name::path)) :
    ∃ middle, (if (statOf zk path node).numChildren > 0 then do
      let children ← getChildren valid (fullPath path)
      children.forM fun childPath =>
        deleteRecursive valid depth (getFullPath (fullPath path) childPath) (-1)
      else pure ()) zk = (.ok (),middle) ∧ Emptied zk middle path := by
  obtain ⟨middle,emptied,removed⟩ := forM_cut _ each
  refine ⟨middle,?_,removed⟩
  by_cases some : (statOf zk path node).numChildren > 0
  · rw [if_pos some,bind_ok _ (getChildren_eq (nodePath_fullPath proper names) zk present)]
    exact emptied
  · have childless : zk.tree.children path = [] :=
      List.length_eq_zero_iff.mp (Nat.eq_zero_of_not_pos some)
    rw [childless] at emptied
    rw [if_neg some]
    exact emptied

private theorem emptied_still {zk middle : ZooKeeper} {path : NodePath} (emptied : Emptied zk middle path) :
    middle.tree.data path = zk.tree.data path := by
  rw [emptied,if_neg]
  rintro ⟨name,_,above⟩
  exact absurd above.length_le (by simp)

private theorem emptied_leaf {zk middle : ZooKeeper} {path : NodePath} (emptied : Emptied zk middle path)
    (present : path ∈ zk.tree.nodes) : middle.tree.Leaf path := by
  obtain ⟨node,found⟩ := NodeTree.data_of_mem present
  refine (middle.tree.leaf_iff path).mpr ⟨?_,fun name member => ?_⟩
  · exact NodeTree.mem_of_data ((emptied_still emptied).trans found)
  · obtain ⟨child,held⟩ := NodeTree.data_of_mem member
    rw [emptied] at held
    split at held
    next => cases held
    next outside =>
      refine outside ⟨name,(zk.tree.mem_children path name).mpr ?_,List.suffix_rfl⟩
      exact NodeTree.mem_of_data held

theorem cut_of_emptied {zk middle after : ZooKeeper} {path : NodePath} (emptied : Emptied zk middle path)
    (gone : ∀ other, after.tree.data other = if other = path then none else middle.tree.data other) :
    Cut zk after path := by
  intro other
  rw [gone,emptied]
  by_cases same : other = path
  · simp [same]
  · rw [if_neg same]
    by_cases below : path <:+ other
    · obtain ⟨child,lower⟩ := NodeTree.suffix_step below same
      rw [if_pos below]
      split
      next => rfl
      next outside =>
        refine (zk.tree.data_eq_none other).mpr fun member => outside ⟨child,?_,lower⟩
        exact (zk.tree.mem_children _ child).mpr (zk.tree.mem_of_suffix lower member)
    · rw [if_neg below,if_neg]
      rintro ⟨child,_,lower⟩
      exact below ((List.suffix_cons child _).trans lower)

theorem cut_absent {zk : ZooKeeper} {path : NodePath} (absent : path ∉ zk.tree.nodes) :
    Cut zk zk path := by
  intro other
  split
  next below =>
    exact (zk.tree.data_eq_none other).mpr fun member => absent (zk.tree.mem_of_suffix below member)
  next => rfl

/-- Once its children are cut, the node is a leaf, and with it all is gone. -/
theorem deleteRecursive_step (proper : Proper valid) (depth : ℕ) {path : NodePath} {zk : ZooKeeper}
    (names : ∀ name ∈ path, valid name = true) (own : path ∉ special)
    (each : ∀ name ∈ zk.tree.children path, ∀ before : ZooKeeper,
      (∀ other ∈ before.tree.nodes, other ∈ zk.tree.nodes) →
        ∃ after, deleteRecursive valid depth (fullPath (name::path)) (-1) before = (.ok (),after) ∧
          Cut before after (name::path)) :
    ∃ after, deleteRecursive valid (depth+1) (fullPath path) (-1) zk = (.ok (),after) ∧
      Cut zk after path := by
  by_cases present : path ∈ zk.tree.nodes
  · obtain ⟨node,found⟩ := NodeTree.data_of_mem present
    have readable := nodePath_fullPath proper names
    obtain ⟨middle,children,emptied⟩ := deleteChildren_emptied proper depth names present node each
    have lower : path ≠ [] := fun top => own (top ▸ List.mem_cons_self)
    obtain ⟨name,parent,rfl⟩ := List.exists_cons_of_ne_nil lower
    obtain ⟨after,deleted,gone⟩ :=
      delete_ok readable own ((emptied_still emptied).trans found) (emptied_leaf emptied present)
    refine ⟨after,?_,cut_of_emptied emptied gone⟩
    rw [deleteRecursive,bind_ok _ (existsPath_eq readable zk),found]
    exact (bind_ok _ children).trans deleted
  · exact ⟨zk,deleteRecursive_absent proper depth names present (-1),cut_absent present⟩

theorem deleteRecursive_cut (proper : Proper valid) (depth : ℕ) (path : NodePath) (zk : ZooKeeper)
    (names : ∀ name ∈ path, valid name = true) (own : path ∉ special)
    (bounded : Bounded valid zk (depth+1) path) :
    ∃ after, deleteRecursive valid (depth+1) (fullPath path) (-1) zk = (.ok (),after) ∧
      Cut zk after path := by
  induction depth generalizing path zk with
  | zero =>
    apply deleteRecursive_step proper 0 names own
    intro name inside
    have child := (zk.tree.mem_children path name).mp inside
    have short := (bounded _ child (List.suffix_cons name path)).2
    rw [List.length_cons] at short
    omega
  | succ depth ih =>
    apply deleteRecursive_step proper (depth+1) names own
    intro name inside before fewer
    have child := (zk.tree.mem_children path name).mp inside
    have childNames := (bounded _ child (List.suffix_cons name path)).1
    exact ih (name::path) before childNames (fun inside => own (special_above inside))
      (bounded_child name (bounded_fewer bounded fewer))

def loaded (zk : ZooKeeper) : ℕ → NodePath → List TreeNode
  | 0,_ => []
  | depth+1,path => (zk.tree.children path).map fun name =>
    let node := zk.tree.data (name::path)
    .mk (fullPath (name::path)) name ((node.bind Znode.data).map newString)
      ((node.map Znode.czxid).getD 0)
      (if zk.tree.children (name::path) = [] then none else some (loaded zk depth (name::path)))

private theorem mapM_ok {script : String → Script ZooKeeper TreeNode} {pure : String → TreeNode}
    {zk : ZooKeeper} (names : List String) (each : ∀ name ∈ names, script name zk = (.ok (pure name),zk)) :
    names.mapM script zk = (.ok (names.map pure),zk) := by
  induction names with
  | nil => rfl
  | cons name rest ih =>
    rw [List.mapM_cons,bind_ok _ (each name List.mem_cons_self),
      bind_ok _ (ih fun other inside => each other (List.mem_cons_of_mem _ inside))]
    rfl

theorem getNode_eq {text : String} {path : NodePath} (readable : nodePath valid text = some path)
    {zk : ZooKeeper} (present : path ∈ zk.tree.nodes) : ∃ node,
      getNode valid newString text zk = (.ok (some node),zk) ∧ node.getFullPath = text := by
  obtain ⟨found,held⟩ := NodeTree.data_of_mem present
  refine ⟨.mk text (getPathName text) (found.data.map newString) found.czxid none,?_,rfl⟩
  rw [getNode,bind_ok _ (existsPath_eq readable zk),held]
  exact bind_ok _ (getData_eq readable zk held)

theorem getNodeData_eq {text : String} {path : NodePath} (readable : nodePath valid text = some path)
    {zk : ZooKeeper} {node : Znode} (found : zk.tree.data path = some node) :
    getNodeData valid newString text zk = (.ok (node.data.map newString,statOf zk path node),zk) := by
  rw [getNodeData,bind_ok _ (getData_eq readable zk found)]
  rfl

theorem loadChildren_eq (proper : Proper valid) (depth : ℕ) (path : NodePath) (zk : ZooKeeper)
    (names : ∀ name ∈ path, valid name = true) (present : path ∈ zk.tree.nodes)
    (bounded : Bounded valid zk depth path) :
    loadChildren valid newString depth (fullPath path) zk = (.ok (loaded newString zk depth path),zk) := by
  induction depth generalizing path with
  | zero =>
    have short := (bounded path present List.suffix_rfl).2
    omega
  | succ depth ih =>
    apply (bind_ok _ (getChildren_eq (nodePath_fullPath proper names) zk present)).trans
    apply mapM_ok _
    intro name inside
    have child := (zk.tree.mem_children path name).mp inside
    have childNames := (bounded _ child (List.suffix_cons name path)).1
    obtain ⟨node,found⟩ := NodeTree.data_of_mem child
    have readable := nodePath_fullPath proper childNames
    have below := ih (name::path) childNames child (bounded_child name bounded)
    have sub : (if (statOf zk (name::path) node).numChildren > 0 then
        some <$> loadChildren valid newString depth (fullPath (name::path)) else pure none) zk =
        (.ok (if zk.tree.children (name::path) = [] then none
          else some (loaded newString zk depth (name::path))),zk) := by
      by_cases childless : zk.tree.children (name::path) = []
      · rw [if_pos childless,if_neg (by simp [statOf,childless])]
        rfl
      · have some : (statOf zk (name::path) node).numChildren > 0 := List.length_pos_iff.mpr childless
        rw [if_neg childless,if_pos some]
        exact (bind_ok _ below)
    refine (bind_ok _ (getNodeData_eq newString readable found)).trans ((bind_ok _ sub).trans ?_)
    rw [found]
    rfl

theorem entriesOf_map (names : List String) (node : String → TreeNode) :
    TreeNode.entriesOf (names.map node) = names.flatMap fun name => (node name).entries := by
  induction names with
  | nil => rfl
  | cons name rest ih => rw [List.map_cons,TreeNode.entriesOf,ih,List.flatMap_cons]

def entry (zk : ZooKeeper) (path : NodePath) : String × Option String :=
  (fullPath path,((zk.tree.data path).bind Znode.data).map newString)

theorem entries_loaded (zk : ZooKeeper) (depth : ℕ) (path : NodePath) :
    TreeNode.entriesOf (loaded newString zk depth path) =
      ((zk.tree.visit (depth+1) path).tail).map (entry newString zk) := by
  induction depth generalizing path with
  | zero => simp [loaded,NodeTree.visit,TreeNode.entriesOf]
  | succ depth ih =>
    rw [loaded,entriesOf_map,NodeTree.visit,List.tail_cons,List.map_flatMap]
    apply List.flatMap_congr
    intro name _
    rw [NodeTree.visit,List.map_cons]
    split
    next childless =>
      rw [childless]
      rfl
    next =>
      rw [TreeNode.entries,ih]
      rfl

/-- The names of a tree are such as ZooKeeper accepts. -/
def Legal (valid : String → Bool) (zk : ZooKeeper) : Prop :=
  ∀ path ∈ zk.tree.nodes, ∀ name ∈ path, valid name = true

private theorem bounded_of_legal {zk : ZooKeeper} (legal : Legal valid zk) {depth : ℕ}
    (deep : zk.tree.height ≤ depth) (path : NodePath) : Bounded valid zk depth path := by
  intro other member _
  have short := zk.tree.length_lt_height other member
  exact ⟨legal other member,by omega⟩

theorem fullPath_injective (proper : Proper valid) {path other : NodePath}
    (names : ∀ name ∈ path, valid name = true) (alsoNames : ∀ name ∈ other, valid name = true)
    (same : fullPath path = fullPath other) : path = other := by
  have read := nodePath_fullPath proper names
  rw [same,nodePath_fullPath proper alsoNames] at read
  exact (Option.some.inj read).symm

/-- Every node of the subtree once, by its full path, and below the root with its data. -/
def Shows (zk : ZooKeeper) (path : NodePath) (tree : TreeNode) : Prop :=
  (tree.entries.map Prod.fst).Nodup ∧
    (∀ text, text ∈ tree.entries.map Prod.fst ↔
      ∃ other ∈ zk.tree.nodes, path <:+ other ∧ fullPath other = text) ∧
    ∀ other node, path <:+ other → other ≠ path → zk.tree.data other = some node →
      (fullPath other,node.data.map newString) ∈ tree.entries

theorem getTree_shows (proper : Proper valid) {zk : ZooKeeper} (legal : Legal valid zk)
    {depth : ℕ} (deep : zk.tree.height ≤ depth) {path : NodePath} (present : path ∈ zk.tree.nodes) :
    ∃ tree, getTree valid newString depth (fullPath path) zk = (.ok tree,zk) ∧
      Shows newString zk path tree := by
  have read := loadChildren_eq newString proper depth path zk (legal path present) present
    (bounded_of_legal legal deep path)
  refine ⟨.mk (fullPath path) (fullPath path) none 0 (some (loaded newString zk depth path)),?_,?_⟩
  · rw [getTree,bind_ok _ read]
    rfl
  have visited : ∀ other, other ∈ zk.tree.visit (depth+1) path ↔ other ∈ zk.tree.nodes ∧ path <:+ other := by
    intro other
    rw [NodeTree.mem_visit _ _ _ _ present]
    constructor
    · exact fun inside => ⟨inside.2.1,inside.1⟩
    · intro inside
      have short := zk.tree.length_lt_height other inside.1
      exact ⟨inside.2,inside.1,by omega⟩
  have paths : (TreeNode.entries (.mk (fullPath path) (fullPath path) none 0
      (some (loaded newString zk depth path)))).map Prod.fst =
        (zk.tree.visit (depth+1) path).map fullPath := by
    rw [TreeNode.entries,entries_loaded,NodeTree.visit]
    simp [entry,Function.comp_def]
  refine ⟨?_,fun text => ?_,fun other node below apart found => ?_⟩
  · rw [paths]
    apply (zk.tree.visit_nodup _ path).map_on
    intro first here second there
    exact fullPath_injective proper (legal first ((visited first).mp here).1)
      (legal second ((visited second).mp there).1)
  · rw [paths,List.mem_map]
    simp only [visited,and_assoc]
  · have inside : other ∈ zk.tree.visit (depth+1) path :=
      (visited other).mpr ⟨NodeTree.mem_of_data found,below⟩
    rw [TreeNode.entries,entries_loaded]
    refine List.mem_cons_of_mem _ (List.mem_map.mpr ⟨other,?_,?_⟩)
    · exact (List.mem_cons.mp inside).resolve_left apart
    · rw [entry,found]
      rfl

/-- With a stack higher than the tree: deletion removes just the nodes at and below its
path, which is not the server's own, and the tree that is read has just those. -/
theorem subtree_operations (proper : Proper valid) (zk : ZooKeeper) (legal : Legal valid zk)
    (path : NodePath) (present : path ∈ zk.tree.nodes) (depth : ℕ) (deep : zk.tree.height ≤ depth) :
    (path ∉ special → ∃ after,
      deleteChildrenIfExists valid depth (fullPath path) (-1) zk = (.ok (),after) ∧ Cut zk after path) ∧
    ∃ tree, getTree valid newString depth (fullPath path) zk = (.ok tree,zk) ∧
      Shows newString zk path tree := by
  refine ⟨fun own => ?_,getTree_shows newString proper legal deep present⟩
  obtain ⟨below,rfl⟩ : ∃ below, depth = below+1 := ⟨depth-1,by
    have short := zk.tree.length_lt_height path present
    omega⟩
  exact deleteRecursive_cut proper below path zk (legal path present) own
    (bounded_of_legal legal deep path)

def siblings : ZooKeeper :=
  (createNode none .persistent ["ab"] (createNode none .persistent ["b","a"]
    (createNode none .persistent ["a"] .fresh).2).2).2

theorem siblings_legal : Legal plainName siblings := fun path member =>
  (by decide +kernel : ∀ path ∈ siblings.tree.nodes.keys, ∀ name ∈ path, plainName name = true) path
    (AList.mem_keys.mp member)

theorem subtree_operations_siblings : ∃ after,
    deleteChildrenIfExists plainName 3 "/a" (-1) siblings = (.ok (),after) ∧
      after.tree.data ["b","a"] = none ∧ after.tree.data ["ab"] = siblings.tree.data ["ab"] ∧
        ["ab"] ∈ siblings.tree.nodes := by
  obtain ⟨after,deleted,cut⟩ := (subtree_operations (fun _ => "") plainName_proper siblings
    siblings_legal ["a"] (by decide +kernel) 3 (by decide +kernel)).1 (by decide)
  exact ⟨after,deleted,(cut _).trans (if_pos (by decide)),(cut _).trans (if_neg (by decide)),
    by decide +kernel⟩

/-- As a server starts. -/
def started : ZooKeeper :=
  (createNode none .persistent ["quota","zookeeper"] (createNode none .persistent ["zookeeper"] .fresh).2).2

theorem zookeeper_kept :
    ["zookeeper"] ∈ started.tree.nodes ∧ Legal plainName started ∧
      ∀ depth, ¬ ∃ after, deleteChildrenIfExists plainName depth "/zookeeper" (-1) started = (.ok (),after) := by
  refine ⟨by decide +kernel,fun path member => ?_,fun depth => ?_⟩
  · exact (by decide +kernel : ∀ path ∈ started.tree.nodes.keys, ∀ name ∈ path, plainName name = true) path
      (AList.mem_keys.mp member)
  · rintro ⟨after,deleted⟩
    have failed : ∃ fault, (deleteChildrenIfExists plainName depth "/zookeeper" (-1) started).1 = .error fault := by
      cases depth with
      | zero => exact ⟨_,rfl⟩
      | succ depth =>
        cases depth with
        | zero => exact ⟨_,rfl⟩
        | succ depth => exact ⟨_,rfl⟩
    rw [deleted] at failed
    obtain ⟨fault,same⟩ := failed
    cases same

end YzFramework.Zookeeper.ZK
