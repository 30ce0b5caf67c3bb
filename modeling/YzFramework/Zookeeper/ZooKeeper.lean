import YzFramework.Config.SubtreeReload
import YzFramework.Library.Script
import Mathlib.Data.Fintype.Basic

/-! The requests of a ZooKeeper client and their effects on the server's nodes. The
client is connected and allowed to do what it asks for. -/
namespace YzFramework.Zookeeper
open Library Library.Script Config
open Config.PropertyRegistry (fullPath getFullPath fullPath_slash fullPath_child fullPath_long fullPath_toList)

abbrev Bytes := List UInt8

structure CreateMode where
  ephemeral : Bool
  sequential : Bool
deriving DecidableEq

def CreateMode.persistent : CreateMode := ⟨false,false⟩

structure Znode where
  data : Option Bytes
  ephemeral : Bool
  version : ℤ
  czxid : ℕ

structure Stat where
  czxid : ℕ
  numChildren : ℕ

/-- The nodes with the root, where ephemeral ones have no children; the creations below
each node, and the number of the last change. -/
structure ZooKeeper where
  tree : NodeTree String Znode
  cversion : NodePath → ℕ := fun _ => 0
  zxid : ℕ := 0
  rooted : [] ∈ tree.nodes
  childless : ∀ path node, tree.data path = some node → node.ephemeral = true →
    ∀ name, name::path ∉ tree.nodes

theorem empty_seated : (NodeTree.empty : NodeTree String Znode).Seated [] := trivial

def ZooKeeper.fresh : ZooKeeper where
  tree := NodeTree.empty.put [] ⟨none,false,0,0⟩ empty_seated
  rooted := (NodeTree.mem_put _ _ _ _ _).mpr (.inl rfl)
  childless := fun path node _ _ name member => by
    rcases (NodeTree.mem_put _ _ _ _ _).mp member with here | inside
    · cases here
    · exact AList.notMem_empty _ inside

theorem ZooKeeper.mem_fresh (path : NodePath) : path ∈ ZooKeeper.fresh.tree.nodes ↔ path = [] := by
  rw [ZooKeeper.fresh,NodeTree.mem_put]
  exact or_iff_left (AList.notMem_empty path)

theorem ZooKeeper.fresh_lasting {path : NodePath} {node : Znode}
    (found : ZooKeeper.fresh.tree.data path = some node) : node.ephemeral = false := by
  rw [ZooKeeper.fresh,NodeTree.data_put] at found
  split at found
  next => exact Option.some.inj found ▸ rfl
  next => cases found

def suffix (cversion : ℕ) : String :=
  String.ofList (List.replicate (10-(toString cversion).length) '0')++toString cversion

theorem suffix_long (name : String) (cversion : ℕ) :
    name.toList.length < (name++suffix cversion).toList.length := by
  have digits : (toString cversion).toList.length = (toString cversion).length :=
    String.length_toList
  rw [String.toList_append,List.length_append,suffix,String.toList_append,List.length_append,
    String.toList_ofList,List.length_replicate]
  omega

-- ZooKeeper's check of a node's name
variable (valid : String → Bool)

def nodePath (path : String) : Option NodePath :=
  match path.toList with
  | '/'::rest =>
    let names := if rest = [] then [] else (rest.splitOn '/').map String.ofList
    if names.all valid then some names.reverse else none
  | _ => none

def validatePath (path : String) : Except String NodePath :=
  match nodePath valid path with
  | some names => .ok names
  | none => .error "IllegalArgumentException"

def statOf (zk : ZooKeeper) (path : NodePath) (node : Znode) : Stat :=
  ⟨node.czxid,(zk.tree.children path).length⟩

def existsPath (path : String) : Script ZooKeeper (Option Stat) := do
  let names ← (validatePath valid path : Except String NodePath)
  fun zk => (.ok ((zk.tree.data names).map (statOf zk names)),zk)

def getChildren (path : String) : Script ZooKeeper (List String) := do
  let names ← (validatePath valid path : Except String NodePath)
  fun zk =>
    if names ∈ zk.tree.nodes then (.ok (zk.tree.children names),zk)
    else (.error "NoNode",zk)

def getData (path : String) : Script ZooKeeper (Option Bytes × Stat) := do
  let names ← (validatePath valid path : Except String NodePath)
  fun zk =>
    match zk.tree.data names with
    | some node => (.ok (node.data,statOf zk names node),zk)
    | none => (.error "NoNode",zk)

private theorem childless_put {zk : ZooKeeper} {name : String} {parent : NodePath} {above node : Znode}
    (found : zk.tree.data parent = some above) (lasting : above.ephemeral = false)
    (fresh : name::parent ∉ zk.tree.nodes) (seated : zk.tree.Seated (name::parent)) :
    ∀ path other, (zk.tree.put (name::parent) node seated).data path = some other →
      other.ephemeral = true →
        ∀ child, child::path ∉ (zk.tree.put (name::parent) node seated).nodes := by
  intro path other held ephemeral child member
  rw [NodeTree.data_put] at held
  rcases (zk.tree.mem_put _ _ _ seated).mp member with here | inside
  · obtain ⟨rfl,rfl⟩ := List.cons.inj here
    rw [if_neg (List.cons_ne_self _ _).symm,found] at held
    rw [← Option.some.inj held,lasting] at ephemeral
    contradiction
  · split at held
    next same => exact fresh (same ▸ zk.tree.closed child path inside)
    next => exact zk.childless path other held ephemeral child inside

def ZooKeeper.insert (zk : ZooKeeper) (name : String) (parent : NodePath) (data : Option Bytes)
    (mode : CreateMode) {above : Znode} (found : zk.tree.data parent = some above)
    (lasting : above.ephemeral = false) (fresh : name::parent ∉ zk.tree.nodes) : ZooKeeper where
  tree := zk.tree.put (name::parent) ⟨data,mode.ephemeral,0,zk.zxid+1⟩ (NodeTree.mem_of_data found)
  cversion := Function.update (Function.update zk.cversion (name::parent) 0) parent
    (zk.cversion parent+1)
  zxid := zk.zxid+1
  rooted := (zk.tree.mem_put _ _ _ _).mpr (.inr zk.rooted)
  childless := childless_put found lasting fresh (NodeTree.mem_of_data found)

def placed (zk : ZooKeeper) (name : String) (parent : NodePath) (mode : CreateMode) : String :=
  if mode.sequential then name++suffix (zk.cversion parent) else name

/-- The server's part of a creation; its reply is the path that was created. -/
def createNode (data : Option Bytes) (mode : CreateMode) : NodePath → Script ZooKeeper String
  | [],zk => (.error "NodeExists",zk)
  | name::parent,zk =>
    match found : zk.tree.data parent with
    | none => (.error "NoNode",zk)
    | some above =>
      if fresh : placed zk name parent mode::parent ∉ zk.tree.nodes then
        if lasting : above.ephemeral = false then
          (.ok (fullPath (placed zk name parent mode::parent)),
            zk.insert (placed zk name parent mode) parent data mode found lasting fresh)
        else (.error "NoChildrenForEphemerals",zk)
      else (.error "NodeExists",zk)

def create (path : String) (data : Option Bytes) (mode : CreateMode) : Script ZooKeeper String := do
  let names ← (validatePath valid path : Except String NodePath)
  createNode data mode names

/-- The root and the server's own nodes, which cannot be deleted. -/
def special : List NodePath := [[],["zookeeper"],["quota","zookeeper"]]

theorem special_above {name : String} {path : NodePath} (inside : name::path ∈ special) : path ∈ special := by
  simp only [special,List.mem_cons,List.cons_eq_cons,List.not_mem_nil,or_false] at inside ⊢
  rcases inside with top | ⟨_,rfl⟩ | ⟨_,rfl⟩
  · cases top
  · exact .inl rfl
  · exact .inr (.inl rfl)

/-- The server's part of a deletion, where −1 means any version. -/
def deleteNode (version : ℤ) : NodePath → Script ZooKeeper Unit
  | [],zk => (.error "BadArguments",zk)
  | name::parent,zk =>
    if name::parent ∈ special then (.error "BadArguments",zk)
    else match zk.tree.data (name::parent) with
    | none => (.error "NoNode",zk)
    | some node =>
      if version ≠ -1 ∧ version ≠ node.version then (.error "BadVersion",zk)
      else
        match deleted : zk.tree.delete (name::parent) with
        | none => (.error "NotEmpty",zk)
        | some tree =>
          (.ok (),{
            tree
            cversion := zk.cversion
            zxid := zk.zxid+1
            rooted := ((NodeTree.delete_some deleted).2.1 []).mpr ⟨(List.cons_ne_nil _ _).symm,zk.rooted⟩
            childless := fun path other held ephemeral child member => by
              obtain ⟨_,mem,data⟩ := NodeTree.delete_some deleted
              rw [data] at held
              split at held
              · contradiction
              · exact zk.childless path other held ephemeral child ((mem _).mp member).2 })

def delete (path : String) (version : ℤ) : Script ZooKeeper Unit := do
  let names ← (validatePath valid path : Except String NodePath)
  deleteNode version names

structure Proper : Prop where
  named : valid "" = false
  plain : ∀ name, valid name = true → '/' ∉ name.toList

def plainName (name : String) : Bool := name ≠ "" && !name.toList.contains '/'

theorem plainName_proper : Proper plainName where
  named := by decide
  plain name accepted := by
    simp only [plainName,Bool.and_eq_true,Bool.not_eq_true',List.contains_eq_mem,
      decide_eq_false_iff_not] at accepted
    exact accepted.2

variable {valid}

theorem Proper.unnamed (proper : Proper valid) {path : NodePath}
    (names : ∀ name ∈ path, valid name = true) : "" ∉ path := fun inside => by
  simpa [proper.named] using names "" inside

theorem fullPath_top {path : NodePath} (named : "" ∉ path) (slash : fullPath path = "/") :
    path = [] := by
  cases path with
  | nil => rfl
  | cons name parent =>
    have long := fullPath_long (fun empty => named (empty ▸ List.mem_cons_self)) parent
    rw [slash] at long
    exact absurd long (by decide)

theorem nodePath_fullPath (proper : Proper valid) {path : NodePath}
    (names : ∀ name ∈ path, valid name = true) : nodePath valid (fullPath path) = some path := by
  by_cases top : path = []
  · subst top
    rfl
  · have parts : path.reverse.map String.toList ≠ [] := by simpa using top
    have plain : ∀ part ∈ path.reverse.map String.toList, '/' ∉ part := by
      intro part inside
      obtain ⟨name,listed,rfl⟩ := List.mem_map.mp inside
      exact proper.plain name (names name (List.mem_reverse.mp listed))
    have split := List.splitOn_intercalate '/' plain parts
    have some : ['/'].intercalate (path.reverse.map String.toList) ≠ [] := by
      intro empty
      rw [empty] at split
      have single : [[]] = path.reverse.map String.toList := split
      obtain ⟨name,listed,unnamed⟩ := List.mem_map.mp (single ▸ List.mem_cons_self)
      apply proper.unnamed names
      rw [← String.toList_inj.mp (unnamed.trans (String.toList_empty).symm)]
      exact List.mem_reverse.mp listed
    rw [nodePath,fullPath_toList (proper.unnamed names) top]
    simp only [if_neg some,split,List.map_map]
    have back : path.reverse.map (String.ofList ∘ String.toList) = path.reverse := by
      simp [Function.comp_def]
    rw [back,if_pos (by simpa using names),List.reverse_reverse]

theorem fullPath_nodePath (proper : Proper valid) {text : String} {path : NodePath}
    (read : nodePath valid text = some path) :
    fullPath path = text ∧ ∀ name ∈ path, valid name = true := by
  unfold nodePath at read
  split at read
  next rest begins =>
    obtain ⟨accepted,reversed⟩ := Option.ite_none_right_eq_some.mp read
    have path_eq := Option.some.inj reversed
    have names : ∀ name ∈ path, valid name = true := by
      rw [← path_eq]
      intro name inside
      exact List.all_eq_true.mp accepted name (List.mem_reverse.mp inside)
    refine ⟨String.toList_inj.mp ?_,names⟩
    by_cases top : rest = []
    · rw [if_pos top] at path_eq
      rw [begins,top,← path_eq]
      rfl
    · rw [if_neg top] at path_eq
      have lower : path ≠ [] := by
        rw [← path_eq]
        simp [List.splitOn_ne_nil]
      rw [begins,fullPath_toList (proper.unnamed names) lower,← path_eq]
      simp [Function.comp_def]
  next => contradiction

section Requests
variable {text : String} {path : NodePath} (readable : nodePath valid text = some path)
  (zk : ZooKeeper)
include readable

theorem validatePath_bind {Reply : Type} (next : NodePath → Script ZooKeeper Reply) :
    ((liftM (validatePath valid text) : Script ZooKeeper NodePath) >>= next) zk = next path zk := by
  rw [validatePath,readable]
  rfl

theorem existsPath_eq :
    existsPath valid text zk = (.ok ((zk.tree.data path).map (statOf zk path)),zk) :=
  validatePath_bind readable zk _

theorem getChildren_eq (present : path ∈ zk.tree.nodes) :
    getChildren valid text zk = (.ok (zk.tree.children path),zk) :=
  (validatePath_bind readable zk _).trans (if_pos present)

theorem getData_eq {node : Znode} (found : zk.tree.data path = some node) :
    getData valid text zk = (.ok (node.data,statOf zk path node),zk) := by
  apply (validatePath_bind readable zk _).trans
  simp only [found]

end Requests

/-- The parent is there and may have children, and the name to be created is free. -/
def Creatable (zk : ZooKeeper) (name : String) (parent : NodePath) (mode : CreateMode) : Prop :=
  (∃ above, zk.tree.data parent = some above ∧ above.ephemeral = false) ∧
    placed zk name parent mode::parent ∉ zk.tree.nodes

section Creation
variable {text name : String} {parent : NodePath} (readable : nodePath valid text = some (name::parent))
  {zk : ZooKeeper} (data : Option Bytes) {mode : CreateMode}
include readable

theorem create_ok (creatable : Creatable zk name parent mode) :
    ∃ after, create valid text data mode zk = (.ok (fullPath (placed zk name parent mode::parent)),after) ∧
      ∀ other, after.tree.data other =
        if other = placed zk name parent mode::parent then some ⟨data,mode.ephemeral,0,zk.zxid+1⟩
        else zk.tree.data other := by
  obtain ⟨⟨above,found,lasting⟩,fresh⟩ := creatable
  refine ⟨zk.insert (placed zk name parent mode) parent data mode found lasting fresh,?_,?_⟩
  · apply (validatePath_bind readable zk _).trans
    rw [createNode]
    split
    next missing => simp [found] at missing
    next node held =>
      obtain rfl : above = node := Option.some.inj (found.symm.trans held)
      rw [dif_pos fresh,dif_pos lasting]
  · exact fun other => zk.tree.data_put (placed zk name parent mode::parent) other _ (NodeTree.mem_of_data found)

theorem create_fails (refused : ¬ Creatable zk name parent mode) :
    ∃ fault, create valid text data mode zk = (.error fault,zk) := by
  have run : create valid text data mode zk = createNode data mode (name::parent) zk :=
    validatePath_bind readable zk _
  rw [run,createNode]
  split
  next => exact ⟨_,rfl⟩
  next above found =>
    split
    next fresh =>
      split
      next lasting => exact absurd ⟨⟨above,found,lasting⟩,fresh⟩ refused
      next => exact ⟨_,rfl⟩
    next => exact ⟨_,rfl⟩

theorem delete_ok {node : Znode} (own : name::parent ∉ special) (found : zk.tree.data (name::parent) = some node)
    (leaf : zk.tree.Leaf (name::parent)) :
    ∃ after, delete valid text (-1) zk = (.ok (),after) ∧
      ∀ other, after.tree.data other = if other = name::parent then none else zk.tree.data other := by
  have run : delete valid text (-1) zk = deleteNode (-1) (name::parent) zk :=
    validatePath_bind readable zk _
  obtain ⟨tree,deleted⟩ : ∃ tree, zk.tree.delete (name::parent) = some tree := by
    rw [NodeTree.delete,dif_pos leaf]
    exact ⟨_,rfl⟩
  rw [run,deleteNode,if_neg own,found]
  simp only [ne_eq,not_true_eq_false,false_and,if_false]
  split
  next missing => simp [deleted] at missing
  next other held =>
    obtain rfl : tree = other := Option.some.inj (deleted.symm.trans held)
    exact ⟨_,rfl,(NodeTree.delete_some deleted).2.2⟩

end Creation

end YzFramework.Zookeeper
