import YzFramework.Zookeeper.ZK
import YzFramework.Zookeeper.Subtree

/-! The admin's `addNode`, which creates a node for each segment of a dotted name. -/
namespace YzFramework.Zookeeper
open Library Library.Script Config ZK
open Config.PropertyRegistry (fullPath getFullPath)

variable (valid : String → Bool) (newString : Bytes → String)

/-- An exception is logged, and the answer is null. -/
def ZookeeperManager.addNode (parentFullPath path : String) : Script ZooKeeper (Option TreeNode) :=
  orNull do
    let fullPath := getFullPath parentFullPath path
    createParentNodeIfExists valid fullPath none (.withMode .persistent)
    getNode valid newString fullPath

namespace ZookeeperController

-- `StringUtils.hasText` of Spring
variable (hasText : String → Bool)

/-- The loop of `addNode` over the segments after the first one: a node goes below the
one before, or below the first one while there is no other. -/
def addSubNodes (treeNode : Option TreeNode) :
    Option TreeNode → List String → Script ZooKeeper Unit
  | _,[] => pure ()
  | subNode,subPath::rest =>
    if hasText subPath then
      match subNode.or treeNode with
      | some node => do
        let node ← ZookeeperManager.addNode valid newString node.getFullPath subPath
        addSubNodes treeNode node rest
      | none => fun zk => (.error "NullPointerException",zk)
    else addSubNodes treeNode subNode rest

def addNode (parentFullPath path : String) : Script ZooKeeper Unit :=
  match Text.split (· == '.') path with
  | [] => fun zk => (.error "ArrayIndexOutOfBoundsException",zk)
  | first::rest => do
    let treeNode ← ZookeeperManager.addNode valid newString parentFullPath first
    addSubNodes valid newString hasText treeNode none rest

end ZookeeperController

/-- Nodes from before are as they were, and new ones are empty, not ephemeral and on the
path. -/
def Extended (zk after : ZooKeeper) (path : NodePath) : Prop :=
  (∀ other node, zk.tree.data other = some node → after.tree.data other = some node) ∧
    ∀ other node, zk.tree.data other = none → after.tree.data other = some node →
      other <:+ path ∧ node.data = none ∧ node.ephemeral = false

private theorem extended_refl (zk : ZooKeeper) (path : NodePath) : Extended zk zk path :=
  ⟨fun _ _ => id,fun other node absent found => by simp [absent] at found⟩

private theorem extended_trans {zk middle after : ZooKeeper} {path : NodePath}
    (before : Extended zk middle path) (next : Extended middle after path) : Extended zk after path := by
  refine ⟨fun other node found => next.1 other node (before.1 other node found),?_⟩
  intro other node absent found
  cases held : middle.tree.data other with
  | none => exact next.2 other node held found
  | some earlier =>
    obtain rfl : earlier = node := Option.some.inj ((next.1 other earlier held).symm.trans found)
    exact before.2 other earlier absent held

private theorem extended_longer {zk after : ZooKeeper} {path lower : NodePath} (above : path <:+ lower)
    (extended : Extended zk after path) : Extended zk after lower :=
  ⟨extended.1,fun other node absent found =>
    (extended.2 other node absent found).imp_left fun inside => inside.trans above⟩

private theorem lasting_extended {zk after : ZooKeeper} {path : NodePath} (extended : Extended zk after path)
    (lasting : Lasting zk path) : Lasting after path := by
  intro upper node above found
  cases held : zk.tree.data upper with
  | none => exact (extended.2 upper node held found).2.2
  | some earlier =>
    obtain rfl : earlier = node := Option.some.inj ((extended.1 upper earlier held).symm.trans found)
    exact lasting upper earlier above held

section AddNode
variable {valid newString}
variable (proper : Proper valid)
include proper

theorem createRecursive_extends {zk : ZooKeeper} {name : String} {parent : NodePath}
    (names : ∀ segment ∈ name::parent, valid segment = true)
    (seated : parent ∈ zk.tree.nodes) (lasting : Lasting zk (name::parent)) :
    ∃ after, createRecursive valid (fullPath (name::parent)) none .persistent zk = (.ok (),after) ∧
      name::parent ∈ after.tree.nodes ∧ Extended zk after (name::parent) := by
  by_cases present : name::parent ∈ zk.tree.nodes
  · exact ⟨zk,createRecursive_present proper none .persistent names present,present,extended_refl _ _⟩
  · have parents : ∀ segment ∈ parent, valid segment = true := fun segment inside =>
      names segment (List.mem_cons_of_mem _ inside)
    have creatable := (creatable_persistent_iff name parent).mpr ⟨present,lasting,seated⟩
    obtain ⟨after,made,holds⟩ := create_ok (nodePath_fullPath proper names) none creatable
    refine ⟨after,?_,NodeTree.mem_of_data ((holds _).trans (if_pos rfl)),fun other node found => ?_,?_⟩
    · rw [createRecursive_absent proper none .persistent names present,
        bind_ok _ (createRecursive_present proper none .persistent parents seated),bind_ok _ made]
      rfl
    · rw [holds,if_neg,found]
      exact fun same => creatable.2 (same ▸ NodeTree.mem_of_data found)
    · intro other node absent found
      rw [holds,absent] at found
      split at found
      next same =>
        rw [← Option.some.inj found]
        exact ⟨same ▸ List.suffix_rfl,rfl,rfl⟩
      next => cases found

theorem addNode_extends {zk : ZooKeeper} {name : String} {parent : NodePath}
    (names : ∀ segment ∈ name::parent, valid segment = true)
    (seated : parent ∈ zk.tree.nodes) (lasting : Lasting zk (name::parent)) :
    ∃ after node, ZookeeperManager.addNode valid newString (fullPath parent) name zk =
        (.ok (some node),after) ∧
      node.getFullPath = fullPath (name::parent) ∧ name::parent ∈ after.tree.nodes ∧
      Extended zk after (name::parent) := by
  obtain ⟨after,created,present,extended⟩ := createRecursive_extends proper names seated lasting
  obtain ⟨node,read,shown⟩ := getNode_eq newString (nodePath_fullPath proper names) present
  exact ⟨after,node,orNull_ok ((bind_ok _ created).trans read),shown,present,extended⟩

theorem addSubNodes_extends {hasText : String → Bool} (segments : List String) {zk : ZooKeeper}
    {path : NodePath} {treeNode subNode : Option TreeNode} {current : TreeNode}
    (held : subNode.or treeNode = some current) (shown : current.getFullPath = fullPath path)
    (names : ∀ segment ∈ (segments.filter hasText).reverse++path, valid segment = true)
    (seated : path ∈ zk.tree.nodes) (lasting : Lasting zk ((segments.filter hasText).reverse++path)) :
    ∃ after, ZookeeperController.addSubNodes valid newString hasText treeNode subNode segments zk =
        (.ok (),after) ∧
      (segments.filter hasText).reverse++path ∈ after.tree.nodes ∧
      Extended zk after ((segments.filter hasText).reverse++path) := by
  induction segments generalizing zk path subNode current with
  | nil => exact ⟨zk,by rw [ZookeeperController.addSubNodes]; rfl,seated,extended_refl _ _⟩
  | cons segment rest ih =>
    rw [ZookeeperController.addSubNodes]
    by_cases text : hasText segment = true
    · rw [List.filter_cons_of_pos text,List.reverse_cons,List.append_assoc] at names lasting ⊢
      have below : [segment]++path = segment::path := rfl
      rw [below] at names lasting ⊢
      have above : segment::path <:+ (rest.filter hasText).reverse++segment::path :=
        List.suffix_append _ _
      have lastingChild : Lasting zk (segment::path) := fun upper node higher =>
        lasting upper node (higher.trans above)
      have childNames : ∀ part ∈ segment::path, valid part = true := fun part inside =>
        names part (List.mem_append_right _ inside)
      obtain ⟨middle,node,added,same,present,extended⟩ := addNode_extends proper childNames seated lastingChild
      have further := extended_longer above extended
      obtain ⟨after,ran,there,grown⟩ := ih (Option.some_or (a := node)) same names present
        (lasting_extended further lasting)
      refine ⟨after,?_,there,extended_trans further grown⟩
      rw [if_pos text,held]
      dsimp only
      rw [shown]
      exact (bind_ok _ added).trans ran
    · rw [List.filter_cons_of_neg text] at names lasting ⊢
      rw [if_neg text]
      exact ih held shown names seated lasting

theorem controller_addNode_extends {hasText : String → Bool} {name first : String} {rest : List String}
    (split : Text.split (· == '.') name = first::rest) (zk : ZooKeeper)
    (names : ∀ segment ∈ (rest.filter hasText).reverse++[first], valid segment = true)
    (lasting : Lasting zk ((rest.filter hasText).reverse++[first])) :
    ∃ after, ZookeeperController.addNode valid newString hasText "/" name zk = (.ok (),after) ∧
      (rest.filter hasText).reverse++[first] ∈ after.tree.nodes ∧
      Extended zk after ((rest.filter hasText).reverse++[first]) := by
  have above : [first] <:+ (rest.filter hasText).reverse++[first] := List.suffix_append _ _
  have firstNames : ∀ part ∈ [first], valid part = true := fun part inside =>
    names part (List.mem_append_right _ inside)
  obtain ⟨middle,node,added,shown,present,extended⟩ := addNode_extends proper firstNames zk.rooted
    fun upper node higher => lasting upper node (higher.trans above)
  have further := extended_longer above extended
  obtain ⟨after,ran,there,grown⟩ := addSubNodes_extends proper rest (Option.none_or (o := some node))
    shown names present (lasting_extended further lasting)
  refine ⟨after,?_,there,extended_trans further grown⟩
  rw [ZookeeperController.addNode,split]
  exact (bind_ok _ added).trans ran

end AddNode

end YzFramework.Zookeeper
