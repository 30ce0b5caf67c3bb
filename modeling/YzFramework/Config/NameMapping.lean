import YzFramework.Zookeeper.ZookeeperController

/-! The names under which `PropertyRegistry` loads the leaves of a tree, and those under
which it finds what the admin has added. -/
namespace YzFramework.Config.NameMapping
open Library Library.Script PropertyRegistry Zookeeper

variable (newString : Bytes → String)

/-- The server's nodes as `PropertyRegistry` reads them. -/
def configTree (zk : ZooKeeper) : ConfigTree := zk.tree.map fun node => node.data.map newString

def segments (name : String) : List String := (name.toList.splitOn '.').map String.ofList

/-- ZooKeeper's own rule for names. -/
def WellNamed (path : NodePath) : Prop := ∀ segment ∈ path, segment ≠ "" ∧ '/' ∉ segment.toList

def Dotless (path : NodePath) : Prop := ∀ segment ∈ path, '.' ∉ segment.toList

private theorem legal_of_dotless {path : NodePath} (named : WellNamed path) (dotless : Dotless path) :
    Legal path :=
  fun segment inside => ⟨(named segment inside).1,(named segment inside).2,dotless segment inside⟩

private theorem leaf_top {tree : ConfigTree} (top : tree.Leaf []) {path : NodePath} (leaf : tree.Leaf path) :
    path = [] := by
  by_contra lower
  obtain ⟨name,inside⟩ := NodeTree.suffix_step (List.nil_suffix (l := path)) lower
  exact ((tree.leaf_iff []).mp top).2 name (tree.mem_of_suffix inside leaf.1)

private theorem leaf_names_differ {tree : ConfigTree} (named : ∀ path ∈ tree.nodes, WellNamed path)
    {path other : NodePath} (leaf : tree.Leaf path) (alsoLeaf : tree.Leaf other)
    (dotless : Dotless path) (alsoDotless : Dotless other) (same : nameOf path = nameOf other) :
    path = other := by
  by_cases top : path = []
  · subst top
    exact (leaf_top leaf alsoLeaf).symm
  · by_cases alsoTop : other = []
    · subst alsoTop
      exact leaf_top alsoLeaf leaf
    · exact nameOf_injective (legal_of_dotless (named path leaf.1) dotless)
        (legal_of_dotless (named other alsoLeaf.1) alsoDotless) top alsoTop same

private theorem leaf_loaded {tree : ConfigTree} (named : ∀ path ∈ tree.nodes, WellNamed path)
    (dotless : ∀ leaf, tree.Leaf leaf → Dotless leaf) (rooted : [] ∈ tree.nodes) {leaf : NodePath}
    (isLeaf : tree.Leaf leaf) : (Table.putAll ∅ (loaded tree []) : Table String Property).lookup (nameOf leaf) =
      some ⟨valueOf tree leaf,true⟩ := by
  have listed : ∀ path, path ∈ leaves tree [] ↔ tree.Leaf path := fun path => by
    rw [mem_leaves tree [] path rooted]
    exact and_iff_right List.nil_suffix
  have inside : (nameOf leaf,⟨valueOf tree leaf,true⟩) ∈ loaded tree [] :=
    List.mem_map_of_mem ((listed leaf).mpr isLeaf)
  obtain ⟨pair,member,same,found⟩ := Table.lookup_putAll_inside ∅ _ (nameOf leaf) ⟨_,inside,rfl⟩
  obtain ⟨other,alsoListed,rfl⟩ := List.mem_map.mp member
  have alsoLeaf := (listed other).mp alsoListed
  rw [found,leaf_names_differ named alsoLeaf isLeaf (dotless other alsoLeaf) (dotless leaf isLeaf) same]

theorem split_segments {name : String} (named : "" ∉ segments name) :
    Text.split (· == '.') name = segments name := by
  rw [segments,List.splitOn_eq_splitOnP]
  exact Text.split_full fun empty => named (List.mem_map_of_mem empty)

theorem nameOf_segments {name : String} (named : "" ∉ segments name)
    (plain : ∀ segment ∈ segments name, '/' ∉ segment.toList) :
    nameOf (segments name).reverse = name := by
  have some : segments name ≠ [] := by simp [segments,List.splitOn_ne_nil]
  have dots := @nameOf_eq (segments name).reverse (fun inside => named (List.mem_reverse.mp inside))
    (fun segment inside => plain segment (List.mem_reverse.mp inside)) (by simpa using some)
  refine String.toList_inj.mp (dots.trans ?_)
  simp [segments,Function.comp_def]

private theorem extended_leaf {zk after : ZooKeeper} {path : NodePath} (present : path ∈ after.tree.nodes)
    (extended : Extended zk after path) (free : ∀ child, child::path ∉ zk.tree.nodes) :
    path ∈ leaves (configTree newString after) [] := by
  have rooted : [] ∈ (configTree newString after).nodes :=
    (after.tree.mem_map _ []).mpr after.rooted
  refine (mem_leaves _ [] path rooted).mpr ⟨List.nil_suffix,?_⟩
  refine (after.tree.leaf_map _ path).mpr ((after.tree.leaf_iff path).mpr ⟨present,fun child member => ?_⟩)
  obtain ⟨node,found⟩ := NodeTree.data_of_mem member
  have absent := (zk.tree.data_eq_none _).mpr (free child)
  have longer := (extended.2 _ node absent found).1.length_le
  rw [List.length_cons] at longer
  omega

/-- For a name of segments with text, of which ZooKeeper accepts each, on a path without
ephemeral nodes and children. -/
theorem added_loaded {valid : String → Bool} (proper : Proper valid) (hasText : String → Bool)
    (zk : ZooKeeper) (name : String) (accepted : ∀ segment ∈ segments name, valid segment = true)
    (text : ∀ segment ∈ (segments name).tail, hasText segment = true)
    (lasting : ZK.Lasting zk (segments name).reverse)
    (free : ∀ child, child::(segments name).reverse ∉ zk.tree.nodes) :
    ∃ after, ZookeeperController.addNode valid newString hasText "/" name zk = (.ok (),after) ∧
      Extended zk after (segments name).reverse ∧
      (segments name).reverse ∈ leaves (configTree newString after) [] ∧
      nameOf (segments name).reverse = name := by
  have named : "" ∉ segments name := proper.unnamed accepted
  obtain ⟨first,rest,pieces⟩ : ∃ first rest, segments name = first::rest :=
    List.exists_cons_of_ne_nil (by simp [segments,List.splitOn_ne_nil])
  have path : (segments name).reverse = (rest.filter hasText).reverse++[first] := by
    rw [pieces] at text ⊢
    have kept : rest.filter hasText = rest := List.filter_eq_self.mpr text
    rw [kept,List.reverse_cons]
  have split : Text.split (· == '.') name = first::rest := (split_segments named).trans pieces
  rw [path] at lasting free
  obtain ⟨after,ran,present,extended⟩ := controller_addNode_extends proper split zk
    (fun segment inside => accepted segment (List.mem_reverse.mp (path ▸ inside))) lasting
  refine ⟨after,ran,path ▸ extended,?_,?_⟩
  · rw [path]
    exact extended_leaf newString present extended free
  · exact nameOf_segments named fun segment inside => proper.plain segment (accepted segment inside)

/-- No two leaves without dots in their names share a property name, so that a tree of
such leaves is loaded whole; and what the admin adds under a dotted name, of accepted
segments with text, is loaded under that name. -/
theorem name_mapping {valid : String → Bool} (proper : Proper valid) (hasText : String → Bool) :
    (∀ tree : ConfigTree, (∀ path ∈ tree.nodes, WellNamed path) →
      (∀ path other, tree.Leaf path → tree.Leaf other → Dotless path → Dotless other →
        nameOf path = nameOf other → path = other) ∧
      ([] ∈ tree.nodes → (∀ leaf, tree.Leaf leaf → Dotless leaf) → ∀ leaf, tree.Leaf leaf →
        (Table.putAll ∅ (loaded tree []) : Table String Property).lookup (nameOf leaf) =
          some ⟨valueOf tree leaf,true⟩)) ∧
    ∀ (zk : ZooKeeper) (name : String), (∀ segment ∈ segments name, valid segment = true) →
      (∀ segment ∈ (segments name).tail, hasText segment = true) →
      ZK.Lasting zk (segments name).reverse →
      (∀ child, child::(segments name).reverse ∉ zk.tree.nodes) →
      ∃ after, ZookeeperController.addNode valid newString hasText "/" name zk = (.ok (),after) ∧
        Extended zk after (segments name).reverse ∧
        (segments name).reverse ∈ leaves (configTree newString after) [] ∧
        nameOf (segments name).reverse = name := by
  refine ⟨fun tree named => ⟨?_,fun rooted dotless leaf isLeaf => ?_⟩,?_⟩
  · exact fun path other leaf alsoLeaf dotless alsoDotless same =>
      leaf_names_differ named leaf alsoLeaf dotless alsoDotless same
  · exact leaf_loaded named dotless rooted isLeaf
  · exact added_loaded newString proper hasText

def hasText (text : String) : Bool := !Text.blank text

theorem name_mapping_added : ∃ after,
    ZookeeperController.addNode plainName (fun _ => "") hasText "/" "db.url" .fresh = (.ok (),after) ∧
      ["url","db"] ∈ leaves (configTree (fun _ => "") after) [] ∧ nameOf ["url","db"] = "db.url" := by
  have path : (segments "db.url").reverse = ["url","db"] := by decide +kernel
  obtain ⟨after,ran,-,listed,named⟩ := (name_mapping (fun _ => "") plainName_proper hasText).2 .fresh
    "db.url" (by decide +kernel) (by decide +kernel) (fun _ _ _ => ZooKeeper.fresh_lasting)
    fun child member => List.cons_ne_nil _ _ ((ZooKeeper.mem_fresh _).mp member)
  exact ⟨after,ran,path ▸ listed,path ▸ named⟩

def dotted : ZooKeeper :=
  (createNode none .persistent ["a.b"] (createNode none .persistent ["b","a"]
    (createNode none .persistent ["a"] .fresh).2).2).2

theorem buildPropertyName_slash (fullPath : String) : '/' ∉ (buildPropertyName fullPath).toList := by
  have plain : '/' ∉ fullPath.toList.map fun character => if character = '/' then '.' else character := by
    intro inside
    obtain ⟨character,_,dot⟩ := List.mem_map.mp inside
    split at dot
    next => exact absurd dot (by decide)
    next other => exact other dot
  unfold buildPropertyName
  split
  next rest begins =>
    rw [begins] at plain
    rw [String.toList_ofList]
    exact fun inside => plain (List.mem_cons_of_mem _ inside)
  next => rwa [String.toList_ofList]

theorem names_lost :
    (nameOf ["b","a"] = nameOf ["a.b"] ∧ (configTree (fun _ => "") dotted).Leaf ["b","a"] ∧
      (configTree (fun _ => "") dotted).Leaf ["a.b"]) ∧
    (∀ path, nameOf path ≠ "a/b.c") ∧
    ∃ after, ZookeeperController.addNode plainName (fun _ => "") hasText "/" "a. .b" .fresh =
        (.ok (),after) ∧
      ∀ leaf, (configTree (fun _ => "") after).Leaf leaf → nameOf leaf ≠ "a. .b" := by
  refine ⟨⟨by decide +kernel,by decide +kernel,by decide +kernel⟩,fun path same => ?_,?_⟩
  · exact absurd (show '/' ∈ (nameOf path).toList from same ▸ by decide +kernel)
      (buildPropertyName_slash _)
  · obtain ⟨after,ran,-,extended⟩ := @controller_addNode_extends plainName (fun _ => "")
      plainName_proper hasText "a. .b" "a" [" ","b"] (by decide +kernel) .fresh (by decide +kernel)
      fun _ _ _ => ZooKeeper.fresh_lasting
    refine ⟨after,ran,fun leaf isLeaf same => ?_⟩
    have present := (after.tree.mem_map _ leaf).mp isLeaf.1
    obtain ⟨node,found⟩ := NodeTree.data_of_mem present
    have above : leaf <:+ ["b","a"] := by
      by_cases top : leaf = []
      · rw [top]
        exact List.nil_suffix
      · have absent := (ZooKeeper.fresh.tree.data_eq_none leaf).mpr fun member =>
          top ((ZooKeeper.mem_fresh leaf).mp member)
        exact (extended.2 leaf node absent found).1
    simp only [List.suffix_cons_iff,List.suffix_nil] at above
    rcases above with rfl | rfl | rfl
    · exact absurd same (by decide +kernel)
    · exact absurd same (by decide +kernel)
    · exact absurd same (by decide +kernel)

end YzFramework.Config.NameMapping
