import YzFramework.Config.PropertyRegistry

/-! What `reloadChildPropertiesForPath` and `deletePropertiesForPath` leave of one
subtree in `ALL_PROPERTIES`. -/
namespace YzFramework.Config.PropertyRegistry
open Library

inductive Operation
  | reload
  | delete

def Operation.apply (registry : PropertyRegistry) (path : NodePath) : Operation → PropertyRegistry
  | reload => reloadChildPropertiesForPath registry path
  | delete => deletePropertiesForPath registry path

/-- The key is the name or begins with the name and a dot. -/
def Within (path : NodePath) (key : String) : Prop :=
  key = nameOf path ∨ Text.startsWith key (nameOf path ++ ".") = true

/-- Names of nodes are not empty and have no slash, as ZooKeeper has it, and no dot. -/
def Legal (path : NodePath) : Prop :=
  ∀ segment ∈ path, segment ≠ "" ∧ '/' ∉ segment.toList ∧ '.' ∉ segment.toList

instance (path : NodePath) : Decidable (Legal path) := inferInstanceAs (Decidable (∀ _ ∈ path,_))

/-- What the subtree is to hold: the leaves at or below the path, or nothing. -/
def Expected (tree : ConfigTree) (path : NodePath) (key value : String) : Operation → Prop
  | .reload => ∃ leaf, path <:+ leaf ∧ tree.Leaf leaf ∧ nameOf leaf = key ∧ valueOf tree leaf = value
  | .delete => False

def Exact (registry : PropertyRegistry) (path : NodePath) (operation : Operation) : Prop :=
  (∀ key, Within path key → ∀ value,
    ((operation.apply registry path).ALL_PROPERTIES.lookup key).map Property.value = some value ↔
      Expected registry.tree path key value operation) ∧
  ∀ key, ¬ Within path key →
    (operation.apply registry path).ALL_PROPERTIES.lookup key = registry.ALL_PROPERTIES.lookup key

def Reads (registry : PropertyRegistry) (path : NodePath) : Operation → Prop
  | .reload => registry.expired = false ∧ path ∈ registry.tree.nodes
  | .delete => True

/-- Each old key of the subtree is below the path while some property's value is the
path's name, or it is written or removed by its own name. -/
def Replaced (registry : PropertyRegistry) (path : NodePath) (operation : Operation) : Prop :=
  ∀ key property, registry.ALL_PROPERTIES.lookup key = some property → Within path key →
    Cleared registry path key ∨
    match operation with
    | .reload => ∃ leaf, path <:+ leaf ∧ registry.tree.Leaf leaf ∧ nameOf leaf = key
    | .delete => key = nameOf path

theorem fullPath_long {segment : String} (some : segment ≠ "") (path : NodePath) :
    1 < (fullPath (segment::path)).toList.length := by
  have long : 0 < segment.toList.length :=
    List.length_pos_iff.mpr fun empty => some (String.toList_inj.mp empty)
  rw [fullPath,getFullPath]
  split
  · simp only [String.toList_append,List.length_append]
    have slash : "/".toList.length = 1 := rfl
    omega
  · simp only [String.toList_append,List.length_append]
    have slash : "/".toList.length = 1 := rfl
    omega

theorem fullPath_child (segment : String) {path : NodePath} (named : "" ∉ path) (lower : path ≠ []) :
    fullPath (segment::path) = fullPath path ++ "/" ++ segment := by
  obtain ⟨upper,rest,rfl⟩ := List.exists_cons_of_ne_nil lower
  obtain ⟨text,begins⟩ := fullPath_slash (upper::rest)
  have shown : Text.blank (fullPath (upper::rest)) = false := by
    rw [Text.blank,begins,List.all_cons,decide_eq_false (by decide),Bool.false_and]
  have longer : (fullPath (upper::rest) == "/") = false := by
    apply beq_eq_false_iff_ne.mpr
    intro same
    have long := fullPath_long (fun empty => named (empty ▸ List.mem_cons_self)) rest
    rw [same] at long
    exact absurd long (by decide)
  rw [fullPath,getFullPath,shown,longer]
  rfl

theorem fullPath_toList {path : NodePath} (named : "" ∉ path) (lower : path ≠ []) :
    (fullPath path).toList = '/'::['/'].intercalate (path.reverse.map String.toList) := by
  induction path with
  | nil => contradiction
  | cons name parent ih =>
    have parents : "" ∉ parent := fun inside => named (List.mem_cons_of_mem _ inside)
    by_cases top : parent = []
    · subst top
      rw [fullPath,fullPath,getFullPath,if_pos (by decide),String.toList_append]
      simp
    · have names : parent.reverse.map String.toList ≠ [] := by simpa using top
      rw [fullPath_child name parents top,String.toList_append,String.toList_append,ih parents top,
        List.reverse_cons,List.map_append,List.map_singleton,Text.intercalate_concat '/' names,
        List.append_assoc]
      rfl

theorem map_dot {text : List Char} (plain : '/' ∉ text) :
    (text.map fun character => if character = '/' then '.' else character) = text := by
  refine (List.map_congr_left fun character inside => if_neg ?_).trans (List.map_id' text)
  exact fun same => plain (same ▸ inside)

theorem map_dot_intercalate {names : List (List Char)} (plain : ∀ name ∈ names, '/' ∉ name) :
    (['/'].intercalate names).map (fun character => if character = '/' then '.' else character) =
      ['.'].intercalate names := by
  induction names with
  | nil => rfl
  | cons name rest ih =>
    rw [List.forall_mem_cons] at plain
    cases rest with
    | nil => simpa using map_dot plain.1
    | cons next others =>
      rw [List.intercalate_cons_cons,List.intercalate_cons_cons,List.map_append,List.map_append,
        map_dot plain.1,ih plain.2]
      rfl

theorem nameOf_eq {path : NodePath} (named : "" ∉ path) (plain : ∀ name ∈ path, '/' ∉ name.toList)
    (lower : path ≠ []) :
    (nameOf path).toList = ['.'].intercalate (path.reverse.map String.toList) := by
  have parts : ∀ part ∈ path.reverse.map String.toList, '/' ∉ part := by
    intro part inside
    obtain ⟨name,listed,rfl⟩ := List.mem_map.mp inside
    exact plain name (List.mem_reverse.mp listed)
  have text := fullPath_toList named lower
  rw [nameOf,buildPropertyName,text,List.map_cons,if_pos rfl,map_dot_intercalate parts]
  exact String.toList_ofList

theorem Legal.named {path : NodePath} (legal : Legal path) : "" ∉ path :=
  fun inside => (legal "" inside).1 rfl

theorem nameOf_legal {path : NodePath} (legal : Legal path) (lower : path ≠ []) :
    (nameOf path).toList = ['.'].intercalate (path.reverse.map String.toList) :=
  nameOf_eq legal.named (fun name inside => (legal name inside).2.1) lower

theorem nameOf_below {segment : String} {path : NodePath} (legal : Legal (segment::path))
    (lower : path ≠ []) :
    (nameOf (segment::path)).toList = (nameOf path).toList ++ '.'::segment.toList := by
  have upper : Legal path := fun part inside => legal part (List.mem_cons_of_mem _ inside)
  have names : path.reverse.map String.toList ≠ [] := by simpa using lower
  rw [nameOf_legal legal (List.cons_ne_nil _ _),nameOf_legal upper lower,List.reverse_cons,
    List.map_append,List.map_singleton,Text.intercalate_concat '.' names]

theorem nameOf_injective {path other : NodePath} (legal : Legal path) (alsoLegal : Legal other)
    (lower : path ≠ []) (alsoLower : other ≠ []) (same : nameOf path = nameOf other) :
    path = other := by
  have split : ∀ {names : NodePath}, Legal names → names ≠ [] →
      (nameOf names).toList.splitOn '.' = names.reverse.map String.toList := by
    intro names legal lower
    rw [nameOf_legal legal lower]
    refine List.splitOn_intercalate '.' (fun part inside => ?_) (by simpa using lower)
    obtain ⟨name,listed,rfl⟩ := List.mem_map.mp inside
    exact (legal name (List.mem_reverse.mp listed)).2.2
  have parts := split legal lower
  rw [same,split alsoLegal alsoLower] at parts
  have texts := (List.map_injective_iff.mpr fun _ _ => String.toList_inj.mp) parts
  exact (List.reverse_injective texts).symm

private theorem within_below {upper path : NodePath} (legal : Legal path) (lower : upper ≠ [])
    (below : upper <:+ path) : Within upper (nameOf path) := by
  obtain ⟨inner,rfl⟩ := below
  induction inner with
  | nil => exact .inl rfl
  | cons segment rest ih =>
    have named : (nameOf (segment::(rest ++ upper))).toList =
        (nameOf (rest ++ upper)).toList ++ '.'::segment.toList :=
      nameOf_below legal (List.append_ne_nil_of_right_ne_nil rest lower)
    refine .inr ((Text.startsWith_iff _ _).mpr ?_)
    rw [List.cons_append,named,String.toList_append]
    rcases ih fun part inside => legal part (List.mem_cons_of_mem _ inside) with same | deeper
    · rw [same]
      exact ⟨segment.toList,List.append_assoc _ _ _⟩
    · rw [Text.startsWith_iff,String.toList_append] at deeper
      exact deeper.trans (List.prefix_append _ _)

/-- The keys of the subtree after the reload: a leaf's, with its data, or what was there. -/
theorem lookup_reload (registry : PropertyRegistry) (path : NodePath)
    (reads : Reads registry path .reload) (key : String) :
    (∃ leaf, path <:+ leaf ∧ registry.tree.Leaf leaf ∧ nameOf leaf = key ∧
      (reloadChildPropertiesForPath registry path).ALL_PROPERTIES.lookup key =
        some ⟨valueOf registry.tree leaf,true⟩) ∨
    ((∀ leaf, path <:+ leaf → registry.tree.Leaf leaf → nameOf leaf ≠ key) ∧
      (reloadChildPropertiesForPath registry path).ALL_PROPERTIES.lookup key =
        (deleteChildProperties (nameOf path) registry.ALL_PROPERTIES).lookup key) := by
  obtain ⟨alive,present⟩ := reads
  have loads : (reloadChildPropertiesForPath registry path).ALL_PROPERTIES = Table.putAll
      (deleteChildProperties (nameOf path) registry.ALL_PROPERTIES) (loaded registry.tree path) := by
    rw [reloadChildPropertiesForPath,alive,if_neg Bool.false_ne_true,if_pos present]
  have pairs : ∀ pair, pair ∈ loaded registry.tree path ↔ ∃ leaf,
      (path <:+ leaf ∧ registry.tree.Leaf leaf) ∧
        (nameOf leaf,⟨valueOf registry.tree leaf,true⟩) = pair := by
    intro pair
    simp only [loaded,List.mem_map,mem_leaves registry.tree path _ present]
  rw [loads]
  by_cases inside : ∃ pair ∈ loaded registry.tree path, pair.1 = key
  · obtain ⟨pair,member,same,found⟩ := Table.lookup_putAll_inside
      (deleteChildProperties (nameOf path) registry.ALL_PROPERTIES) _ key inside
    obtain ⟨leaf,⟨below,isLeaf⟩,rfl⟩ := (pairs pair).mp member
    exact .inl ⟨leaf,below,isLeaf,same,found⟩
  · have outside : ∀ pair ∈ loaded registry.tree path, pair.1 ≠ key := fun pair member same =>
      inside ⟨pair,member,same⟩
    refine .inr ⟨fun leaf below isLeaf => ?_,Table.lookup_putAll_outside _ _ key outside⟩
    exact outside _ ((pairs _).mpr ⟨leaf,⟨below,isLeaf⟩,rfl⟩)

private theorem lookup_delete (registry : PropertyRegistry) (path : NodePath) (key : String) :
    (deletePropertiesForPath registry path).ALL_PROPERTIES.lookup key =
      if key = nameOf path then none
      else (deleteChildProperties (nameOf path) registry.ALL_PROPERTIES).lookup key :=
  Table.lookup_remove _ _ _

private theorem lookup_outside (registry : PropertyRegistry) {path : NodePath} {key : String}
    (outside : ¬ Within path key) :
    (deleteChildProperties (nameOf path) registry.ALL_PROPERTIES).lookup key =
      registry.ALL_PROPERTIES.lookup key := by
  rcases lookup_deleteChildProperties registry path key with ⟨_,cleared⟩ | ⟨same,_⟩
  · exact absurd (.inr cleared.2) outside
  · exact same

section Subtree
variable (registry : PropertyRegistry) (path : NodePath)

private theorem lookup_cleared_iff (key : String) :
    (deleteChildProperties (nameOf path) registry.ALL_PROPERTIES).lookup key = none ↔
      ∀ property, registry.ALL_PROPERTIES.lookup key = some property → Cleared registry path key := by
  rcases lookup_deleteChildProperties registry path key with ⟨removed,cleared⟩ | ⟨stays,uncleared⟩
  · exact iff_of_true removed fun _ _ => cleared
  · rw [stays]
    constructor
    · intro gone property held
      cases gone.symm.trans held
    · intro cleared
      exact Option.eq_none_iff_forall_ne_some.mpr fun property held => uncleared (cleared property held)

private theorem unexpected_iff {found : Option Property} {expected : String → Prop}
    (never : ∀ value, ¬ expected value) :
    (∀ value, found.map Property.value = some value ↔ expected value) ↔ found = none := by
  constructor
  · intro same
    cases held : found with
    | none => rfl
    | some property => exact absurd ((same property.value).mp (by rw [held]; rfl)) (never _)
  · rintro rfl value
    exact iff_of_false (by simp) (never value)

private theorem reload_key_iff (lower : path ≠ []) (legal : ∀ node ∈ registry.tree.nodes, Legal node)
    (reads : Reads registry path .reload) (key : String) :
    (∀ value, ((Operation.reload.apply registry path).ALL_PROPERTIES.lookup key).map Property.value =
        some value ↔ Expected registry.tree path key value .reload) ↔
      ∀ property, registry.ALL_PROPERTIES.lookup key = some property → Cleared registry path key ∨
        ∃ leaf, path <:+ leaf ∧ registry.tree.Leaf leaf ∧ nameOf leaf = key := by
  rcases lookup_reload registry path reads key with ⟨leaf,below,isLeaf,same,found⟩ | ⟨none,kept⟩
  · refine iff_of_true (fun value => ?_) fun _ _ => .inr ⟨leaf,below,isLeaf,same⟩
    rw [Operation.apply,found,Option.map_some,Option.some.injEq]
    constructor
    · exact fun equal => ⟨leaf,below,isLeaf,same,equal⟩
    · rintro ⟨other,alsoBelow,alsoLeaf,alsoSame,equal⟩
      have here : leaf = other := by
        refine nameOf_injective (legal leaf isLeaf.1) (legal other alsoLeaf.1) ?_ ?_
          (same.trans alsoSame.symm)
        · exact fun empty => lower (List.suffix_nil.mp (empty ▸ below))
        · exact fun empty => lower (List.suffix_nil.mp (empty ▸ alsoBelow))
      rw [here]
      exact equal
  · have unwritten : ¬ ∃ leaf, path <:+ leaf ∧ registry.tree.Leaf leaf ∧ nameOf leaf = key := by
      rintro ⟨leaf,below,isLeaf,same⟩
      exact none leaf below isLeaf same
    have never : ∀ value, ¬ Expected registry.tree path key value .reload := by
      rintro value ⟨leaf,below,isLeaf,same,_⟩
      exact unwritten ⟨leaf,below,isLeaf,same⟩
    simp only [or_iff_left unwritten,unexpected_iff never,Operation.apply,kept]
    exact lookup_cleared_iff registry path key

theorem delete_key_iff (key : String) :
    (∀ value, ((Operation.delete.apply registry path).ALL_PROPERTIES.lookup key).map Property.value =
        some value ↔ Expected registry.tree path key value .delete) ↔
      ∀ property, registry.ALL_PROPERTIES.lookup key = some property → Cleared registry path key ∨
        key = nameOf path := by
  have never : ∀ value, ¬ Expected registry.tree path key value .delete := fun _ => id
  rw [unexpected_iff never,Operation.apply,lookup_delete]
  by_cases own : key = nameOf path
  · rw [if_pos own]
    exact iff_of_true rfl fun _ _ => .inr own
  · simp only [if_neg own,or_iff_left own]
    exact lookup_cleared_iff registry path key

private theorem exact_iff {operation : Operation}
    (keys : ∀ key, (∀ value, ((operation.apply registry path).ALL_PROPERTIES.lookup key).map
        Property.value = some value ↔ Expected registry.tree path key value operation) ↔
      ∀ property, registry.ALL_PROPERTIES.lookup key = some property → Cleared registry path key ∨
        match operation with
        | .reload => ∃ leaf, path <:+ leaf ∧ registry.tree.Leaf leaf ∧ nameOf leaf = key
        | .delete => key = nameOf path)
    (outer : ∀ key, ¬ Within path key →
      (operation.apply registry path).ALL_PROPERTIES.lookup key = registry.ALL_PROPERTIES.lookup key) :
    Exact registry path operation ↔ Replaced registry path operation := by
  constructor
  · exact fun exact key property held within => (keys key).mp (exact.1 key within) property held
  · intro replaced
    refine ⟨fun key within => (keys key).mpr fun property held => ?_,outer⟩
    exact replaced key property held within

private theorem reload_exact_iff (lower : path ≠ []) (legal : ∀ node ∈ registry.tree.nodes, Legal node)
    (reads : Reads registry path .reload) :
    Exact registry path .reload ↔ Replaced registry path .reload := by
  apply exact_iff registry path (reload_key_iff registry path lower legal reads)
  intro key outside
  rcases lookup_reload registry path reads key with ⟨leaf,below,isLeaf,rfl,_⟩ | ⟨_,kept⟩
  · exact absurd (within_below (legal leaf isLeaf.1) lower below) outside
  · exact kept.trans (lookup_outside registry outside)

theorem delete_exact_iff : Exact registry path .delete ↔ Replaced registry path .delete := by
  apply exact_iff registry path (delete_key_iff registry path)
  intro key outside
  rw [Operation.apply,lookup_delete,if_neg fun own => outside (.inl own)]
  exact lookup_outside registry outside

/-- A reload or a deletion leaves of the subtree what it is to hold, exactly when the old
keys are written, removed by their own name, or below the path and the name a value. -/
theorem operation_exact_iff (operation : Operation) (lower : path ≠ [])
    (legal : ∀ node ∈ registry.tree.nodes, Legal node) (reads : Reads registry path operation) :
    Exact registry path operation ↔ Replaced registry path operation := by
  cases operation with
  | reload => exact reload_exact_iff registry path lower legal reads
  | delete => exact delete_exact_iff registry path

end Subtree

def sample (values : List (String × String)) : PropertyRegistry :=
  {initial (((NodeTree.empty.create [] none).bind fun tree => tree.create ["db"] none).bind
    (fun tree => tree.create ["url","db"] (some "new")) |>.getD NodeTree.empty) values with
      expired := false}

theorem operation_exact_iff_named :
    Exact (sample [("db.user","old"),("title","db")]) ["db"] .reload := by
  have legal : ∀ node ∈ (sample [("db.user","old"),("title","db")]).tree.nodes.keys, Legal node := by
    decide +kernel
  refine (operation_exact_iff _ ["db"] .reload (by simp)
    (fun node inside => legal node (AList.mem_keys.mpr inside)) ⟨rfl,by decide +kernel⟩).mpr ?_
  intro key property held within
  have entries : (sample [("db.user","old"),("title","db")]).ALL_PROPERTIES.entries =
      [⟨"title",⟨"db",false⟩⟩,⟨"db.user",⟨"old",false⟩⟩] := by decide +kernel
  have member := AList.mem_lookup_iff.mp held
  rw [entries] at member
  rcases List.mem_cons.mp member with here | later
  · cases here
    exact absurd within (by unfold Within; decide +kernel)
  · cases List.mem_singleton.mp later
    exact .inl ⟨⟨"title",_,rfl,rfl⟩,by decide +kernel⟩

theorem old_keys_stay :
    ¬ Exact (sample [("db.user","old")]) ["db"] .reload ∧
      ¬ Exact (sample [("db.user","old")]) ["db"] .delete := by
  have within : Within ["db"] "db.user" := .inr (by decide +kernel)
  constructor
  · intro exact
    obtain ⟨leaf,_,isLeaf,same,_⟩ := (exact.1 "db.user" within "old").mp (by decide +kernel)
    have others : ∀ node ∈ (sample [("db.user","old")]).tree.nodes.keys, nameOf node ≠ "db.user" := by
      decide +kernel
    exact others leaf (AList.mem_keys.mpr isLeaf.1) same
  · intro exact
    exact (exact.1 "db.user" within "old").mp (by decide +kernel)

end YzFramework.Config.PropertyRegistry
