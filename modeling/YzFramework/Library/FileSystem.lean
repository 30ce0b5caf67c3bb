import YzFramework.Library.NodeTree

/-! Directories and files by paths. A path lists the names from the entry up, as in a
tree of nodes; a file has nothing below it. -/
namespace YzFramework.Library

inductive Entry (Content : Type*)
  | directory
  | file (content : Content)
deriving DecidableEq

structure FileSystem (Name Content : Type*) [DecidableEq Name] where
  tree : NodeTree Name (Entry Content)
  below : ∀ name parent, name::parent ∈ tree.nodes → tree.data parent = some .directory

namespace FileSystem

variable {Name Content : Type*} [DecidableEq Name] (files : FileSystem Name Content) (path : List Name)

def isDirectory : Bool :=
  match files.tree.data path with
  | some .directory => true
  | _ => false

def listFiles : Option (List Name) := if files.isDirectory path then some (files.tree.children path) else none

def remove : Option (FileSystem Name Content) :=
  match removed : files.tree.delete path with
  | none => none
  | some tree => some {
      tree
      below := fun name parent member => by
        obtain ⟨_,members,data⟩ := NodeTree.delete_some removed
        have old := files.below name parent ((members _).mp member).2
        have stays := ((members _).mp (tree.closed name parent member)).1
        rw [data,if_neg stays,old] }

omit [DecidableEq Name] in
theorem seated_top : (NodeTree.empty : NodeTree Name (Entry Content)).Seated [] := trivial

def root : FileSystem Name Content where
  tree := NodeTree.empty.put [] .directory seated_top
  below := fun name parent member => by
    rcases (NodeTree.mem_put _ _ _ _ _).mp member with same | none
    · contradiction
    · exact absurd none (AList.notMem_empty _)

variable {files path} in
theorem seated_in {name : Name} (placed : files.tree.data path = some .directory) :
    files.tree.Seated (name::path) := NodeTree.mem_of_data placed

def add (name : Name) (entry : Entry Content) (placed : files.tree.data path = some .directory)
    (fresh : name::path ∉ files.tree.nodes) : FileSystem Name Content where
  tree := files.tree.put (name::path) entry (seated_in placed)
  below := fun other parent member => by
    rw [NodeTree.data_put]
    rcases (NodeTree.mem_put _ _ _ _ _).mp member with same | old
    · obtain ⟨rfl,rfl⟩ := List.cons.inj same
      rw [if_neg (List.cons_ne_self _ _).symm,placed]
    · have apart : parent ≠ name::path := by
        rintro rfl
        exact fresh (files.tree.closed other _ old)
      rw [if_neg apart,files.below other parent old]

theorem mem_root : path ∈ (root : FileSystem Name Content).tree.nodes ↔ path = [] := by
  refine (NodeTree.mem_put NodeTree.empty [] path .directory seated_top).trans (or_iff_left ?_)
  exact AList.notMem_empty _

theorem mem_add {name : Name} {entry : Entry Content} (placed : files.tree.data path = some .directory)
    (fresh : name::path ∉ files.tree.nodes) (other : List Name) :
    other ∈ (files.add path name entry placed fresh).tree.nodes ↔ other = name::path ∨ other ∈ files.tree.nodes :=
  NodeTree.mem_put files.tree (name::path) other entry (seated_in placed)

theorem data_add {files : FileSystem Name Content} {path : List Name} {name : Name} {entry : Entry Content}
    (placed : files.tree.data path = some .directory) (fresh : name::path ∉ files.tree.nodes) (other : List Name) :
    (files.add path name entry placed fresh).tree.data other =
      if other = name::path then some entry else files.tree.data other :=
  NodeTree.data_put files.tree (name::path) other entry (seated_in placed)

theorem isDirectory_iff : files.isDirectory path = true ↔ files.tree.data path = some .directory := by
  rw [isDirectory]
  split
  next held => simp [held]
  next other => simpa using other

theorem isDirectory_congr {files after : FileSystem Name Content} {path : List Name}
    (same : after.tree.data path = files.tree.data path) : after.isDirectory path = files.isDirectory path := by
  rw [isDirectory,isDirectory,same]

theorem isDirectory_absent {files : FileSystem Name Content} {path : List Name} (absent : path ∉ files.tree.nodes) :
    files.isDirectory path = false := by
  rw [← Bool.not_eq_true,isDirectory_iff]
  exact fun held => absent (NodeTree.mem_of_data held)

theorem directory_of_below {files : FileSystem Name Content} {path lower : List Name} (under : path <:+ lower)
    (apart : lower ≠ path) (member : lower ∈ files.tree.nodes) : files.tree.data path = some .directory := by
  obtain ⟨name,next⟩ := NodeTree.suffix_step under apart
  exact files.below name path (files.tree.mem_of_suffix next member)

theorem mem_listFiles {files : FileSystem Name Content} {path : List Name} {name : Name} :
    name ∈ (files.listFiles path).getD [] ↔ name::path ∈ files.tree.nodes := by
  rw [listFiles]
  split_ifs with directory
  · exact files.tree.mem_children path name
  · rw [isDirectory_iff] at directory
    exact ⟨nofun,fun member => absurd (files.below name path member) directory⟩

theorem remove_some {files after : FileSystem Name Content} {path : List Name}
    (removed : files.remove path = some after) :
    files.tree.Leaf path ∧ ∀ other, after.tree.data other = if other = path then none else files.tree.data other := by
  rw [remove] at removed
  split at removed
  · contradiction
  · rename_i deleted
    obtain ⟨leaf,_,data⟩ := NodeTree.delete_some deleted
    cases removed
    exact ⟨leaf,data⟩

theorem remove_none {files : FileSystem Name Content} {path : List Name} (kept : files.remove path = none) :
    ¬ files.tree.Leaf path := by
  rw [remove] at kept
  split at kept
  · rename_i deleted
    intro leaf
    rw [NodeTree.delete,dif_pos leaf] at deleted
    contradiction
  · contradiction

end FileSystem

end YzFramework.Library
