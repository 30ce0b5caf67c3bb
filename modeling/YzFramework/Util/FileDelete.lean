import YzFramework.Library.FileSystem

/-! `FileUtil.delete` on a tree of files. Some entries cannot be removed, whatever the
state of the tree; each removal that is tried is recorded. -/
namespace YzFramework.Util.FileDelete
open Library

variable {Content : Type*}

structure Disk (Content : Type*) where
  files : FileSystem String Content
  attempts : List (List String) := []

variable (fails : List String → Bool)

/-- `File.delete` -/
def deleteFile (path : List String) (disk : Disk Content) : Bool × Disk Content :=
  let attempts := disk.attempts ++ [path]
  if fails path then (false,{ disk with attempts })
  else
    match disk.files.remove path with
    | none => (false,{ disk with attempts })
    | some files => (true,⟨files,attempts⟩)

/-- One pass of the loop, on the success so far; the directory below is deleted by `below`. -/
def deleteEntry (below : List String → Disk Content → Option (Bool × Disk Content)) (dir : List String)
    (state : Bool × Disk Content) (name : String) : Option (Bool × Disk Content) := do
  let file := name::dir
  let (success,disk) ← if state.2.files.isDirectory file then do
      let (deleted,disk) ← below file state.2
      some (state.1 && deleted,disk)
    else some state
  let (removed,disk) := deleteFile fails file disk
  some (success && removed,disk)

/-- The depth is that of the call stack. -/
def delete : ℕ → List String → Disk Content → Option (Bool × Disk Content)
  | 0,_,_ => none
  | depth+1,dir,disk =>
    if dir ∉ disk.files.tree.nodes then some (true,disk)
    else do
      let (success,disk) ← ((disk.files.listFiles dir).getD []).foldlM (deleteEntry fails (delete depth) dir) (true,disk)
      let (removed,disk) := deleteFile fails dir disk
      some (success && removed,disk)

/-- An entry that is kept: at it or below it one cannot be removed. -/
def Stuck (files : FileSystem String Content) (path : List String) : Prop :=
  ∃ lower ∈ files.tree.nodes, path <:+ lower ∧ fails lower = true

/-- What can be removed of the trees below the tops is gone, the rest is as before. -/
def Swept (tops : List (List String)) (files after : FileSystem String Content) : Prop :=
  ∀ path, (((∃ top ∈ tops, top <:+ path) ∧ ¬ Stuck fails files path) → after.tree.data path = none) ∧
    (¬ ((∃ top ∈ tops, top <:+ path) ∧ ¬ Stuck fails files path) → after.tree.data path = files.tree.data path)

variable {fails}

theorem Swept.nil (files : FileSystem String Content) : Swept fails [] files files := fun _ =>
  ⟨fun cleared => absurd cleared.1 (by simp),fun _ => rfl⟩

theorem Swept.mem {tops : List (List String)} {files after : FileSystem String Content}
    (swept : Swept fails tops files after) (path : List String) :
    path ∈ after.tree.nodes ↔ path ∈ files.tree.nodes ∧ ¬ ((∃ top ∈ tops, top <:+ path) ∧ ¬ Stuck fails files path) := by
  by_cases cleared : (∃ top ∈ tops, top <:+ path) ∧ ¬ Stuck fails files path
  · have gone := (swept path).1 cleared
    rw [NodeTree.data_eq_none] at gone
    simp [gone,cleared]
  · have kept := (swept path).2 cleared
    simp [NodeTree.mem_congr kept,cleared]

theorem Swept.congr {tops more : List (List String)} {files after : FileSystem String Content}
    (swept : Swept fails tops files after)
    (same : ∀ path, (∃ top ∈ tops, top <:+ path) ↔ ∃ top ∈ more, top <:+ path) : Swept fails more files after := by
  intro path
  rw [← same path]
  exact swept path

theorem Swept.stuck {tops : List (List String)} {files after : FileSystem String Content}
    (swept : Swept fails tops files after) (path : List String) : Stuck fails after path ↔ Stuck fails files path := by
  constructor
  · rintro ⟨lower,member,under,refused⟩
    exact ⟨lower,((swept.mem lower).mp member).1,under,refused⟩
  · rintro ⟨lower,member,under,refused⟩
    have held : Stuck fails files lower := ⟨lower,member,List.suffix_rfl,refused⟩
    exact ⟨lower,(swept.mem lower).mpr ⟨member,fun cleared => cleared.2 held⟩,under,refused⟩

theorem Swept.append {tops more : List (List String)} {files middle after : FileSystem String Content}
    (first : Swept fails tops files middle) (second : Swept fails more middle after) :
    Swept fails (tops ++ more) files after := by
  intro path
  have stuck := first.stuck path
  constructor
  · rintro ⟨⟨top,member,under⟩,free⟩
    by_cases later : ∃ top ∈ more, top <:+ path
    · exact (second path).1 ⟨later,fun held => free (stuck.mp held)⟩
    · rw [(second path).2 fun cleared => later cleared.1]
      refine (first path).1 ⟨⟨top,?_,under⟩,free⟩
      exact (List.mem_append.mp member).resolve_right fun inside => later ⟨top,inside,under⟩
  · intro kept
    rw [(second path).2,(first path).2]
    · rintro ⟨⟨top,member,under⟩,free⟩
      exact kept ⟨⟨top,List.mem_append_left _ member,under⟩,free⟩
    · rintro ⟨⟨top,member,under⟩,free⟩
      exact kept ⟨⟨top,List.mem_append_right _ member,under⟩,fun held => free (stuck.mpr held)⟩

theorem deleteFile_refused {path : List String} {disk : Disk Content}
    (refused : fails path = true ∨ ¬ disk.files.tree.Leaf path) :
    deleteFile fails path disk = (false,⟨disk.files,disk.attempts ++ [path]⟩) := by
  rw [deleteFile]
  split_ifs with held
  · rfl
  · have filled := refused.resolve_left held
    cases removed : disk.files.remove path with
    | none => rfl
    | some files => exact absurd (FileSystem.remove_some removed).1 filled

private theorem Stuck.upward {files : FileSystem String Content} {upper path : List String}
    (under : upper <:+ path)
    (stuck : Stuck fails files path) : Stuck fails files upper := by
  obtain ⟨lower,member,further,held⟩ := stuck
  exact ⟨lower,member,under.trans further,held⟩

private theorem refused_of_stuck {files : FileSystem String Content} {path : List String}
    (stuck : Stuck fails files path) :
    fails path = true ∨ ¬ files.tree.Leaf path := by
  obtain ⟨lower,member,under,held⟩ := stuck
  by_cases here : lower = path
  · exact .inl (here ▸ held)
  · obtain ⟨name,next⟩ := NodeTree.suffix_step under here
    refine .inr fun leaf => ?_
    exact ((files.tree.leaf_iff path).mp leaf).2 name (files.tree.mem_of_suffix next member)

variable (fails) in
theorem deleteFile_swept {path : List String} {disk : Disk Content} (present : path ∈ disk.files.tree.nodes)
    (emptied : ∀ lower ∈ disk.files.tree.nodes, path <:+ lower → lower ≠ path → Stuck fails disk.files lower) :
    ∃ removed after, deleteFile fails path disk = (removed,after) ∧ after.attempts = disk.attempts ++ [path] ∧
      Swept fails [path] disk.files after.files ∧ (removed = true ↔ ¬ Stuck fails disk.files path) := by
  by_cases stuck : Stuck fails disk.files path
  · refine ⟨false,_,deleteFile_refused (refused_of_stuck stuck),rfl,fun lower => ⟨?_,fun _ => rfl⟩,by simp [stuck]⟩
    rintro ⟨⟨top,member,under⟩,free⟩
    rw [List.mem_singleton.mp member] at under
    rw [NodeTree.data_eq_none]
    intro inside
    apply free
    by_cases here : lower = path
    · exact here ▸ stuck
    · exact emptied lower inside under here
  · have only : ∀ lower ∈ disk.files.tree.nodes, path <:+ lower → lower = path := by
      intro lower member under
      by_contra apart
      obtain ⟨other,inside,further,held⟩ := emptied lower member under apart
      exact stuck ⟨other,inside,under.trans further,held⟩
    have leaf : disk.files.tree.Leaf path := by
      rw [NodeTree.leaf_iff]
      refine ⟨present,fun name member => ?_⟩
      have same := congrArg List.length (only _ member (List.suffix_cons name path))
      rw [List.length_cons] at same
      omega
    have free : ¬ fails path = true := fun held => stuck ⟨path,present,List.suffix_rfl,held⟩
    cases removed : disk.files.remove path with
    | none => exact absurd leaf (FileSystem.remove_none removed)
    | some files =>
      have data := (FileSystem.remove_some removed).2
      refine ⟨true,⟨files,disk.attempts ++ [path]⟩,?_,rfl,fun lower => ⟨?_,?_⟩,by simp [stuck]⟩
      · rw [deleteFile,if_neg free,removed]
      · rintro ⟨⟨top,member,under⟩,_⟩
        rw [List.mem_singleton.mp member] at under
        rw [data]
        split_ifs with here
        · rfl
        · rw [NodeTree.data_eq_none]
          exact fun inside => here (only lower inside under)
      · intro kept
        rw [data,if_neg]
        rintro rfl
        exact kept ⟨⟨lower,by simp,List.suffix_rfl⟩,stuck⟩

/-- What was tried: the entries of the tree and nothing outside it. -/
structure Tried (top : List String) (files : FileSystem String Content) (before after : List (List String)) : Prop where
  kept : before <+: after
  each : ∀ path ∈ files.tree.nodes, top <:+ path → path ∈ after
  inside : ∀ path ∈ after, path ∈ before ∨ top <:+ path

variable (fails) in
/-- A call for an entry has returned, with what it says and has done. -/
def Deleted (top : List String) (disk : Disk Content) (result : Option (Bool × Disk Content)) : Prop :=
  ∃ success after, result = some (success,after) ∧ Swept fails [top] disk.files after.files ∧
    Tried top disk.files disk.attempts after.attempts ∧
    (success = true ↔ (∀ name, disk.files.isDirectory (name::top) = false) ∧ ¬ Stuck fails disk.files top)

def Shallow (files : FileSystem String Content) (top : List String) (depth : ℕ) : Prop :=
  ∀ path ∈ files.tree.nodes, top <:+ path → path.length < top.length+depth

theorem Tried.single {top : List String} {files : FileSystem String Content} (before : List (List String))
    (alone : ∀ path ∈ files.tree.nodes, top <:+ path → path = top) : Tried top files before (before ++ [top]) where
  kept := List.prefix_append _ _
  each := fun path member under => by simp [alone path member under]
  inside := fun path member => by
    rcases List.mem_append.mp member with old | new
    · exact .inl old
    · exact .inr (List.mem_singleton.mp new ▸ List.suffix_rfl)

theorem Tried.again {top : List String} {files : FileSystem String Content} {before after : List (List String)}
    (tried : Tried top files before after) : Tried top files before (after ++ [top]) where
  kept := tried.kept.trans (List.prefix_append _ _)
  each := fun path member under => List.mem_append_left _ (tried.each path member under)
  inside := fun path member => by
    rcases List.mem_append.mp member with old | new
    · exact tried.inside path old
    · exact .inr (List.mem_singleton.mp new ▸ List.suffix_rfl)

/-- One pass: a directory below is never removed twice, so that the success is lost. -/
theorem deleteEntry_swept {below : List String → Disk Content → Option (Bool × Disk Content)} {dir : List String}
    {disk : Disk Content} {name : String} (success : Bool) (present : name::dir ∈ disk.files.tree.nodes)
    (deletes : disk.files.isDirectory (name::dir) = true → Deleted fails (name::dir) disk (below (name::dir) disk)) :
    ∃ success' after, deleteEntry fails below dir (success,disk) name = some (success',after) ∧
      Swept fails [name::dir] disk.files after.files ∧
      Tried (name::dir) disk.files disk.attempts after.attempts ∧
      (success' = true ↔ success = true ∧ disk.files.isDirectory (name::dir) = false ∧
        ¬ Stuck fails disk.files (name::dir)) := by
  cases directory : disk.files.isDirectory (name::dir) with
  | true =>
    obtain ⟨deleted,middle,returned,swept,tried,_⟩ := deletes directory
    have refused : fails (name::dir) = true ∨ ¬ middle.files.tree.Leaf (name::dir) := by
      by_cases remains : name::dir ∈ middle.files.tree.nodes
      · apply refused_of_stuck
        have held := ((swept.mem _).mp remains).2
        rw [swept.stuck]
        by_contra free
        exact held ⟨⟨_,List.mem_singleton_self _,List.suffix_rfl⟩,free⟩
      · exact .inr fun leaf => remains leaf.1
    refine ⟨false,⟨middle.files,middle.attempts ++ [name::dir]⟩,?_,swept,tried.again,by simp⟩
    simp [deleteEntry,directory,returned,deleteFile_refused refused]
  | false =>
    have alone : ∀ path ∈ disk.files.tree.nodes, name::dir <:+ path → path = name::dir := by
      intro path member under
      by_contra apart
      rw [(FileSystem.isDirectory_iff _ _).mpr (FileSystem.directory_of_below under apart member)] at directory
      contradiction
    obtain ⟨removed,after,run,attempts,swept,clear⟩ := deleteFile_swept fails present
      fun lower member under apart => absurd (alone lower member under) apart
    refine ⟨success && removed,after,?_,swept,attempts ▸ Tried.single _ alone,?_⟩
    · simp [deleteEntry,directory,run]
    · rw [Bool.and_eq_true,clear]
      simp

theorem Shallow.mono {tops : List (List String)} {files after : FileSystem String Content} {top : List String}
    {depth : ℕ} (shallow : Shallow files top depth) (swept : Swept fails tops files after) :
    Shallow after top depth := fun path member under => shallow path ((swept.mem path).mp member).1 under

private theorem child_unique {dir path : List String} {first second : String} (here : first::dir <:+ path)
    (there : second::dir <:+ path) : first = second := by
  have nested := List.suffix_of_suffix_length_le here there (le_of_eq rfl)
  exact (List.cons.inj (nested.eq_of_length rfl)).1

theorem Swept.apart {dir path : List String} {name other : String} {files after : FileSystem String Content}
    (swept : Swept fails [name::dir] files after) (differ : name ≠ other) (under : other::dir <:+ path) :
    after.tree.data path = files.tree.data path := by
  apply (swept path).2
  rintro ⟨⟨top,member,above⟩,_⟩
  rw [List.mem_singleton.mp member] at above
  exact differ (child_unique above under)

private theorem Swept.apart_mem {dir path : List String} {name other : String}
    {files after : FileSystem String Content}
    (swept : Swept fails [name::dir] files after) (differ : name ≠ other) (under : other::dir <:+ path) :
    path ∈ after.tree.nodes ↔ path ∈ files.tree.nodes := NodeTree.mem_congr (swept.apart differ under)

theorem entries_swept {below : List String → Disk Content → Option (Bool × Disk Content)} {dir : List String}
    {depth : ℕ}
    (deletes : ∀ (disk : Disk Content) name, name::dir ∈ disk.files.tree.nodes → Shallow disk.files (name::dir) depth →
      Deleted fails (name::dir) disk (below (name::dir) disk))
    (names : List String) (distinct : names.Nodup) (success : Bool) (disk : Disk Content)
    (present : ∀ name ∈ names, name::dir ∈ disk.files.tree.nodes)
    (shallow : ∀ name ∈ names, Shallow disk.files (name::dir) depth) :
    ∃ success' after, names.foldlM (deleteEntry fails below dir) (success,disk) = some (success',after) ∧
      Swept fails (names.map (·::dir)) disk.files after.files ∧
      (disk.attempts <+: after.attempts ∧
        (∀ name ∈ names, ∀ path ∈ disk.files.tree.nodes, name::dir <:+ path → path ∈ after.attempts) ∧
        ∀ path ∈ after.attempts, path ∈ disk.attempts ∨ dir <:+ path) ∧
      (success' = true ↔ success = true ∧ ∀ name ∈ names, disk.files.isDirectory (name::dir) = false ∧
        ¬ Stuck fails disk.files (name::dir)) := by
  induction names generalizing success disk with
  | nil => exact ⟨success,disk,rfl,Swept.nil _,⟨List.prefix_rfl,nofun,fun _ => .inl⟩,by simp⟩
  | cons name rest ih =>
    rw [List.forall_mem_cons] at present shallow
    rw [List.nodup_cons] at distinct
    have differ : ∀ other ∈ rest, name ≠ other := fun other member same => distinct.1 (same ▸ member)
    obtain ⟨first,middle,run,swept,tried,cleared⟩ := deleteEntry_swept success present.1
      fun _ => deletes disk name present.1 shallow.1
    obtain ⟨last,after,runs,swept',⟨kept,each,inside⟩,cleared'⟩ := ih distinct.2 first middle
      (fun other member => (swept.apart_mem (differ other member) List.suffix_rfl).mpr (present.2 other member))
      (fun other member => (shallow.2 other member).mono swept)
    refine ⟨last,after,?_,swept.append swept',⟨tried.kept.trans kept,?_,?_⟩,?_⟩
    · rw [List.foldlM_cons,run]
      exact runs
    · rw [List.forall_mem_cons]
      refine ⟨fun path member under => kept.subset (tried.each path member under),?_⟩
      intro other member path found under
      exact each other member path ((swept.apart_mem (differ other member) under).mpr found) under
    · intro path member
      rcases inside path member with old | under
      · exact (tried.inside path old).imp_right fun lower => (List.suffix_cons name dir).trans lower
      · exact .inr under
    · rw [cleared',cleared,List.forall_mem_cons,and_assoc]
      refine and_congr_right fun _ => and_congr_right fun _ => forall₂_congr fun other member => ?_
      rw [swept.stuck,FileSystem.isDirectory_congr (swept.apart (differ other member) List.suffix_rfl)]

variable (fails) in
/-- When the entries of a directory are swept, the directory is there and what is still
below it is stuck. -/
theorem children_swept {names dir : List String} {files middle : FileSystem String Content}
    (children : ∀ name, name ∈ names ↔ name::dir ∈ files.tree.nodes) (present : dir ∈ files.tree.nodes)
    (swept : Swept fails (names.map (·::dir)) files middle) : dir ∈ middle.tree.nodes ∧
      ∀ lower ∈ middle.tree.nodes, dir <:+ lower → lower ≠ dir → Stuck fails middle lower := by
  have covered : ∀ path, (∃ top ∈ names.map (·::dir), top <:+ path) ↔ ∃ name ∈ names, name::dir <:+ path := by simp
  constructor
  · refine (swept.mem dir).mpr ⟨present,?_⟩
    rintro ⟨above,_⟩
    obtain ⟨name,_,under⟩ := (covered dir).mp above
    have longer := under.length_le
    rw [List.length_cons] at longer
    omega
  · intro lower member under apart
    obtain ⟨found,held⟩ := (swept.mem lower).mp member
    obtain ⟨name,next⟩ := NodeTree.suffix_step under apart
    have child := (children name).mpr (files.tree.mem_of_suffix next found)
    rw [swept.stuck]
    by_contra free
    exact held ⟨(covered lower).mpr ⟨name,child,next⟩,free⟩

variable (fails) in
theorem delete_deleted (depth : ℕ) (dir : List String) (disk : Disk Content)
    (present : dir ∈ disk.files.tree.nodes) (shallow : Shallow disk.files dir depth) :
    Deleted fails dir disk (delete fails depth dir disk) := by
  induction depth generalizing dir disk with
  | zero =>
    have short := shallow dir present List.suffix_rfl
    omega
  | succ depth ih =>
    obtain ⟨names,listed⟩ : ∃ names, names = (disk.files.listFiles dir).getD [] := ⟨_,rfl⟩
    have children : ∀ name, name ∈ names ↔ name::dir ∈ disk.files.tree.nodes := by
      rw [listed]
      exact fun name => FileSystem.mem_listFiles
    have distinct : names.Nodup := by
      rw [listed,FileSystem.listFiles]
      split_ifs
      · exact disk.files.tree.children_nodup dir
      · exact List.nodup_nil
    obtain ⟨success,middle,runs,swept,⟨kept,each,inside⟩,cleared⟩ :=
      entries_swept (fun disk name found low => ih (name::dir) disk found low) names distinct true disk
        (fun name member => (children name).mp member) (by
          intro name _ path found under
          have short := shallow path found ((List.suffix_cons name dir).trans under)
          rw [List.length_cons]
          omega)
    obtain ⟨remains,emptied⟩ := children_swept fails children present swept
    obtain ⟨removed,after,run,attempts,swept',clear⟩ := deleteFile_swept fails remains emptied
    refine ⟨success && removed,after,?_,(swept.append swept').congr ?_,⟨?_,?_,?_⟩,?_⟩
    · rw [delete,if_neg (not_not.mpr present),← listed,runs]
      simp [run]
    · intro path
      constructor
      · rintro ⟨top,member,under⟩
        refine ⟨dir,List.mem_singleton_self dir,?_⟩
        rcases List.mem_append.mp member with child | here
        · obtain ⟨name,_,rfl⟩ := List.mem_map.mp child
          exact (List.suffix_cons name dir).trans under
        · exact List.mem_singleton.mp here ▸ under
      · rintro ⟨top,member,under⟩
        exact ⟨top,List.mem_append_right _ member,under⟩
    · rw [attempts]
      exact kept.trans (List.prefix_append _ _)
    · intro path found under
      rw [attempts]
      by_cases here : path = dir
      · simp [here]
      · obtain ⟨name,next⟩ := NodeTree.suffix_step under here
        have child := (children name).mpr (disk.files.tree.mem_of_suffix next found)
        exact List.mem_append_left _ (each name child path found next)
    · intro path member
      rw [attempts] at member
      rcases List.mem_append.mp member with old | new
      · exact inside path old
      · exact .inr (List.mem_singleton.mp new ▸ List.suffix_rfl)
    · rw [Bool.and_eq_true,cleared,clear,swept.stuck]
      constructor
      · rintro ⟨⟨_,each⟩,free⟩
        refine ⟨fun name => ?_,free⟩
        by_cases child : name ∈ names
        · exact (each name child).1
        · exact FileSystem.isDirectory_absent fun member => child ((children name).mpr member)
      · rintro ⟨flat,free⟩
        exact ⟨⟨rfl,fun name _ => ⟨flat name,fun stuck => free (stuck.upward (List.suffix_cons name dir))⟩⟩,free⟩

private theorem foldlM_more {State Item : Type*} {first second : State → Item → Option State}
    (more : ∀ state item result, first state item = some result → second state item = some result)
    {items : List Item} {state result : State} (run : items.foldlM first state = some result) :
    items.foldlM second state = some result := by
  induction items generalizing state with
  | nil => exact run
  | cons item rest ih =>
    rw [List.foldlM_cons] at run ⊢
    obtain ⟨next,once,others⟩ := Option.bind_eq_some_iff.mp run
    rw [more _ _ _ once]
    exact ih others

theorem delete_more {depth : ℕ} {dir : List String} {disk : Disk Content} {result : Bool × Disk Content}
    (run : delete fails depth dir disk = some result) (extra : ℕ) :
    delete fails (depth+extra) dir disk = some result := by
  induction depth generalizing dir disk result with
  | zero => contradiction
  | succ depth ih =>
    rw [Nat.add_right_comm,delete]
    rw [delete] at run
    split_ifs at run ⊢ with present
    · obtain ⟨state,once,rest⟩ := Option.bind_eq_some_iff.mp run
      refine Option.bind_eq_some_iff.mpr ⟨state,foldlM_more ?_ once,rest⟩
      intro state name result once
      rw [deleteEntry] at once ⊢
      split_ifs at once ⊢
      · obtain ⟨inner,called,joined⟩ := Option.bind_eq_some_iff.mp once
        exact Option.bind_eq_some_iff.mpr ⟨inner,ih called,joined⟩
      · exact once
    · exact run

variable (fails) in
/-- The call returns, tries every entry of the tree, changes nothing outside it and says
whether the whole tree is gone. -/
def Right (files : FileSystem String Content) (dir : List String) : Prop :=
  ∃ depth success after, delete fails depth dir ⟨files,[]⟩ = some (success,after) ∧
    (∀ path ∈ files.tree.nodes, dir <:+ path → path ∈ after.attempts) ∧
    (∀ path, ¬ dir <:+ path → after.files.tree.data path = files.tree.data path) ∧
    (success = true ↔ ∀ path ∈ after.files.tree.nodes, ¬ dir <:+ path)

theorem Swept.gone {dir : List String} {files after : FileSystem String Content} (swept : Swept fails [dir] files after) :
    (∀ path ∈ after.tree.nodes, ¬ dir <:+ path) ↔ ¬ Stuck fails files dir := by
  constructor
  · rintro gone stuck
    obtain ⟨lower,member,under,_⟩ := (swept.stuck dir).mpr stuck
    exact gone lower member under
  · intro free path member under
    obtain ⟨_,held⟩ := (swept.mem path).mp member
    exact held ⟨⟨dir,List.mem_singleton_self dir,under⟩,fun stuck => free (stuck.upward under)⟩

private theorem right_iff_present {files : FileSystem String Content} {dir : List String}
    (present : dir ∈ files.tree.nodes) :
    Right fails files dir ↔ (∀ name, files.isDirectory (name::dir) = false) ∨ Stuck fails files dir := by
  obtain ⟨success,after,run,swept,tried,cleared⟩ := delete_deleted fails files.tree.height dir ⟨files,[]⟩
    present fun path member _ => Nat.lt_add_left _ (files.tree.length_lt_height path member)
  have gone := swept.gone
  constructor
  · rintro ⟨depth,success',after',run',_,_,told⟩
    have same := (delete_more run depth).symm.trans (Nat.add_comm _ _ ▸ delete_more run' files.tree.height)
    cases same
    rw [cleared,gone] at told
    tauto
  · intro either
    refine ⟨_,success,after,run,tried.each,?_,?_⟩
    · intro path outside
      apply (swept path).2
      rintro ⟨⟨top,member,under⟩,_⟩
      exact outside (List.mem_singleton.mp member ▸ under)
    · rw [cleared,gone]
      tauto

theorem delete_right_iff (files : FileSystem String Content) (fails : List String → Bool) (dir : List String) :
    Right fails files dir ↔ (∀ name, files.isDirectory (name::dir) = false) ∨
      ∃ path ∈ files.tree.nodes, dir <:+ path ∧ fails path = true := by
  by_cases present : dir ∈ files.tree.nodes
  · exact right_iff_present present
  · have outside : ∀ path ∈ files.tree.nodes, ¬ dir <:+ path := fun path member under =>
      present (files.tree.mem_of_suffix under member)
    have run : delete fails 1 dir ⟨files,[]⟩ = some (true,⟨files,[]⟩) := if_pos present
    constructor
    · intro _
      exact .inl fun name => FileSystem.isDirectory_absent fun member => present (files.tree.closed name dir member)
    · intro _
      exact ⟨1,true,_,run,fun path member under => absurd under (outside path member),fun _ _ => rfl,
        fun _ => outside,fun _ => rfl⟩

theorem delete_nested_wrong :
    let outer : FileSystem String Unit := FileSystem.root.add [] "outer" .directory (by decide) (by decide)
    let files := outer.add ["outer"] "inner" .directory (by decide) (by decide)
    ¬ Right (fun _ => false) files ["outer"] := by
  intro outer files right
  rcases (right_iff_present (by decide)).mp right with flat | ⟨_,_,_,held⟩
  · exact absurd (flat "inner") (by decide)
  · contradiction

end YzFramework.Util.FileDelete
