import YzFramework.Util.FileDelete

/-! `FileUtil.write`: on request the directories above the file are made first, and what is
at its place is deleted. -/
namespace YzFramework.Util.FileWrite
open Library FileDelete

variable {Content : Type*} (refuses fails : List String → Bool)

/-- `File.mkdir`; `refuses` is where the system lets nothing be made or written. -/
def mkdir (files : FileSystem String Content) : List String → Option (FileSystem String Content)
  | [] => none
  | name::parent =>
    if refuses (name::parent) then none
    else if placed : files.isDirectory parent = true then
      if fresh : name::parent ∉ files.tree.nodes then
        some (files.add parent name .directory ((files.isDirectory_iff parent).mp placed) fresh)
      else none
    else none

/-- `File.mkdirs` -/
def mkdirs (files : FileSystem String Content) : List String → Bool × FileSystem String Content
  | [] => (false,files)
  | name::parent =>
    if name::parent ∈ files.tree.nodes then (false,files)
    else match mkdir refuses files (name::parent) with
      | some files => (true,files)
      | none =>
        let (made,files) := mkdirs files parent
        if made ∨ parent ∈ files.tree.nodes then
          match mkdir refuses files (name::parent) with
          | some files => (true,files)
          | none => (false,files)
        else (false,files)

def createDirs (files : FileSystem String Content) : List String → FileSystem String Content
  | [] => files
  | _::parent => if parent ∈ files.tree.nodes then files else (mkdirs refuses files parent).2

def createDir (files : FileSystem String Content) (destDirName : List String) : Bool × FileSystem String Content :=
  if destDirName ∈ files.tree.nodes then (false,files) else mkdirs refuses files destDirName

/-- A new content for a file. -/
def overwrite (files : FileSystem String Content) (name : String) (parent : List String) (contentBytes : Content)
    (old : Content) (held : files.tree.data (name::parent) = some (.file old)) : FileSystem String Content where
  tree := files.tree.put (name::parent) (.file contentBytes) (files.tree.seated_of_mem _ (NodeTree.mem_of_data held))
  below := fun other upper member => by
    rw [NodeTree.data_put]
    have old : other::upper ∈ files.tree.nodes := by
      rcases (NodeTree.mem_put _ _ _ _ _).mp member with same | old
      · exact same ▸ NodeTree.mem_of_data held
      · exact old
    have apart : upper ≠ name::parent := by
      rintro rfl
      have directory := files.below other _ old
      rw [held] at directory
      cases directory
    rw [if_neg apart,files.below other upper old]

/-- `new FileOutputStream(f)` with what is written to it. -/
def fileOutputStream (files : FileSystem String Content) (contentBytes : Content) :
    List String → Option (FileSystem String Content)
  | [] => none
  | name::parent =>
    if refuses (name::parent) then none
    else match held : files.tree.data (name::parent) with
      | some .directory => none
      | some (.file old) => some (overwrite files name parent contentBytes old held)
      | none =>
        if placed : files.isDirectory parent = true then
          some (files.add parent name (.file contentBytes) ((files.isDirectory_iff parent).mp placed)
            ((files.tree.data_eq_none _).mp held))
        else none

/-- The depth is that of the call stack of `delete`; `cut` is what the file holds when the
writing breaks off. -/
def write (cut : Option Content) (depth : ℕ) (fileName : List String) (contentBytes : Content)
    (autoCreateDir autoOverwrite : Bool) (disk : Disk Content) : Option (Bool × Disk Content) := do
  let disk := if autoCreateDir then {disk with files := createDirs refuses disk.files fileName} else disk
  let disk ← if autoOverwrite then (delete fails depth fileName disk).map Prod.snd else some disk
  match fileOutputStream refuses disk.files (cut.getD contentBytes) fileName with
  | some files => some (cut.isNone,{disk with files})
  | none => some (false,disk)

/-- Directories can be made down to the path: from the first entry on the way that is
there, which is a directory, nothing is refused. -/
def Reachable (files : FileSystem String Content) : List String → Prop
  | [] => files.isDirectory []
  | name::parent => files.isDirectory (name::parent) ∨
      name::parent ∉ files.tree.nodes ∧ refuses (name::parent) = false ∧ Reachable files parent

/-- Nothing has changed but that directories are there now on the way to the path. -/
def Made (files after : FileSystem String Content) (path : List String) : Prop :=
  ∀ other, after.tree.data other = files.tree.data other ∨
    files.tree.data other = none ∧ other <:+ path ∧ after.tree.data other = some .directory

variable {refuses fails}

theorem mkdir_some {files after : FileSystem String Content} {name : String} {parent : List String}
    (made : mkdir refuses files (name::parent) = some after) :
    refuses (name::parent) = false ∧ files.isDirectory parent = true ∧ name::parent ∉ files.tree.nodes ∧
      ∀ other, after.tree.data other = if other = name::parent then some .directory else files.tree.data other := by
  rw [mkdir] at made
  split_ifs at made with refused placed fresh
  cases made
  exact ⟨by simpa using refused,placed,fresh,FileSystem.data_add _ fresh⟩

theorem mkdir_none {files : FileSystem String Content} {name : String} {parent : List String}
    (unmade : mkdir refuses files (name::parent) = none) :
    refuses (name::parent) = true ∨ files.isDirectory parent = false ∨ name::parent ∈ files.tree.nodes := by
  rw [mkdir] at unmade
  split_ifs at unmade with refused placed fresh
  · exact .inl refused
  · exact .inr (.inr fresh)
  · exact .inr (.inl (by simpa using placed))

theorem Made.refl (files : FileSystem String Content) (path : List String) : Made files files path := fun _ => .inl rfl

theorem made_mkdir {files middle after : FileSystem String Content} {name : String} {parent : List String}
    (above : Made files middle parent) (made : mkdir refuses middle (name::parent) = some after) :
    Made files after (name::parent) := by
  obtain ⟨-,-,fresh,data⟩ := mkdir_some made
  intro other
  rw [data]
  split_ifs with here
  · subst here
    refine .inr ⟨?_,List.suffix_rfl,rfl⟩
    rw [← NodeTree.data_eq_none] at fresh
    rcases above (name::parent) with same | ⟨absent,-,-⟩
    · rw [← same,fresh]
    · exact absent
  · rcases above other with same | ⟨absent,under,directory⟩
    · exact .inl same
    · exact .inr ⟨absent,under.trans (List.suffix_cons name parent),directory⟩

private theorem Made.weaken {files after : FileSystem String Content} {name : String} {parent : List String}
    (made : Made files after parent) : Made files after (name::parent) := by
  intro other
  rcases made other with same | ⟨absent,under,directory⟩
  · exact .inl same
  · exact .inr ⟨absent,under.trans (List.suffix_cons name parent),directory⟩

variable (refuses) in
theorem mkdirs_made (files : FileSystem String Content) (path : List String) :
    Made files (mkdirs refuses files path).2 path := by
  induction path with
  | nil => exact Made.refl files []
  | cons name parent ih =>
    rw [mkdirs]
    split_ifs with present
    · exact Made.refl files _
    cases once : mkdir refuses files (name::parent) with
    | some after => exact made_mkdir (Made.refl files parent) once
    | none =>
      dsimp only
      split_ifs with there
      · cases again : mkdir refuses (mkdirs refuses files parent).2 (name::parent) with
        | some after => exact made_mkdir ih again
        | none => exact ih.weaken
      · exact ih.weaken

theorem mkdirs_present {files : FileSystem String Content} {path : List String} (present : path ∈ files.tree.nodes) :
    mkdirs refuses files path = (false,files) := by
  cases path with
  | nil => rfl
  | cons name parent => rw [mkdirs,if_pos present]

theorem mkdir_directory {files after : FileSystem String Content} {name : String} {parent : List String}
    (made : mkdir refuses files (name::parent) = some after) : after.isDirectory (name::parent) = true := by
  obtain ⟨-,-,-,data⟩ := mkdir_some made
  rw [FileSystem.isDirectory_iff,data,if_pos rfl]

theorem Made.under {files after : FileSystem String Content} {name : String} {parent other : List String}
    (made : Made files after parent) (under : name::parent <:+ other) :
    after.tree.data other = files.tree.data other := by
  rcases made other with same | ⟨-,above,-⟩
  · exact same
  · have shorter := (under.trans above).length_le
    rw [List.length_cons] at shorter
    omega

theorem Made.absent {files after : FileSystem String Content} {name : String} {parent : List String}
    (made : Made files after parent) (absent : name::parent ∉ files.tree.nodes) :
    name::parent ∉ after.tree.nodes := fun member =>
  absent ((NodeTree.mem_congr (made.under List.suffix_rfl)).mp member)

/-- Only where something is in the way, or the system refuses, the directory is not there
after the call. -/
theorem mkdirs_directory_iff {files : FileSystem String Content} (path : List String) :
    (mkdirs refuses files path).2.isDirectory path = true ↔ Reachable refuses files path := by
  induction path with
  | nil => exact Iff.rfl
  | cons name parent ih =>
    rw [Reachable]
    by_cases present : name::parent ∈ files.tree.nodes
    · rw [mkdirs_present present]
      exact ⟨.inl,fun either => either.resolve_right fun held => held.1 present⟩
    · have missing : (files.isDirectory (name::parent) = true ∨
          name::parent ∉ files.tree.nodes ∧ refuses (name::parent) = false ∧ Reachable refuses files parent) ↔
            refuses (name::parent) = false ∧ (mkdirs refuses files parent).2.isDirectory parent = true := by
        rw [FileSystem.isDirectory_absent present,ih]
        simp [present]
      have absent := (mkdirs_made refuses files parent).absent present
      rw [missing,mkdirs,if_neg present]
      cases once : mkdir refuses files (name::parent) with
      | some after =>
        obtain ⟨free,directory,-,-⟩ := mkdir_some once
        rw [mkdirs_present (NodeTree.mem_of_data ((files.isDirectory_iff parent).mp directory))]
        exact iff_of_true (mkdir_directory once) ⟨free,directory⟩
      | none =>
        dsimp only
        split_ifs with there
        · cases again : mkdir refuses (mkdirs refuses files parent).2 (name::parent) with
          | some after =>
            obtain ⟨free,directory,-,-⟩ := mkdir_some again
            exact iff_of_true (mkdir_directory again) ⟨free,directory⟩
          | none =>
            refine iff_of_false (by simp [FileSystem.isDirectory_absent absent]) ?_
            rintro ⟨free,directory⟩
            rcases mkdir_none again with refused | none | member
            · rw [free] at refused
              cases refused
            · rw [directory] at none
              cases none
            · exact absent member
        · refine iff_of_false (by simp [FileSystem.isDirectory_absent absent]) ?_
          rintro ⟨-,directory⟩
          exact there (.inr (NodeTree.mem_of_data ((FileSystem.isDirectory_iff _ parent).mp directory)))

variable (refuses) in
theorem mkdirs_true_iff (files : FileSystem String Content) (path : List String) :
    (mkdirs refuses files path).1 = true ↔ path ∉ files.tree.nodes ∧
      (mkdirs refuses files path).2.isDirectory path = true := by
  cases path with
  | nil =>
    rw [mkdirs]
    refine iff_of_false nofun ?_
    rintro ⟨absent,directory⟩
    rw [FileSystem.isDirectory_absent absent] at directory
    cases directory
  | cons name parent =>
    by_cases present : name::parent ∈ files.tree.nodes
    · rw [mkdirs_present present]
      exact iff_of_false nofun fun held => held.1 present
    have absent := (mkdirs_made refuses files parent).absent present
    rw [mkdirs,if_neg present]
    cases once : mkdir refuses files (name::parent) with
    | some after => exact iff_of_true rfl ⟨present,mkdir_directory once⟩
    | none =>
      dsimp only
      split_ifs
      · cases again : mkdir refuses (mkdirs refuses files parent).2 (name::parent) with
        | some after => exact iff_of_true rfl ⟨present,mkdir_directory again⟩
        | none => simp [FileSystem.isDirectory_absent absent]
      · simp [FileSystem.isDirectory_absent absent]

/-- The call says whether it has made the directory, which it does where it can. -/
theorem createDir_effect (refuses : List String → Bool) (files : FileSystem String Content)
    (destDirName : List String) :
    let (made,after) := createDir refuses files destDirName
    (made = true ↔ destDirName ∉ files.tree.nodes ∧ Reachable refuses files destDirName) ∧
      (made = true → after.isDirectory destDirName = true) ∧ Made files after destDirName := by
  rw [createDir]
  split_ifs with present
  · exact ⟨iff_of_false nofun fun held => held.1 present,nofun,Made.refl files destDirName⟩
  · have told := mkdirs_true_iff refuses files destDirName
    refine ⟨?_,fun made => (told.mp made).2,mkdirs_made refuses files destDirName⟩
    rw [told,mkdirs_directory_iff]

variable (refuses) in
theorem createDirs_made (files : FileSystem String Content) (name : String) (parent : List String) :
    Made files (createDirs refuses files (name::parent)) parent := by
  rw [createDirs]
  split_ifs
  · exact Made.refl files parent
  · exact mkdirs_made refuses files parent

theorem createDirs_directory_iff (files : FileSystem String Content) (name : String) (parent : List String) :
    (createDirs refuses files (name::parent)).isDirectory parent = true ↔ Reachable refuses files parent := by
  rw [← mkdirs_directory_iff,createDirs]
  split_ifs with present
  · rw [mkdirs_present present]
  · exact Iff.rfl

theorem data_overwrite (files : FileSystem String Content) (name : String) (parent : List String)
    (contentBytes old : Content) (held : files.tree.data (name::parent) = some (.file old)) (other : List String) :
    (overwrite files name parent contentBytes old held).tree.data other =
      if other = name::parent then some (.file contentBytes) else files.tree.data other :=
  NodeTree.data_put files.tree (name::parent) other (.file contentBytes)
    (files.tree.seated_of_mem _ (NodeTree.mem_of_data held))

theorem fileOutputStream_some {files after : FileSystem String Content} {contentBytes : Content} {path : List String}
    (opened : fileOutputStream refuses files contentBytes path = some after) (other : List String) :
    after.tree.data other = if other = path then some (.file contentBytes) else files.tree.data other := by
  cases path with
  | nil => cases opened
  | cons name parent =>
    rw [fileOutputStream] at opened
    split at opened
    · cases opened
    split at opened
    · cases opened
    · cases opened
      exact data_overwrite _ _ _ _ _ _ other
    · split at opened
      · cases opened
        exact FileSystem.data_add _ _ other
      · cases opened

theorem fileOutputStream_iff (files : FileSystem String Content) (contentBytes : Content) (name : String)
    (parent : List String) :
    (fileOutputStream refuses files contentBytes (name::parent)).isSome ↔ refuses (name::parent) = false ∧
      files.isDirectory parent = true ∧ files.isDirectory (name::parent) = false := by
  rw [fileOutputStream]
  split
  · next refused => simp [refused]
  next free =>
  split
  · next held => simp [FileSystem.isDirectory,held]
  · next old held =>
    have seated := files.below name parent (NodeTree.mem_of_data held)
    simp [FileSystem.isDirectory,held,seated,free]
  · next held =>
    split_ifs with placed
    · simp [placed,FileSystem.isDirectory_absent ((files.tree.data_eq_none _).mp held),free]
    · simp [placed]

private theorem Reachable.of_directory {files : FileSystem String Content} {path : List String}
    (directory : files.isDirectory path = true) : Reachable refuses files path := by
  cases path with
  | nil => exact directory
  | cons name parent => exact .inl directory

private theorem stuck_congr {files after : FileSystem String Content} {path : List String}
    (same : ∀ other, path <:+ other → after.tree.data other = files.tree.data other) :
    Stuck fails after path ↔ Stuck fails files path := by
  refine exists_congr fun lower => and_congr_left fun held => ?_
  exact NodeTree.mem_congr (same lower held.1)

variable (fails) in
theorem delete_swept (path : List String) (disk : Disk Content) :
    ∃ least success after, (∀ depth, least ≤ depth → delete fails depth path disk = some (success,after)) ∧
      Swept fails [path] disk.files after.files := by
  by_cases present : path ∈ disk.files.tree.nodes
  · obtain ⟨success,after,run,swept,-,-⟩ := delete_deleted fails disk.files.tree.height path disk present
      fun lower member _ => Nat.lt_add_left _ (disk.files.tree.length_lt_height lower member)
    refine ⟨disk.files.tree.height,success,after,fun depth enough => ?_,swept⟩
    obtain ⟨extra,rfl⟩ := Nat.exists_eq_add_of_le enough
    exact delete_more run extra
  · have run : delete fails 1 path disk = some (true,disk) := if_pos present
    refine ⟨1,true,disk,fun depth enough => ?_,fun other => ⟨?_,fun _ => rfl⟩⟩
    · obtain ⟨extra,rfl⟩ := Nat.exists_eq_add_of_le enough
      exact delete_more run extra
    · rintro ⟨⟨top,member,under⟩,-⟩
      rw [NodeTree.data_eq_none]
      rw [List.mem_singleton.mp member] at under
      exact fun inside => present (disk.files.tree.mem_of_suffix under inside)

variable (refuses fails) in
/-- What the tree is when the file is opened. -/
structure Prepared (files middle : FileSystem String Content) (name : String) (parent : List String)
    (autoCreateDir autoOverwrite : Bool) : Prop where
  outside : ∀ other, ¬ name::parent <:+ other → middle.tree.data other = files.tree.data other ∨
    autoCreateDir = true ∧ files.tree.data other = none ∧ other <:+ parent ∧ middle.tree.data other = some .directory
  seat : middle.isDirectory parent = true ↔
    files.isDirectory parent = true ∨ autoCreateDir = true ∧ Reachable refuses files parent
  gone : autoOverwrite = true → ¬ Stuck fails files (name::parent) → middle.tree.data (name::parent) = none
  kept : (autoOverwrite = true → Stuck fails files (name::parent)) →
    middle.tree.data (name::parent) = files.tree.data (name::parent)

variable (refuses fails) in
private theorem created_prepared (files : FileSystem String Content) (name : String) (parent : List String)
    (autoCreateDir : Bool) :
    ∃ created, created = (if autoCreateDir then createDirs refuses files (name::parent) else files) ∧
      Made files created parent ∧ Prepared refuses fails files created name parent autoCreateDir false := by
  cases autoCreateDir with
  | false => exact ⟨_,rfl,Made.refl files parent,⟨fun _ _ => .inl rfl,by simp,nofun,fun _ => rfl⟩⟩
  | true =>
    have made := createDirs_made refuses files name parent
    refine ⟨_,rfl,made,⟨fun other _ => ?_,?_,nofun,fun _ => made.under List.suffix_rfl⟩⟩
    · exact (made other).imp_right fun new => ⟨rfl,new⟩
    · rw [if_pos rfl,createDirs_directory_iff]
      exact ⟨fun reachable => .inr ⟨rfl,reachable⟩,fun either => either.elim Reachable.of_directory And.right⟩

theorem Prepared.swept {files created middle : FileSystem String Content} {name : String} {parent : List String}
    {autoCreateDir : Bool} (prepared : Prepared refuses fails files created name parent autoCreateDir false)
    (made : Made files created parent) (swept : Swept fails [name::parent] created middle) :
    Prepared refuses fails files middle name parent autoCreateDir true := by
  have outside : ∀ other, ¬ name::parent <:+ other → middle.tree.data other = created.tree.data other := by
    intro other apart
    apply (swept other).2
    rintro ⟨⟨top,member,under⟩,-⟩
    exact apart (List.mem_singleton.mp member ▸ under)
  have stuck : Stuck fails created (name::parent) ↔ Stuck fails files (name::parent) :=
    stuck_congr fun other under => made.under under
  refine ⟨fun other apart => ?_,?_,fun _ free => ?_,fun held => ?_⟩
  · rw [outside other apart]
    exact prepared.outside other apart
  · rw [FileSystem.isDirectory_congr (outside parent fun under => absurd under.length_le (by simp))]
    exact prepared.seat
  · exact (swept _).1 ⟨⟨_,List.mem_singleton_self _,List.suffix_rfl⟩,fun held => free (stuck.mp held)⟩
  · rw [(swept _).2 fun cleared => cleared.2 (stuck.mpr (held rfl)),prepared.kept nofun]

variable (refuses fails) in
theorem write_run (cut : Option Content) (files : FileSystem String Content) (name : String) (parent : List String)
    (contentBytes : Content) (autoCreateDir autoOverwrite : Bool) :
    ∃ least middle, Prepared refuses fails files middle.files name parent autoCreateDir autoOverwrite ∧
      ∀ depth, least ≤ depth →
        write refuses fails cut depth (name::parent) contentBytes autoCreateDir autoOverwrite ⟨files,[]⟩ =
          some (match fileOutputStream refuses middle.files (cut.getD contentBytes) (name::parent) with
            | some after => (cut.isNone,⟨after,middle.attempts⟩)
            | none => (false,middle)) := by
  obtain ⟨created,same,made,prepared⟩ := created_prepared refuses fails files name parent autoCreateDir
  have start : (if autoCreateDir then
      {(⟨files,[]⟩ : Disk Content) with files := createDirs refuses files (name::parent)}
      else ⟨files,[]⟩) = ⟨created,[]⟩ := by
    rw [same]
    split_ifs
    all_goals rfl
  cases autoOverwrite with
  | false =>
    refine ⟨0,⟨created,[]⟩,prepared,fun depth _ => ?_⟩
    simp only [write,start,Bool.false_eq_true,if_false]
    cases opened : fileOutputStream refuses created (cut.getD contentBytes) (name::parent)
    all_goals simp [opened]
  | true =>
    obtain ⟨least,success,middle,run,swept⟩ := delete_swept fails (name::parent) ⟨created,[]⟩
    refine ⟨least,middle,prepared.swept made swept,fun depth enough => ?_⟩
    simp only [write,start,if_true,run depth enough]
    cases opened : fileOutputStream refuses middle.files (cut.getD contentBytes) (name::parent)
    all_goals simp [opened]

private theorem Prepared.directory_iff {files middle : FileSystem String Content} {name : String}
    {parent : List String}
    {autoCreateDir autoOverwrite : Bool}
    (prepared : Prepared refuses fails files middle name parent autoCreateDir autoOverwrite) :
    middle.isDirectory (name::parent) = false ↔ (files.isDirectory (name::parent) = true →
      autoOverwrite = true ∧ ¬ Stuck fails files (name::parent)) := by
  by_cases cleared : autoOverwrite = true ∧ ¬ Stuck fails files (name::parent)
  · have gone := prepared.gone cleared.1 cleared.2
    refine iff_of_true ?_ fun _ => cleared
    rw [FileSystem.isDirectory,gone]
  · have kept := prepared.kept fun asked => by_contra fun free => cleared ⟨asked,free⟩
    rw [FileSystem.isDirectory_congr kept]
    simp [cleared]

/-- A file can be written: directories are there or can be made, and what is at its place is
not a directory that remains. -/
def Writable (refuses fails : List String → Bool) (files : FileSystem String Content) (name : String)
    (parent : List String) (autoCreateDir autoOverwrite : Bool) : Prop :=
  refuses (name::parent) = false ∧
    (files.isDirectory parent = true ∨ autoCreateDir = true ∧ Reachable refuses files parent) ∧
    (files.isDirectory (name::parent) = true → autoOverwrite = true ∧ ¬ Stuck fails files (name::parent))

private theorem Prepared.opens_iff {files middle : FileSystem String Content} {name : String}
    {parent : List String}
    {autoCreateDir autoOverwrite : Bool}
    (prepared : Prepared refuses fails files middle name parent autoCreateDir autoOverwrite)
    (contentBytes : Content) : (fileOutputStream refuses middle contentBytes (name::parent)).isSome ↔
      Writable refuses fails files name parent autoCreateDir autoOverwrite := by
  rw [fileOutputStream_iff,prepared.seat,prepared.directory_iff,Writable]

/-- A write returns. It says whether the content is there, which it is exactly where it can
be, and nothing else has changed but that directories have been made on the way. -/
theorem write_effect (refuses fails : List String → Bool) (cut : Option Content) (files : FileSystem String Content)
    (name : String) (parent : List String) (contentBytes : Content) (autoCreateDir autoOverwrite : Bool) :
    ∃ least success after,
      (∀ depth, least ≤ depth →
        write refuses fails cut depth (name::parent) contentBytes autoCreateDir autoOverwrite ⟨files,[]⟩ =
          some (success,after)) ∧
      (success = true ↔ Writable refuses fails files name parent autoCreateDir autoOverwrite ∧ cut = none) ∧
      (success = true → after.files.tree.data (name::parent) = some (.file contentBytes)) ∧
      ∀ other, ¬ name::parent <:+ other → after.files.tree.data other = files.tree.data other ∨
        autoCreateDir = true ∧ files.tree.data other = none ∧ other <:+ parent ∧
          after.files.tree.data other = some .directory := by
  obtain ⟨least,middle,prepared,run⟩ :=
    write_run refuses fails cut files name parent contentBytes autoCreateDir autoOverwrite
  have able := prepared.opens_iff (cut.getD contentBytes)
  cases opened : fileOutputStream refuses middle.files (cut.getD contentBytes) (name::parent) with
  | none =>
    rw [opened] at run able
    refine ⟨least,false,middle,run,?_,nofun,prepared.outside⟩
    simp [← able]
  | some after =>
    rw [opened] at run able
    have data := fileOutputStream_some opened
    refine ⟨least,cut.isNone,⟨after,middle.attempts⟩,run,?_,fun whole => ?_,fun other apart => ?_⟩
    · simp [← able]
    · rw [data,if_pos rfl,Option.isNone_iff_eq_none.mp whole,Option.getD_none]
    · have unlike : other ≠ name::parent := fun same => apart (same ▸ List.suffix_rfl)
      rw [data,if_neg unlike]
      exact prepared.outside other apart

private theorem stuck_file {files : FileSystem String Content} {name : String} {parent : List String}
    {old : Content}
    (held : files.tree.data (name::parent) = some (.file old)) :
    Stuck fails files (name::parent) ↔ fails (name::parent) = true := by
  constructor
  · rintro ⟨lower,member,under,refused⟩
    by_cases here : lower = name::parent
    · exact here ▸ refused
    · rw [FileSystem.directory_of_below under here member] at held
      cases held
  · exact fun refused => ⟨_,NodeTree.mem_of_data held,List.suffix_rfl,refused⟩

/-- A file that is there survives a write that fails, unless it is deleted for one that is
then refused, or is replaced by part of the new content. -/
theorem write_survives_iff (refuses fails : List String → Bool) (cut : Option Content)
    (files : FileSystem String Content) (name : String) (parent : List String) (contentBytes old : Content)
    (autoCreateDir autoOverwrite : Bool) (held : files.tree.data (name::parent) = some (.file old)) :
    ∃ least success after,
      (∀ depth, least ≤ depth →
        write refuses fails cut depth (name::parent) contentBytes autoCreateDir autoOverwrite ⟨files,[]⟩ =
          some (success,after)) ∧
      ((success = false → after.files.tree.data (name::parent) = some (.file old)) ↔
        (refuses (name::parent) = true → autoOverwrite = true → fails (name::parent) = true) ∧
          (refuses (name::parent) = false → ∀ part, cut = some part → part = old)) := by
  obtain ⟨least,middle,prepared,run⟩ :=
    write_run refuses fails cut files name parent contentBytes autoCreateDir autoOverwrite
  have seat := (files.isDirectory_iff parent).mpr (files.below name parent (NodeTree.mem_of_data held))
  have plain : files.isDirectory (name::parent) = false := by rw [FileSystem.isDirectory,held]
  have able : (fileOutputStream refuses middle.files (cut.getD contentBytes) (name::parent)).isSome ↔
      refuses (name::parent) = false := by
    rw [prepared.opens_iff,Writable]
    simp [seat,plain]
  cases opened : fileOutputStream refuses middle.files (cut.getD contentBytes) (name::parent) with
  | none =>
    rw [opened] at run able
    refine ⟨least,false,middle,run,?_⟩
    have refused : refuses (name::parent) = true := by simpa using able
    simp only [refused,true_implies,Bool.true_eq_false,false_implies,and_true]
    by_cases kept : autoOverwrite = true → fails (name::parent) = true
    · refine iff_of_true ?_ kept
      rw [prepared.kept fun asked => (stuck_file held).mpr (kept asked),held]
    · refine iff_of_false (fun there => ?_) kept
      rw [Classical.not_imp] at kept
      rw [prepared.gone kept.1 fun stuck => kept.2 ((stuck_file held).mp stuck)] at there
      cases there
  | some after =>
    rw [opened] at run able
    have free : refuses (name::parent) = false := by simpa using able
    refine ⟨least,cut.isNone,⟨after,middle.attempts⟩,run,?_⟩
    have data := fileOutputStream_some opened (name::parent)
    rw [if_pos rfl] at data
    rw [data]
    cases cut with
    | none => simp [free]
    | some part => simp [free]

theorem write_lost :
    let files : FileSystem String Nat := FileSystem.root.add [] "old" (.file 1) (by decide) (by decide)
    ∃ depth success after, write (fun _ => true) (fun _ => false) none depth ["old"] 2 false true ⟨files,[]⟩ =
      some (success,after) ∧ ¬ (success = false → after.files.tree.data ["old"] = some (.file 1)) := by
  intro files
  obtain ⟨least,success,after,run,survives⟩ :=
    write_survives_iff (fun _ => true) (fun _ => false) none files "old" [] 2 1 false true (by decide)
  refine ⟨least,success,after,run least le_rfl,?_⟩
  rw [survives]
  simp

end YzFramework.Util.FileWrite
