import YzFramework.Library.ByteStream
import YzFramework.Library.FileSystem
import YzFramework.Library.Script
import YzFramework.Library.Text

/-! `ZipUitls.zipFile`: the entries of the archive for a file or a tree of files. The
errors are the names of the Java exceptions; each read of a file may give less than it
asks for. -/
namespace YzFramework.Util.ZipUitls
open Library Library.Script

/-- The entries, with what has been written to each. -/
abbrev Archive := List (String × List UInt8)

def putNextEntry (name : String) : Script Archive Unit := fun archive =>
  if 65535 < Text.units name then (.error "IllegalArgumentException",archive)
  else if name ∈ archive.map Prod.fst then (.error "ZipException",archive)
  else (.ok (),archive ++ [(name,[])])

def write (bytes : List UInt8) : Script Archive Unit := fun archive =>
  match archive.getLast? with
  | none => (.error "ZipException",archive)
  | some (name,written) => (.ok (),archive.dropLast ++ [(name,written ++ bytes)])

/-- The subclasses of `IOException` are caught. -/
def caught (script : Script Archive Unit) : Script Archive Unit := fun archive =>
  match script archive with
  | (.error fault,archive) =>
    if fault = "ZipException" ∨ fault = "FileNotFoundException" then (.ok (),archive) else (.error fault,archive)
  | (.ok (),archive) => (.ok (),archive)

variable (files : FileSystem String (List UInt8)) (willing : List String → ℕ → ℕ)

/-- The depth is that of the call stack. -/
def compressedFile : ℕ → List String → String → Script Archive Unit
  | 0,_,_ => fun archive => (.error "StackOverflowError",archive)
  | depth+1,file,dir => caught <|
    match files.tree.data file with
    | some .directory => do
      putNextEntry (dir ++ "/")
      let dir := if dir = "" then "" else dir ++ "/"
      ((files.listFiles file).getD []).forM fun name => compressedFile depth (name::file) (dir ++ name)
    | some (.file content) => do
      putNextEntry dir
      write (ByteStream.copy ⟨content,willing file,0⟩ 1024 ByteStream.kilobyte_pos (List.replicate 1024 0) [])
    | none => fun archive => (.error "FileNotFoundException",archive)

/-- The archive, on a tree that has room for it elsewhere. -/
def zipFile (source : List String) : Archive := (compressedFile files willing files.tree.height source "" []).2

/-- A file or a directory of a tree whose names a file system accepts. -/
structure Source where
  files : FileSystem String (List UInt8)
  path : List String
  present : path ∈ files.tree.nodes
  plain : ∀ name parent, name::parent ∈ files.tree.nodes → name ≠ "" ∧ '/' ∉ name.toList

def relative (lower : List String) : String := Text.chain '/' lower.reverse

namespace Source

variable (source : Source)

def lower (path : List String) : List String := path.take (path.length-source.path.length)

def entryName (path : List String) : String :=
  if source.files.isDirectory path then relative (source.lower path) ++ "/" else relative (source.lower path)

def entry (path : List String) : String × List UInt8 :=
  (source.entryName path,match source.files.tree.data path with
    | some (.file content) => content
    | _ => [])

/-- The name that the entry of a file is to have. -/
def fileName (path : List String) : String :=
  if path = source.path then source.path.headD "" else relative (source.lower path)

end Source

def absolute (name : String) : Prop := name.toList.head? = some '/'

structure Zipped (source : Source) (archive : Archive) : Prop where
  each : ∀ path content, source.path <:+ path → source.files.tree.data path = some (.file content) →
    source.fileName path ≠ "" ∧
      archive.filter (fun entry => entry.1 = source.fileName path) = [(source.fileName path,content)]
  distinct : (archive.map Prod.fst).Nodup
  directories : ∀ entry ∈ archive,
    (∀ path content, source.path <:+ path → source.files.tree.data path = some (.file content) →
      entry.1 ≠ source.fileName path) →
    (∃ path, source.path <:+ path ∧ source.files.isDirectory path = true ∧
      entry.1 = relative (source.lower path) ++ "/") ∧ ¬ absolute entry.1

theorem putNextEntry_ok {name : String} {archive : Archive} (short : Text.units name ≤ 65535)
    (fresh : name ∉ archive.map Prod.fst) : putNextEntry name archive = (.ok (),archive ++ [(name,[])]) := by
  rw [putNextEntry,if_neg (by omega),if_neg fresh]

theorem write_ok (bytes : List UInt8) (archive : Archive) (name : String) (written : List UInt8) :
    write bytes (archive ++ [(name,written)]) = (.ok (),archive ++ [(name,written ++ bytes)]) := by
  rw [write,List.getLast?_concat,List.dropLast_concat]

theorem caught_ok {script : Script Archive Unit} {archive after : Archive}
    (ran : script archive = (.ok (),after)) : caught script archive = (.ok (),after) := by
  rw [caught,ran]

def Plain (name : String) : Prop := name ≠ "" ∧ '/' ∉ name.toList

theorem relative_nil : relative [] = "" := rfl

theorem relative_cons (name : String) {lower : List String} (some : lower ≠ []) :
    relative (name::lower) = relative lower ++ "/" ++ name := by
  obtain ⟨first,rest,rfl⟩ := List.exists_cons_of_ne_nil some
  apply String.toList_inj.mp
  rw [String.toList_append,String.toList_append,relative,relative,List.reverse_cons,List.reverse_cons,
    Text.chain_concat,Text.chain_concat]
  simp

theorem relative_single (name : String) : relative [name] = name := Text.chain_single '/' name

theorem relative_head {lower : List String} (some : lower ≠ []) (plain : ∀ name ∈ lower, Plain name) :
    ∃ c rest, (relative lower).toList = c::rest ∧ c ≠ '/' := by
  induction lower with
  | nil => contradiction
  | cons name rest ih =>
    rw [List.forall_mem_cons] at plain
    by_cases last : rest = []
    · obtain ⟨c,others,shown⟩ := List.exists_cons_of_ne_nil (mt String.toList_eq_nil_iff.mp plain.1.1)
      rw [last,relative_single]
      refine ⟨c,others,shown,?_⟩
      rintro rfl
      exact plain.1.2 (shown ▸ List.mem_cons_self)
    · obtain ⟨c,others,shown,apart⟩ := ih last plain.2
      refine ⟨c,others ++ '/'::name.toList,?_,apart⟩
      rw [relative_cons name last,String.toList_append,String.toList_append,shown]
      simp

theorem relative_eq_empty {lower : List String} (plain : ∀ name ∈ lower, Plain name) :
    relative lower = "" ↔ lower = [] := by
  constructor
  · intro empty
    by_contra some
    obtain ⟨c,rest,shown,_⟩ := relative_head some plain
    rw [empty] at shown
    contradiction
  · rintro rfl
    exact relative_nil

/-- The prefix that is handed down and a name in it make the name below. -/
theorem relative_below (name : String) {lower : List String} (plain : ∀ name ∈ lower, Plain name) :
    (if relative lower = "" then "" else relative lower ++ "/") ++ name = relative (name::lower) := by
  by_cases top : lower = []
  · rw [if_pos ((relative_eq_empty plain).mpr top),top,relative_single,String.empty_append]
  · rw [if_neg (mt (relative_eq_empty plain).mp top),relative_cons name top]

theorem split_relative {lower : List String} (some : lower ≠ []) (plain : ∀ name ∈ lower, Plain name) :
    Text.split (· == '/') (relative lower) = lower.reverse := by
  obtain ⟨name,rest,rfl⟩ := List.exists_cons_of_ne_nil some
  rw [List.forall_mem_cons] at plain
  rw [relative,List.reverse_cons]
  exact Text.split_chain '/' rest.reverse plain.1.1 (fun piece inside => (plain.2 piece (List.mem_reverse.mp inside)).2)
    plain.1.2

theorem relative_inj {first second : List String} (plain : ∀ name ∈ first, Plain name)
    (alsoPlain : ∀ name ∈ second, Plain name) (same : relative first = relative second) : first = second := by
  by_cases top : first = []
  · rw [top,relative_nil,eq_comm,relative_eq_empty alsoPlain] at same
    rw [top,same]
  · have below : second ≠ [] := by
      rintro rfl
      exact top ((relative_eq_empty plain).mp same)
    have pieces := congrArg (Text.split (· == '/')) same
    rw [split_relative top plain,split_relative below alsoPlain] at pieces
    exact List.reverse_injective pieces

theorem relative_ne {first second : List String} (plain : ∀ name ∈ second, Plain name) :
    relative first ++ "/" ≠ relative second := by
  intro same
  have letters := congrArg String.toList same
  rw [String.toList_append] at letters
  cases second with
  | nil => simp [relative_nil] at letters
  | cons name rest =>
    have own := plain name List.mem_cons_self
    have ends := congrArg List.getLast? letters
    rw [relative.eq_def (name::rest),List.reverse_cons,Text.chain_concat,
      List.getLast?_append_of_ne_nil _ (mt String.toList_eq_nil_iff.mp own.1)] at ends
    apply own.2
    apply List.mem_of_getLast?
    rw [← ends]
    exact List.getLast?_concat

variable (source : Source)

theorem lower_append (lower : List String) : source.lower (lower ++ source.path) = lower := by
  rw [Source.lower,List.length_append,Nat.add_sub_cancel]
  exact List.take_left

theorem plain_lower {lower : List String} (present : lower ++ source.path ∈ source.files.tree.nodes) :
    ∀ name ∈ lower, Plain name := by
  induction lower with
  | nil => nofun
  | cons name rest ih =>
    rw [List.forall_mem_cons]
    exact ⟨source.plain name _ present,ih (source.files.tree.closed name _ present)⟩

theorem entryName_inj {first second : List String} (here : source.path <:+ first) (there : source.path <:+ second)
    (member : first ∈ source.files.tree.nodes) (alsoMember : second ∈ source.files.tree.nodes)
    (same : source.entryName first = source.entryName second) : first = second := by
  obtain ⟨lower,rfl⟩ := here
  obtain ⟨other,rfl⟩ := there
  have plain := plain_lower source member
  have alsoPlain := plain_lower source alsoMember
  rw [Source.entryName,Source.entryName,lower_append,lower_append] at same
  split_ifs at same
  · rw [String.append_left_inj] at same
    rw [relative_inj plain alsoPlain same]
  · exact absurd same (relative_ne alsoPlain)
  · exact absurd same.symm (relative_ne plain)
  · rw [relative_inj plain alsoPlain same]

theorem entry_directory {lower : List String} (held : source.files.tree.data (lower ++ source.path) = some .directory) :
    source.entry (lower ++ source.path) = (relative lower ++ "/",[]) := by
  rw [Source.entry,Source.entryName,if_pos ((FileSystem.isDirectory_iff _ _).mpr held),lower_append,held]

theorem entry_file {lower : List String} {content : List UInt8}
    (held : source.files.tree.data (lower ++ source.path) = some (.file content)) :
    source.entry (lower ++ source.path) = (relative lower,content) := by
  have file : ¬ source.files.isDirectory (lower ++ source.path) = true := by
    rw [FileSystem.isDirectory_iff,held]
    intro same
    cases same
  rw [Source.entry,Source.entryName,if_neg file,lower_append,held]

theorem children_file {path : List String} {content : List UInt8}
    (held : source.files.tree.data path = some (.file content)) : source.files.tree.children path = [] := by
  rw [List.eq_nil_iff_forall_not_mem]
  intro child member
  have above := source.files.below child _ ((source.files.tree.mem_children _ _).mp member)
  rw [held] at above
  cases above

theorem names_nodup (depth : ℕ) {path : List String} (under : source.path <:+ path)
    (present : path ∈ source.files.tree.nodes) :
    ((source.files.tree.visit depth path).map source.entryName).Nodup := by
  apply List.Nodup.map_on _ (source.files.tree.visit_nodup depth path)
  intro first member second alsoMember same
  obtain ⟨here,found,_⟩ := (source.files.tree.mem_visit depth path first present).mp member
  obtain ⟨there,alsoFound,_⟩ := (source.files.tree.mem_visit depth path second present).mp alsoMember
  exact entryName_inj source (under.trans here) (under.trans there) found alsoFound same

private theorem forM_entries {script : String → Script Archive Unit} {entries : String → Archive}
    (names : List String)
    (archive : Archive) (fresh : ((archive ++ names.flatMap entries).map Prod.fst).Nodup)
    (each : ∀ name ∈ names, ∀ before : Archive, ((before ++ entries name).map Prod.fst).Nodup →
      script name before = (.ok (),before ++ entries name)) :
    names.forM script archive = (.ok (),archive ++ names.flatMap entries) := by
  induction names generalizing archive with
  | nil =>
    rw [List.flatMap_nil,List.append_nil]
    rfl
  | cons name rest ih =>
    rw [List.forall_mem_cons] at each
    rw [List.flatMap_cons,← List.append_assoc] at fresh ⊢
    have first := each.1 archive (by
      rw [List.map_append] at fresh
      exact fresh.of_append_left)
    exact (bind_ok _ first).trans (ih _ fresh each.2)

theorem compressedFile_eq (depth : ℕ) (lower : List String) (archive : Archive)
    (present : lower ++ source.path ∈ source.files.tree.nodes)
    (shallow : ∀ path ∈ source.files.tree.nodes, path.length < (lower ++ source.path).length+depth)
    (short : ∀ path ∈ source.files.tree.nodes, source.path <:+ path → Text.units (source.entryName path) ≤ 65535)
    (fresh : ((archive ++ (source.files.tree.visit depth (lower ++ source.path)).map source.entry).map Prod.fst).Nodup) :
    compressedFile source.files willing depth (lower ++ source.path) (relative lower) archive =
      (.ok (),archive ++ (source.files.tree.visit depth (lower ++ source.path)).map source.entry) := by
  induction depth generalizing lower archive with
  | zero => exact absurd (shallow _ present) (by omega)
  | succ depth ih =>
    have plain := plain_lower source present
    have own := short _ present (List.suffix_append _ _)
    rw [NodeTree.visit,List.map_cons] at fresh ⊢
    have new : source.entryName (lower ++ source.path) ∉ archive.map Prod.fst := by
      intro member
      rw [List.map_append,List.nodup_append] at fresh
      exact fresh.2.2 _ member _ List.mem_cons_self rfl
    have joined : ∀ rest, archive ++ source.entry (lower ++ source.path)::rest =
        archive ++ [source.entry (lower ++ source.path)] ++ rest := by simp
    rw [compressedFile]
    apply caught_ok
    obtain ⟨kind,held⟩ := NodeTree.data_of_mem present
    cases kind with
    | directory =>
      have directory := (FileSystem.isDirectory_iff _ _).mpr held
      have entry := entry_directory source held
      have name : source.entryName (lower ++ source.path) = relative lower ++ "/" := congrArg Prod.fst entry
      have listed : (source.files.listFiles (lower ++ source.path)).getD [] =
          source.files.tree.children (lower ++ source.path) := by
        rw [FileSystem.listFiles,if_pos directory]
        rfl
      rw [name] at own new
      rw [joined,entry,List.map_flatMap] at fresh ⊢
      rw [held]
      apply (bind_ok _ (putNextEntry_ok own new)).trans
      simp only [listed,relative_below _ plain]
      apply forM_entries _ _ fresh
      intro name member before fresh
      apply ih (name::lower) before _ _ fresh
      · exact (source.files.tree.mem_children _ _).mp member
      · intro path found
        have near := shallow path found
        rw [List.cons_append,List.length_cons]
        omega
    | file content =>
      have entry := entry_file source held
      have name : source.entryName (lower ++ source.path) = relative lower := congrArg Prod.fst entry
      have copied := ByteStream.copy_eq (⟨content,willing (lower ++ source.path),0⟩ : ByteStream UInt8) 1024
        ByteStream.kilobyte_pos (List.length_replicate (a := 0)) []
      rw [name] at own new
      rw [held,children_file source held,entry]
      apply (bind_ok _ (putNextEntry_ok own new)).trans
      rw [copied,write_ok]
      rfl

/-- Where no name is too long, each entry of the tree is in the archive once, with what
it holds; of the source itself only the name is not its own. -/
theorem zipFile_archive (short : ∀ path ∈ source.files.tree.nodes, source.path <:+ path →
      Text.units (source.entryName path) ≤ 65535) :
    zipFile source.files willing source.path =
      (source.files.tree.visit source.files.tree.height source.path).map source.entry ∧
      ((zipFile source.files willing source.path).map Prod.fst).Nodup := by
  have distinct := names_nodup source source.files.tree.height List.suffix_rfl source.present
  have ran := compressedFile_eq willing source source.files.tree.height [] [] source.present
    (fun path member => Nat.lt_add_left _ (source.files.tree.length_lt_height path member)) short
    (by rw [List.nil_append,List.map_map]; exact distinct)
  have whole : zipFile source.files willing source.path =
      (source.files.tree.visit source.files.tree.height source.path).map source.entry := congrArg Prod.snd ran
  refine ⟨whole,?_⟩
  rw [whole,List.map_map]
  exact distinct

def Keeps (script : Script Archive Unit) : Prop :=
  ∀ archive, archive.map Prod.fst <+: (script archive).2.map Prod.fst

private theorem keeps_putNextEntry (name : String) : Keeps (putNextEntry name) := by
  intro archive
  rw [putNextEntry]
  split_ifs
  · exact List.prefix_rfl
  · exact List.prefix_rfl
  · rw [List.map_append]
    exact List.prefix_append _ _

private theorem keeps_write (bytes : List UInt8) : Keeps (write bytes) := by
  intro archive
  rcases List.eq_nil_or_concat archive with rfl | ⟨before,⟨name,written⟩,rfl⟩
  · exact List.prefix_rfl
  · rw [List.concat_eq_append,write_ok]
    simp

theorem caught_snd (script : Script Archive Unit) (archive : Archive) :
    (caught script archive).2 = (script archive).2 := by
  rcases ran : script archive with ⟨_ | _,after⟩
  · rw [caught,ran]
    dsimp only
    split_ifs <;> rfl
  · rw [caught,ran]

private theorem keeps_caught {script : Script Archive Unit} (keeps : Keeps script) : Keeps (caught script) := by
  intro archive
  rw [caught_snd]
  exact keeps archive

theorem keeps_bind {script : Script Archive Unit} {next : Unit → Script Archive Unit} (keeps : Keeps script)
    (later : Keeps (next ())) : Keeps (script >>= next) := by
  intro archive
  have kept := keeps archive
  rcases ran : script archive with ⟨_ | _,after⟩
  · rw [ran] at kept
    rw [bind_error _ ran]
    exact kept
  · rw [ran] at kept
    rw [bind_ok _ ran]
    exact kept.trans (later after)

private theorem keeps_forM {script : String → Script Archive Unit} (names : List String)
    (each : ∀ name, Keeps (script name)) : Keeps (names.forM script) := by
  induction names with
  | nil => exact fun _ => List.prefix_rfl
  | cons name rest ih => exact keeps_bind (each name) ih

private theorem keeps_compressedFile (files : FileSystem String (List UInt8)) (depth : ℕ) (file : List String)
    (dir : String) :
    Keeps (compressedFile files willing depth file dir) := by
  induction depth generalizing file dir with
  | zero => exact fun _ => List.prefix_rfl
  | succ depth ih =>
    apply keeps_caught
    split
    · exact keeps_bind (keeps_putNextEntry _) (keeps_forM _ fun name => ih _ _)
    · exact keeps_bind (keeps_putNextEntry _) (keeps_write _)
    · exact fun _ => List.prefix_rfl

theorem zipFile_directory (held : source.files.tree.data source.path = some .directory) :
    "/" ∈ (zipFile source.files willing source.path).map Prod.fst := by
  obtain ⟨depth,height⟩ : ∃ depth, source.files.tree.height = depth+1 := ⟨_,rfl⟩
  have first : putNextEntry ("" ++ "/") [] = (.ok (),[("/",[])]) := by decide
  rw [zipFile,height,compressedFile,caught_snd,held]
  dsimp only
  rw [bind_ok _ first]
  have kept := keeps_forM ((source.files.listFiles source.path).getD [])
    (fun name => keeps_compressedFile willing source.files depth (name::source.path) ("" ++ name)) [("/",[])]
  exact kept.subset List.mem_cons_self

theorem zipFile_file {content : List UInt8} (held : source.files.tree.data source.path = some (.file content)) :
    zipFile source.files willing source.path = [("",content)] := by
  obtain ⟨depth,height⟩ : ∃ depth, source.files.tree.height = depth+1 := ⟨_,rfl⟩
  have first : putNextEntry "" [] = (.ok (),[("",[])]) := by decide
  have copied := ByteStream.copy_eq (⟨content,willing source.path,0⟩ : ByteStream UInt8) 1024
    ByteStream.kilobyte_pos (List.length_replicate (a := 0)) []
  rw [zipFile,height,compressedFile,caught_snd,held]
  dsimp only
  rw [bind_ok _ first,copied]
  rfl

theorem fileName_ne_slash {path : List String} (under : source.path <:+ path) (apart : path ≠ source.path)
    (present : path ∈ source.files.tree.nodes) : "/" ≠ source.fileName path := by
  obtain ⟨lower,rfl⟩ := under
  have some : lower ≠ [] := by
    rintro rfl
    exact apart rfl
  obtain ⟨c,rest,shown,other⟩ := relative_head some (plain_lower source present)
  rw [Source.fileName,if_neg apart,lower_append]
  intro same
  rw [← same] at shown
  exact other (List.cons.inj shown).1.symm

private theorem not_zipped_directory (held : source.files.tree.data source.path = some .directory) :
    ¬ Zipped source (zipFile source.files willing source.path) := by
  intro zipped
  obtain ⟨entry,member,name⟩ := List.mem_map.mp (zipFile_directory willing source held)
  have none : ∀ path content, source.path <:+ path → source.files.tree.data path = some (.file content) →
      entry.1 ≠ source.fileName path := by
    intro path content under found
    rw [name]
    refine fileName_ne_slash source under ?_ (NodeTree.mem_of_data found)
    rintro rfl
    rw [held] at found
    cases found
  apply (zipped.directories entry member none).2
  rw [name,absolute]
  rfl

/-- A directory has an absolute entry, and a file one without a name. -/
theorem zipFile_never : ¬ Zipped source (zipFile source.files willing source.path) := by
  obtain ⟨kind,held⟩ := NodeTree.data_of_mem source.present
  cases kind with
  | directory => exact not_zipped_directory willing source held
  | file content =>
    intro zipped
    obtain ⟨some,only⟩ := zipped.each source.path content List.suffix_rfl held
    rw [zipFile_file willing source held,List.filter_cons_of_neg (by simpa using some.symm)] at only
    cases only

def small : Source :=
  let outer : FileSystem String (List UInt8) := FileSystem.root.add [] "d" .directory (by decide) (by decide)
  { files := outer.add ["d"] "a" (.file [1]) (by decide) (by decide)
    path := ["d"]
    present := by decide
    plain := by
      intro name parent member
      rw [FileSystem.mem_add,FileSystem.mem_add,FileSystem.mem_root] at member
      rcases member with same | same | same
      · rw [(List.cons.inj same).1]
        decide
      · rw [(List.cons.inj same).1]
        decide
      · contradiction }

theorem zipFile_small : ¬ Zipped small (zipFile small.files (fun _ _ => 1) small.path) :=
  not_zipped_directory _ small (by decide)

end YzFramework.Util.ZipUitls
