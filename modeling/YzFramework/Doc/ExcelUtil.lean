import YzFramework.Library.Table
import YzFramework.Library.Text

/-! Maps written to a sheet by `ExcelUtil.export` and read back. A sheet of the old
format has bounds on its rows, its columns and its texts; `none` is an exception. -/
namespace YzFramework.Doc.ExcelUtil
open Library

abbrev Sheet := List (List String)

def Good (cells : List String) : Prop := cells.length ≤ 256 ∧ ∀ text ∈ cells, Text.units text ≤ 32767

instance (cells : List String) : Decidable (Good cells) := inferInstanceAs (Decidable (_ ∧ _))

def createRow (sheet : Sheet) (cells : List String) : Option Sheet :=
  if sheet.length ≤ 65535 ∧ Good cells then some (sheet ++ [cells]) else none

def hasText (title : Option String) : Bool := title.any fun text => !Text.isBlank text

def noData : Table String (Option String) := (∅ : Table String (Option String)).insert "数据" (some "没有数据")

/-- `export`: null objects are `none`, and `accepted` says which titles name a sheet. -/
def exportMaps (accepted : String → Bool) (title : Option String)
    (dataList : Option (List (Table String (Option String)))) : Option Sheet := do
  let firstRow := ((dataList.getD []).head?).getD noData
  let sheet ← if hasText title then
      if accepted (title.getD "") && firstRow.keys.length ≤ 255 then createRow [] [title.getD ""] else none
    else some []
  let keys := firstRow.keys
  let header ← keys.mapM fun key => (firstRow.lookup key).join
  let sheet ← createRow sheet header
  (dataList.getD []).foldlM (fun sheet e => createRow sheet (keys.map fun key => ((e.lookup key).join).getD "")) sheet

/-- A cell whose column has no name is put under null. -/
def getExcelData : Sheet → Option (List (Table (Option String) String))
  | [] => none
  | columnNames::rows => some (rows.map fun row =>
      Table.putAll ∅ (row.zipIdx.map fun cell => (columnNames[cell.2]?,cell.1)))

/-- Maps over one set of keys. -/
structure Records where
  first : Table String String
  rest : List (Table String String)
  some : first.keys ≠ []
  common : ∀ row ∈ rest, ∀ key, key ∈ row ↔ key ∈ first

namespace Records

variable (records : Records)

def list : List (Table String String) := records.first::records.rest

def dataList : List (Table String (Option String)) := records.list.map (Table.mapValues Option.some)

def cells (row : Table String String) : List String := records.first.keys.map fun key => (row.lookup key).getD ""

def Fits : Prop := records.list.length ≤ 65535 ∧ records.first.keys.length ≤ 256 ∧
  ∀ row ∈ records.list, ∀ key value, row.lookup key = Option.some value → Text.units value ≤ 32767

end Records

def Same (read : Table (Option String) String) (row : Table String String) : Prop :=
  read.lookup none = none ∧ ∀ key, read.lookup (some key) = row.lookup key

def RoundTrip (accepted : String → Bool) (title : Option String) (records : Records) : Prop :=
  ∃ sheet read, exportMaps accepted title (some records.dataList) = some sheet ∧
    getExcelData sheet = some read ∧ List.Forall₂ Same read records.list

theorem createRow_some {sheet out : Sheet} {cells : List String} :
    createRow sheet cells = some out ↔ (sheet.length ≤ 65535 ∧ Good cells) ∧ sheet ++ [cells] = out := by
  rw [createRow]
  split_ifs with taken <;> simp [taken]

theorem createRows {sheet out : Sheet} {rows : List (List String)} (small : sheet.length ≤ 65536) :
    rows.foldlM createRow sheet = some out ↔
      (sheet.length+rows.length ≤ 65536 ∧ ∀ cells ∈ rows, Good cells) ∧ sheet ++ rows = out := by
  induction rows generalizing sheet with
  | nil => simp [small]
  | cons cells rest ih =>
    have length : (sheet ++ [cells]).length = sheet.length+1 := by simp
    rw [List.foldlM_cons,List.forall_mem_cons,List.length_cons]
    apply Option.bind_eq_some_iff.trans
    constructor
    · rintro ⟨middle,created,others⟩
      obtain ⟨⟨room,good⟩,rfl⟩ := createRow_some.mp created
      obtain ⟨⟨total,all⟩,rfl⟩ := (ih (by omega)).mp others
      exact ⟨⟨by omega,good,all⟩,by simp⟩
    · rintro ⟨⟨total,good,all⟩,rfl⟩
      refine ⟨sheet ++ [cells],createRow_some.mpr ⟨⟨by omega,good⟩,rfl⟩,(ih (by omega)).mpr ⟨⟨by omega,all⟩,by simp⟩⟩

variable {accepted : String → Bool} {title : Option String} (records : Records)

theorem mem_first {row : Table String String} (member : row ∈ records.list) (key : String) :
    key ∈ row ↔ key ∈ records.first := by
  rcases List.mem_cons.mp member with rfl | later
  · rfl
  · exact records.common row later key

private theorem header_eq :
    (records.first.keys.mapM fun key => ((records.first.mapValues some).lookup key).join) =
    some (records.cells records.first) := by
  have each : ∀ keys : List String, (∀ key ∈ keys, key ∈ records.first) →
      (keys.mapM fun key => ((records.first.mapValues some).lookup key).join) =
        some (keys.map fun key => (records.first.lookup key).getD "") := by
    intro keys inside
    induction keys with
    | nil => rfl
    | cons key rest ih =>
      rw [List.forall_mem_cons] at inside
      obtain ⟨value,found⟩ := Option.isSome_iff_exists.mp (AList.lookup_isSome.mpr inside.1)
      rw [List.mapM_cons,ih inside.2,Table.lookup_mapValues,List.map_cons,found]
      rfl
  exact each _ fun _ => AList.mem_keys.mpr

theorem hasText_blank (blank : ∀ text ∈ title, Text.isBlank text = true) : hasText title = false := by
  cases title with
  | none => rfl
  | some text => simp [hasText,blank text rfl]

private theorem lookup_some (row : Table String String) (key : String) :
    ((row.mapValues some).lookup key).join = row.lookup key := by
  rw [Table.lookup_mapValues]
  cases row.lookup key <;> rfl

theorem exportMaps_eq (blank : ∀ text ∈ title, Text.isBlank text = true) :
    exportMaps accepted title (some records.dataList) =
      (records.cells records.first::records.list.map records.cells).foldlM createRow [] := by
  have keys : (records.first.mapValues some).keys = records.first.keys := by
    rw [AList.keys,List.keys,Table.mapValues,List.map_map]
    rfl
  have rows : ∀ sheet : Sheet, records.dataList.foldlM (fun sheet e =>
      createRow sheet (records.first.keys.map fun key => ((e.lookup key).join).getD "")) sheet =
        (records.list.map records.cells).foldlM createRow sheet := by
    intro sheet
    rw [Records.dataList,List.foldlM_map,List.foldlM_map]
    simp only [lookup_some]
    rfl
  have header := header_eq records
  simp only [← keys] at header rows
  rw [exportMaps,hasText_blank blank]
  change ((records.first.mapValues some).keys.mapM fun key => ((records.first.mapValues some).lookup key).join).bind
    (fun header => (createRow [] header).bind fun sheet => records.dataList.foldlM (fun sheet e =>
      createRow sheet ((records.first.mapValues some).keys.map fun key => ((e.lookup key).join).getD "")) sheet) = _
  rw [header,Option.bind_some]
  simp only [rows]
  rfl

private theorem good_iff :
    (records.list.length ≤ 65535 ∧ ∀ row ∈ records.list, Good (records.cells row)) ↔ records.Fits := by
  have texts : ∀ row ∈ records.list, (Good (records.cells row) ↔ records.first.keys.length ≤ 256 ∧
      ∀ key value, row.lookup key = some value → Text.units value ≤ 32767) := by
    intro row member
    rw [Good,Records.cells,List.length_map,List.forall_mem_map]
    refine and_congr_right fun _ => ⟨?_,?_⟩
    · intro small key value found
      have present := (mem_first records member key).mp (AList.lookup_isSome.mp (Option.isSome_iff_exists.mpr ⟨value,found⟩))
      have sized := small key (AList.mem_keys.mp present)
      rw [found] at sized
      exact sized
    · intro small key inside
      have present := (mem_first records member key).mpr (AList.mem_keys.mpr inside)
      obtain ⟨value,found⟩ := Option.isSome_iff_exists.mp (AList.lookup_isSome.mpr present)
      rw [found]
      exact small key value found
  rw [Records.Fits,forall₂_congr texts]
  constructor
  · rintro ⟨few,each⟩
    exact ⟨few,(each _ List.mem_cons_self).1,fun row member => (each row member).2⟩
  · rintro ⟨few,narrow,small⟩
    exact ⟨few,fun row member => ⟨narrow,small row member⟩⟩

theorem read_cells {α : Type*} (columns : List α) (name value : α → String) :
    ((columns.map value).zipIdx.map fun cell => ((columns.map name)[cell.2]?,cell.1)) =
      columns.map fun column => (some (name column),value column) := by
  apply List.ext_getElem
  · simp
  · intro i left right
    have bound : i < columns.length := by simpa using right
    simp [bound]

/-- A row as it is read: the header has the values of the first row. -/
def readRow (row : Table String String) : Table (Option String) String :=
  Table.putAll ∅ (records.first.keys.map fun key =>
    (some ((records.first.lookup key).getD ""),(row.lookup key).getD ""))

theorem getExcelData_eq :
    getExcelData (records.cells records.first::records.list.map records.cells) =
      some (records.list.map (readRow records)) := by
  rw [getExcelData,List.map_map]
  refine congrArg some (List.map_congr_left fun row _ => ?_)
  exact congrArg (Table.putAll ∅) (read_cells _ _ _)

theorem value_of_mem {row : Table String String} (member : row ∈ records.list) {key : String}
    (inside : key ∈ records.first.keys) : row.lookup key = some ((row.lookup key).getD "") := by
  have present := (mem_first records member key).mpr (AList.mem_keys.mpr inside)
  obtain ⟨value,found⟩ := Option.isSome_iff_exists.mp (AList.lookup_isSome.mpr present)
  rw [found]
  rfl

theorem same_of_header (header : ∀ key value, records.first.lookup key = some value → value = key)
    {row : Table String String} (member : row ∈ records.list) : Same (readRow records row) row := by
  have own : ∀ key ∈ records.first.keys, (records.first.lookup key).getD "" = key := fun key inside =>
    header key _ (value_of_mem records List.mem_cons_self inside)
  have pairs : (records.first.keys.map fun key => (some ((records.first.lookup key).getD ""),(row.lookup key).getD "")) =
      records.first.keys.map fun key => (some key,(row.lookup key).getD "") :=
    List.map_congr_left fun key inside => by rw [own key inside]
  rw [Same,readRow,pairs]
  constructor
  · apply Table.lookup_putAll_outside
    rw [List.forall_mem_map]
    exact fun _ _ => nofun
  · intro key
    by_cases inside : key ∈ records.first.keys
    · obtain ⟨pair,listed,same,found⟩ := Table.lookup_putAll_inside ∅
        (records.first.keys.map fun key => (some key,(row.lookup key).getD "")) (some key)
        ⟨_,List.mem_map_of_mem inside,rfl⟩
      obtain ⟨other,_,rfl⟩ := List.mem_map.mp listed
      cases same
      rw [found,value_of_mem records member inside]
      rfl
    · have absent : row.lookup key = none := by
        rw [AList.lookup_eq_none,mem_first records member]
        exact inside
      rw [absent]
      apply Table.lookup_putAll_outside
      rw [List.forall_mem_map]
      rintro other listed ⟨⟩
      exact inside listed

private theorem header_of_same (same : Same (readRow records records.first) records.first) (key value : String)
    (found : records.first.lookup key = some value) : value = key := by
  have read := same.2 key
  rw [found] at read
  by_cases inside : ∃ pair ∈ records.first.keys.map fun key =>
      (some ((records.first.lookup key).getD ""),(records.first.lookup key).getD ""), pair.1 = some key
  · obtain ⟨pair,listed,names,held⟩ := Table.lookup_putAll_inside ∅ _ _ inside
    obtain ⟨other,_,rfl⟩ := List.mem_map.mp listed
    exact (Option.some.inj (read.symm.trans held)).trans (Option.some.inj names)
  · have outside := Table.lookup_putAll_outside ∅ _ _ fun pair listed names => inside ⟨pair,listed,names⟩
    cases read.symm.trans outside

/-- The round trip succeeds where the first row has its keys for values and the sheet has
room for the rows. -/
theorem export_roundTrip_iff (accepted : String → Bool) (title : Option String)
    (blank : ∀ text ∈ title, Text.isBlank text = true) :
    RoundTrip accepted title records ↔
      (∀ key value, records.first.lookup key = some value → value = key) ∧ records.Fits := by
  rw [RoundTrip,exportMaps_eq records blank,← good_iff]
  constructor
  · rintro ⟨sheet,read,written,given,same⟩
    obtain ⟨⟨total,good⟩,rfl⟩ := (createRows (Nat.zero_le _)).mp written
    rw [List.forall_mem_cons,List.forall_mem_map] at good
    rw [List.nil_append,getExcelData_eq] at given
    cases given
    rw [Records.list,List.map_cons,List.forall₂_cons] at same
    rw [List.length_nil,List.length_cons,List.length_map] at total
    exact ⟨header_of_same records same.1,by omega,good.2⟩
  · rintro ⟨header,few,good⟩
    refine ⟨_,_,(createRows (Nat.zero_le _)).mpr ⟨⟨?_,?_⟩,rfl⟩,getExcelData_eq records,?_⟩
    · rw [List.length_nil,List.length_cons,List.length_map]
      omega
    · rw [List.forall_mem_cons,List.forall_mem_map]
      exact ⟨good _ List.mem_cons_self,good⟩
    · rw [List.forall₂_map_left_iff,List.forall₂_same]
      exact fun row member => same_of_header records header member

def named : Records :=
  ⟨AList.insert "a" "a" (AList.insert "b" "b" ∅),[AList.insert "b" "2" (AList.insert "a" "1" ∅)],by decide,by
    intro row listed key
    rw [List.mem_singleton.mp listed,AList.mem_insert,AList.mem_insert,AList.mem_insert,AList.mem_insert]
    exact or_left_comm⟩

theorem export_roundTrip_named : RoundTrip (fun _ => true) (some " ") named := by
  have blank : ∀ text ∈ some " ", Text.isBlank text = true := by
    rintro text ⟨⟩
    decide
  refine (export_roundTrip_iff named (fun _ => true) (some " ") blank).mpr ⟨?_,by decide,by decide,?_⟩
  · exact (Table.forall_pairs _ _).mpr (by decide)
  · have short : ∀ row ∈ named.list, ∀ pair ∈ row.pairs, Text.units pair.2 ≤ 32767 := by decide
    exact fun row listed => (Table.forall_pairs _ _).mpr (short row listed)

def valued : Records := ⟨(∅ : Table String String).insert "a" "1",[],by decide,nofun⟩

theorem export_roundTrip_fails : ¬ RoundTrip (fun _ => true) none valued := by
  have blank : ∀ text ∈ (none : Option String), Text.isBlank text = true := nofun
  rintro ⟨sheet,read,written,given,same⟩
  rw [exportMaps_eq valued blank] at written
  obtain ⟨_,rfl⟩ := (createRows (Nat.zero_le _)).mp written
  rw [List.nil_append,getExcelData_eq] at given
  cases given
  rw [Records.list,List.map_cons,List.forall₂_cons] at same
  exact absurd (header_of_same valued same.1 "a" "1" (by decide)) (by decide)

end YzFramework.Doc.ExcelUtil
