import Mathlib.Algebra.BigOperators.Group.Finset.Basic
import Mathlib.Algebra.Order.BigOperators.Group.Finset
import Mathlib.Data.List.Duplicate
import Mathlib.Data.Nat.Cast.Basic
import Mathlib.Data.Nat.Digits.Defs
import YzFramework.Library.Search

/-! The rows that `WordUtil` adds to a table, one for each map. Texts are lists of
characters, and the entries of a map are in the order of its iteration. -/
namespace YzFramework.Doc.WordUtil
open Library Search

abbrev Cell := List (List Char)

abbrev Row := List Cell

abbrev Table := List Row

abbrev Map := List (List Char × Option (List Char))

/-- The names of the parameters that were found in a column. -/
abbrev InsertTextIndex := ℕ → Option (List (List Char))

def getText (cell : Cell) : List Char := cell.flatten

def paramName (key : List Char) : List Char := '<' :: (key ++ ['>'])

def blanks : List Char := List.replicate 6 ' '

/-- One entry of the first map, on the text and the names that were found. -/
def replaceEntry (state : List Char × List (List Char)) (entry : List Char × Option (List Char)) :
    List Char × List (List Char) :=
  if paramName entry.1 <:+: state.1 then
    (replace (paramName entry.1) (entry.2.getD blanks) state.1,state.2 ++ [entry.1])
  else state

/-- One entry of a later map; the text of null is appended as Java writes it. -/
def appendEntry (listParamNames : List (List Char)) (text : List Char)
    (entry : List Char × Option (List Char)) : List Char :=
  listParamNames.foldl (fun text name => if name = entry.1 then text ++ entry.2.getD "null".toList else text) text

def addListValue (insertTextIndex : InsertTextIndex) (i : ℕ) (map : Map) (j : ℕ) (text : List Char) :
    Except String (List Char × InsertTextIndex) :=
  if i = 0 then
    let filled := map.foldl replaceEntry (text,[])
    .ok (filled.1,Function.update insertTextIndex j (some filled.2))
  else if map = [] then .ok (text,insertTextIndex)
  else
    match insertTextIndex j with
    | none => .error "NullPointerException"
    | some listParamNames => .ok (map.foldl (appendEntry listParamNames) text,insertTextIndex)

def removeParagraph : Cell → Except String Cell
  | [] => .error "IndexOutOfBoundsException"
  | _::paragraphs => .ok paragraphs

/-- The body of the loop over the cells of a row. -/
def fillCell (noSN : Bool) (i : ℕ) (map : Map) (j : ℕ) (cell : Cell) (insertTextIndex : InsertTextIndex) :
    Except String (Cell × InsertTextIndex) := do
  let (text,insertTextIndex) ←
    if noSN && j = 0 then
      pure (if 0 < i then Nat.toDigits 10 (i+1) else getText cell,insertTextIndex)
    else addListValue insertTextIndex i map j (getText cell)
  if noSN && i = 0 && j = 0 then pure (cell,insertTextIndex)
  else
    let cell ← if i = 0 then removeParagraph cell else pure cell
    pure (cell ++ [text],insertTextIndex)

def fillRow (noSN : Bool) (i : ℕ) (map : Map) : ℕ → Row → InsertTextIndex → Except String (Row × InsertTextIndex)
  | _,[],insertTextIndex => .ok ([],insertTextIndex)
  | j,cell::cells,insertTextIndex => do
    let (cell,insertTextIndex) ← fillCell noSN i map j cell insertTextIndex
    let (cells,insertTextIndex) ← fillRow noSN i map (j+1) cells insertTextIndex
    pure (cell::cells,insertTextIndex)

/-- As many cells as the first row has, each with an empty paragraph. -/
def createRow (table : Table) : Row := List.replicate (table.head?.getD []).length [[]]

def fillRows (noSN : Bool) : ℕ → List Map → Table → InsertTextIndex → Except String Table
  | _,[],table,_ => .ok table
  | 0,map::maps,table,insertTextIndex =>
    match table[1]? with
    | none => .error "NullPointerException"
    | some row => do
      let (row,insertTextIndex) ← fillRow noSN 0 map 0 row insertTextIndex
      fillRows noSN 1 maps (table.set 1 row) insertTextIndex
  | i+1,map::maps,table,insertTextIndex => do
    let (row,insertTextIndex) ← fillRow noSN (i+1) map 0 (createRow table) insertTextIndex
    fillRows noSN (i+2) maps (table ++ [row]) insertTextIndex

def addListValueInTable (hasCellContant : List Map) (table : Table) (noSN : Bool) : Except String Table :=
  fillRows noSN 0 hasCellContant table fun _ => none

inductive Piece
  | literal (text : List Char)
  | placeholder (key : List Char)
deriving DecidableEq

def Piece.filled (map : Map) : Piece → List Char
  | literal text => text
  | placeholder key =>
    match map.lookup key with
    | none => paramName key
    | some value => value.getD blanks

def filled (map : Map) (pieces : List Piece) : List Char := pieces.flatMap (Piece.filled map)

/-- A text as seen by the search for one placeholder. -/
def parts (map : Map) (key : List Char) (pieces : List Piece) : List (Option (List Char)) :=
  pieces.map fun piece => if piece = .placeholder key then none else some (piece.filled map)

/-- The cell of the template in one column. -/
structure Column where
  pieces : List Piece
  first : List Char
  more : List (List Char)
  reads : getText (first::more) = filled [] pieces

def Column.cell (column : Column) : Cell := column.first::column.more

/-- A header, a template row and maps over one set of keys. -/
structure Filling where
  header : Row
  columns : List Column
  first : Map
  rest : List Map
  nodup : ∀ map ∈ first::rest, (map.map Prod.fst).Nodup
  common : ∀ map ∈ rest, ∀ key, key ∈ map.map Prod.fst ↔ key ∈ first.map Prod.fst
  known : ∀ column ∈ columns, ∀ key, .placeholder key ∈ column.pieces → key ∈ first.map Prod.fst
  /-- No placeholder arises from a value and what stands beside it. -/
  only : ∀ column ∈ columns, ∀ done key value later, first = done ++ (key,value)::later →
    Only (paramName key) (parts done key column.pieces)

def found (map : Map) (pieces : List Piece) : List (List Char) :=
  (map.map Prod.fst).filter (.placeholder · ∈ pieces)

section First

variable {done : Map} {key : List Char} {value : Option (List Char)} {pieces : List Piece}

private theorem mem_parts (map : Map) : none ∈ parts map key pieces ↔ .placeholder key ∈ pieces := by
  rw [parts,List.mem_map]
  constructor
  · rintro ⟨piece,inside,same⟩
    by_cases here : piece = .placeholder key
    · exact here ▸ inside
    · rw [if_neg here] at same
      cases same
  · intro inside
    exact ⟨_,inside,if_pos rfl⟩

private theorem lookup_none (fresh : key ∉ done.map Prod.fst) : done.lookup key = none := by
  rw [List.lookup_eq_none_iff]
  intro entry inside
  apply bne_iff_ne.mpr
  rintro rfl
  exact fresh (List.mem_map_of_mem inside)

theorem paramName_some (key : List Char) : paramName key ≠ [] := List.cons_ne_nil _ _

theorem joined_paramName (fresh : key ∉ done.map Prod.fst) :
    joined (paramName key) (parts done key pieces) = filled done pieces := by
  rw [joined,parts,List.flatMap_map,filled]
  apply List.flatMap_congr
  intro piece _
  by_cases here : piece = .placeholder key
  · rw [if_pos here,here,Piece.filled,lookup_none fresh]
    rfl
  · rw [if_neg here]
    rfl

theorem joined_value (fresh : key ∉ done.map Prod.fst) :
    joined (value.getD blanks) (parts done key pieces) = filled (done ++ [(key,value)]) pieces := by
  rw [joined,parts,List.flatMap_map,filled]
  apply List.flatMap_congr
  intro piece _
  by_cases here : piece = .placeholder key
  · rw [if_pos here,here,Piece.filled,List.lookup_append,lookup_none fresh]
    simp
  · rw [if_neg here]
    cases piece with
    | literal text => rfl
    | placeholder other =>
      have apart : other ≠ key := fun same => here (congrArg _ same)
      have single : List.lookup other [(key,value)] = none := by
        rw [List.lookup_cons,beq_false_of_ne apart]
        rfl
      rw [Option.getD_some,Piece.filled,Piece.filled,List.lookup_append,single,Option.or_none]

theorem replaceEntry_filled (fresh : key ∉ done.map Prod.fst) (only : Only (paramName key) (parts done key pieces)) :
    replaceEntry (filled done pieces,found done pieces) (key,value) =
      (filled (done ++ [(key,value)]) pieces,found (done ++ [(key,value)]) pieces) := by
  have text : replace (paramName key) (value.getD blanks) (filled done pieces) = filled (done ++ [(key,value)]) pieces := by
    rw [← joined_paramName fresh,replace_joined (paramName_some key) _ _ only,joined_value fresh]
  have occurs := infix_joined only
  rw [joined_paramName fresh,mem_parts] at occurs
  have names : found (done ++ [(key,value)]) pieces = found done pieces ++ if .placeholder key ∈ pieces then [key] else [] := by
    rw [found,List.map_append,List.filter_append,found]
    by_cases inside : .placeholder key ∈ pieces <;> simp [inside]
  rw [replaceEntry,names]
  by_cases inside : .placeholder key ∈ pieces
  · rw [if_pos (occurs.mpr inside),if_pos inside,text]
  · rw [if_neg (inside ∘ occurs.mp),if_neg inside,List.append_nil,← text,replace_none (inside ∘ occurs.mp)]

private theorem foldl_replaceEntry {first : Map} (nodup : (first.map Prod.fst).Nodup)
    (only : ∀ done key value later, first = done ++ (key,value)::later → Only (paramName key) (parts done key pieces))
    (done later : Map) (whole : first = done ++ later) :
    later.foldl replaceEntry (filled done pieces,found done pieces) = (filled first pieces,found first pieces) := by
  induction later generalizing done with
  | nil => rw [whole,List.append_nil,List.foldl_nil]
  | cons entry later ih =>
    obtain ⟨key,value⟩ := entry
    have fresh : key ∉ done.map Prod.fst := by
      rw [whole,List.map_append,List.nodup_append] at nodup
      intro inside
      exact nodup.2.2 key inside key (List.mem_cons_self) rfl
    rw [List.foldl_cons,replaceEntry_filled fresh (only done key value later whole)]
    apply ih
    rw [whole,List.append_assoc]
    rfl

end First

/-- What a later map puts for a text: its values in its own order. -/
def appended (map : Map) (names : List (List Char)) : List Char :=
  (map.filter (·.1 ∈ names)).flatMap fun entry => entry.2.getD "null".toList

theorem appendEntry_eq {names : List (List Char)} (nodup : names.Nodup) (text : List Char)
    (entry : List Char × Option (List Char)) :
    appendEntry names text entry = text ++ if entry.1 ∈ names then entry.2.getD "null".toList else [] := by
  induction names generalizing text with
  | nil => simp [appendEntry]
  | cons name names ih =>
    rw [List.nodup_cons] at nodup
    have later : ∀ text, appendEntry names text entry = _ := ih nodup.2
    change appendEntry names (if name = entry.1 then text ++ entry.2.getD "null".toList else text) entry = _
    rw [later]
    by_cases here : name = entry.1
    · rw [here] at nodup ⊢
      simp [nodup.1]
    · simp [here,Ne.symm here]

private theorem foldl_appendEntry {names : List (List Char)} (nodup : names.Nodup) (map : Map)
    (text : List Char) :
    map.foldl (appendEntry names) text = text ++ appended map names := by
  induction map generalizing text with
  | nil => simp [appended]
  | cons entry map ih =>
    rw [List.foldl_cons,ih,appendEntry_eq nodup,List.append_assoc,appended,appended]
    by_cases here : entry.1 ∈ names <;> simp [here]

section Rows

variable {first map : Map} {insertTextIndex : InsertTextIndex} {j : ℕ}

theorem fillCell_first (nodup : (first.map Prod.fst).Nodup) (column : Column)
    (only : ∀ done key value later, first = done ++ (key,value)::later →
      Only (paramName key) (parts done key column.pieces)) :
    fillCell false 0 first j column.cell insertTextIndex =
      .ok (column.more ++ [filled first column.pieces],
        Function.update insertTextIndex j (some (found first column.pieces))) := by
  have text : first.foldl replaceEntry (getText column.cell,[]) =
      (filled first column.pieces,found first column.pieces) := by
    rw [Column.cell,column.reads]
    exact foldl_replaceEntry nodup only [] first rfl
  have listed : addListValue insertTextIndex 0 first j (getText column.cell) =
      .ok (filled first column.pieces,Function.update insertTextIndex j (some (found first column.pieces))) := by
    rw [addListValue,if_pos rfl,text]
  rw [fillCell,Bool.false_and,if_neg Bool.false_ne_true,listed]
  rfl

theorem fillCell_created (i : ℕ) : fillCell false (i+1) map j [[]] insertTextIndex =
    (addListValue insertTextIndex (i+1) map j []).map fun filled => ([[],filled.1],filled.2) := by
  rw [fillCell,Bool.false_and,if_neg Bool.false_ne_true,show getText [[]] = [] from rfl]
  cases addListValue insertTextIndex (i+1) map j [] with
  | error fault => rfl
  | ok filled => rfl

theorem fillCell_later (i : ℕ) {names : List (List Char)} (nodup : names.Nodup)
    (held : map = [] ∨ insertTextIndex j = some names) :
    fillCell false (i+1) map j [[]] insertTextIndex = .ok ([[],appended map names],insertTextIndex) := by
  have listed : addListValue insertTextIndex (i+1) map j [] = .ok (appended map names,insertTextIndex) := by
    rw [addListValue,if_neg (Nat.succ_ne_zero i)]
    by_cases void : map = []
    · rw [if_pos void,void]
      rfl
    · rw [if_neg void,held.resolve_left void]
      exact congrArg (fun text => Except.ok (text,insertTextIndex)) (foldl_appendEntry nodup map [])
  rw [fillCell_created,listed]
  rfl

theorem fillCell_missing (i : ℕ) (some : map ≠ []) (missing : insertTextIndex j = none) :
    fillCell false (i+1) map j [[]] insertTextIndex = .error "NullPointerException" := by
  have listed : addListValue insertTextIndex (i+1) map j [] = .error "NullPointerException" := by
    rw [addListValue,if_neg (Nat.succ_ne_zero i),if_neg some,missing]
  rw [fillCell_created,listed]
  rfl

theorem fillRow_cons {noSN : Bool} {i : ℕ} {cell after : Cell} {index : InsertTextIndex} (cells : Row)
    (done : fillCell noSN i map j cell insertTextIndex = .ok (after,index)) :
    fillRow noSN i map j (cell::cells) insertTextIndex =
      (fillRow noSN i map (j+1) cells index).map fun later => (after::later.1,later.2) := by
  rw [fillRow,done]
  cases rest : fillRow noSN i map (j+1) cells index with
  | error fault => simp [bind,Except.bind,rest,Except.map]
  | ok later => simp [bind,Except.bind,rest,Except.map,pure,Except.pure]

theorem fillRow_first (nodup : (first.map Prod.fst).Nodup) (columns : List Column)
    (only : ∀ column ∈ columns, ∀ done key value later, first = done ++ (key,value)::later →
      Only (paramName key) (parts done key column.pieces)) (j : ℕ) (insertTextIndex : InsertTextIndex) :
    ∃ index, fillRow false 0 first j (columns.map Column.cell) insertTextIndex =
        .ok (columns.map fun column => column.more ++ [filled first column.pieces],index) ∧
      (∀ k < j, index k = insertTextIndex k) ∧
      ∀ k, index (j+k) = (columns[k]?.map fun column => found first column.pieces).or (insertTextIndex (j+k)) := by
  induction columns generalizing j insertTextIndex with
  | nil => exact ⟨insertTextIndex,rfl,fun _ _ => rfl,fun _ => rfl⟩
  | cons column columns ih =>
    rw [List.forall_mem_cons] at only
    obtain ⟨index,ran,earlier,later⟩ := ih only.2 (j+1)
      (Function.update insertTextIndex j (some (found first column.pieces)))
    refine ⟨index,?_,?_,?_⟩
    · rw [List.map_cons,fillRow_cons _ (fillCell_first nodup column only.1),ran]
      rfl
    · intro k before
      rw [earlier k (Nat.lt_succ_of_lt before),Function.update_of_ne (Nat.ne_of_lt before)]
    · intro k
      cases k with
      | zero =>
        rw [Nat.add_zero,earlier j (Nat.lt_succ_self j),Function.update_self]
        rfl
      | succ k =>
        have shift : j+(k+1) = j+1+k := by omega
        rw [shift,later k,Function.update_of_ne (by omega),List.getElem?_cons_succ]

theorem fillRow_later (i n : ℕ) {names : ℕ → List (List Char)} (nodup : ∀ k, (names k).Nodup)
    (held : ∀ k < n, map = [] ∨ insertTextIndex (j+k) = some (names k)) :
    fillRow false (i+1) map j (List.replicate n [[]]) insertTextIndex =
      .ok ((List.range n).map fun k => [[],appended map (names k)],insertTextIndex) := by
  induction n generalizing j names with
  | zero => rfl
  | succ n ih =>
    have later : fillRow false (i+1) map (j+1) (List.replicate n [[]]) insertTextIndex = _ :=
      ih (fun k => nodup (k+1)) fun k bound => by
        rw [show j+1+k = j+(k+1) by omega]
        exact held (k+1) (Nat.succ_lt_succ bound)
    have here : map = [] ∨ insertTextIndex j = some (names 0) := held 0 (Nat.succ_pos n)
    rw [List.replicate_succ,fillRow_cons _ (fillCell_later i (nodup 0) here),later,List.range_succ_eq_map,
      List.map_cons,List.map_map]
    rfl

theorem fillRow_missing (i : ℕ) {n k : ℕ} (some : map ≠ []) (bound : k < n) (missing : insertTextIndex (j+k) = none)
    (nodup : ∀ k names, insertTextIndex k = Option.some names → names.Nodup) :
    ∃ fault, fillRow false (i+1) map j (List.replicate n [[]]) insertTextIndex = .error fault := by
  induction n generalizing j k with
  | zero => exact absurd bound (Nat.not_lt_zero k)
  | succ n ih =>
    rw [List.replicate_succ]
    cases here : insertTextIndex j with
    | none =>
      rw [fillRow,fillCell_missing i some here]
      exact ⟨_,rfl⟩
    | some names =>
      cases k with
      | zero => cases here.symm.trans missing
      | succ k =>
        rw [show j+(k+1) = j+1+k by omega] at missing
        obtain ⟨fault,failed⟩ := ih (Nat.lt_of_succ_lt_succ bound) missing
        rw [fillRow_cons _ (fillCell_later i (nodup j names here) (.inr here)),failed]
        exact ⟨_,rfl⟩

theorem fillRows_later (i : ℕ) {header : Row} {table : Table} (head : table.head? = some header)
    {names : ℕ → List (List Char)} (nodup : ∀ k, (names k).Nodup) (maps : List Map)
    (held : ∀ map ∈ maps, ∀ k < header.length, map = [] ∨ insertTextIndex k = some (names k)) :
    fillRows false (i+1) maps table insertTextIndex =
      .ok (table ++ maps.map fun map => (List.range header.length).map fun k => [[],appended map (names k)]) := by
  induction maps generalizing i table with
  | nil => rw [fillRows,List.map_nil,List.append_nil]
  | cons map maps ih =>
    rw [List.forall_mem_cons] at held
    have here : ∀ k < header.length, map = [] ∨ insertTextIndex (0+k) = some (names k) := by
      intro k bound
      rw [Nat.zero_add]
      exact held.1 k bound
    have row := fillRow_later i header.length nodup here
    have stays : ∀ row, (table ++ [row]).head? = some header := fun row => by
      rw [List.head?_append,head]
      rfl
    rw [fillRows,createRow,head,Option.getD_some,row]
    apply (ih (i+1) (stays _) held.2).trans
    rw [List.append_assoc,List.map_cons]
    rfl

end Rows

/-- The value of a key, `none` if it is null. -/
def value (map : Map) (key : List Char) : Option (List Char) := (map.lookup key).join

def placeholders (pieces : List Piece) : List (List Char) :=
  pieces.filterMap fun
    | .literal _ => none
    | .placeholder key => some key

def letters (pieces : List Piece) : ℕ :=
  (pieces.map fun
    | .literal text => text.length
    | .placeholder _ => 0).sum

/-- A text that is the values of its placeholders, in the order of the map. -/
structure Plain (map : Map) (pieces : List Piece) : Prop where
  literals : ∀ text, .literal text ∈ pieces → text = []
  present : ∀ key, .placeholder key ∈ pieces → value map key ≠ none
  once : ∀ key, (placeholders pieces).Duplicate key → value map key = some []
  order : ((found map pieces).flatMap fun key => (value map key).getD []) =
    (placeholders pieces).flatMap fun key => (value map key).getD []

section Plain

variable {map : Map} {pieces : List Piece}

theorem mem_placeholders {key : List Char} : key ∈ placeholders pieces ↔ .placeholder key ∈ pieces := by
  rw [placeholders,List.mem_filterMap]
  constructor
  · rintro ⟨piece,inside,same⟩
    cases piece with
    | literal text => cases same
    | placeholder other =>
      cases same
      exact inside
  · intro inside
    exact ⟨_,inside,rfl⟩

private theorem lookup_of_mem (nodup : (map.map Prod.fst).Nodup) {entry : List Char × Option (List Char)}
    (inside : entry ∈ map) : map.lookup entry.1 = some entry.2 := by
  induction map with
  | nil => cases inside
  | cons first map ih =>
    rw [List.map_cons,List.nodup_cons] at nodup
    rcases List.mem_cons.mp inside with rfl | later
    · exact List.lookup_cons_self
    · have apart : entry.1 ≠ first.1 := fun same => nodup.1 (same ▸ List.mem_map_of_mem later)
      rw [List.lookup_cons,beq_false_of_ne apart]
      exact ih nodup.2 later

private theorem lookup_known (nodup : (map.map Prod.fst).Nodup) {key : List Char}
    (inside : key ∈ map.map Prod.fst) :
    map.lookup key = some (value map key) := by
  obtain ⟨entry,member,rfl⟩ := List.mem_map.mp inside
  rw [value,lookup_of_mem nodup member]
  rfl

theorem filled_cons (piece : Piece) (rest : List Piece) :
    filled map (piece::rest) = piece.filled map ++ filled map rest := List.flatMap_cons

theorem filled_placeholder (nodup : (map.map Prod.fst).Nodup) {key : List Char} (inside : key ∈ map.map Prod.fst) :
    (Piece.placeholder key).filled map = (value map key).getD blanks := by
  rw [Piece.filled,lookup_known nodup inside]

theorem filled_length (nodup : (map.map Prod.fst).Nodup) (pieces : List Piece)
    (known : ∀ key, .placeholder key ∈ pieces → key ∈ map.map Prod.fst) : (filled map pieces).length =
      letters pieces+((placeholders pieces).map fun key => ((value map key).getD blanks).length).sum := by
  induction pieces with
  | nil => rfl
  | cons piece rest ih =>
    have later := ih fun key inside => known key (List.mem_cons_of_mem _ inside)
    rw [filled_cons,List.length_append,later]
    cases piece with
    | literal text =>
      change text.length+_ = text.length+letters rest+_
      rw [Nat.add_assoc]
      rfl
    | placeholder key =>
      have names : placeholders (.placeholder key::rest) = key::placeholders rest := rfl
      have count : letters (.placeholder key::rest) = letters rest := Nat.zero_add _
      rw [filled_placeholder nodup (known key List.mem_cons_self),names,count,List.map_cons,List.sum_cons]
      omega

theorem appended_eq (nodup : (map.map Prod.fst).Nodup) {names : List (List Char)}
    (same : ∀ key ∈ map.map Prod.fst, key ∈ names ↔ .placeholder key ∈ pieces) :
    appended map names = (found map pieces).flatMap fun key => (value map key).getD "null".toList := by
  rw [appended,found,List.filter_map,List.flatMap_map]
  have filters : map.filter (·.1 ∈ names) = map.filter ((decide <| .placeholder · ∈ pieces) ∘ Prod.fst) := by
    apply List.filter_congr
    intro entry inside
    exact decide_eq_decide.mpr (same _ (List.mem_map_of_mem inside))
  rw [filters]
  apply List.flatMap_congr
  intro entry inside
  rw [value,lookup_of_mem nodup (List.mem_of_mem_filter inside)]
  rfl

/-- Sums over a list with repetitions and over its elements once can only agree termwise. -/
theorem sum_once {Key : Type} [DecidableEq Key] {list keys : List Key} (nodup : keys.Nodup)
    (same : ∀ key, key ∈ keys ↔ key ∈ list) {size other : Key → ℕ} (less : ∀ key, other key ≤ size key) {more : ℕ}
    (equal : (keys.map other).sum = more+(list.map size).sum) :
    more = 0 ∧ ∀ key ∈ list, other key = list.count key*size key := by
  have sets : keys.toFinset = list.toFinset := by
    ext key
    rw [List.mem_toFinset,List.mem_toFinset,same]
  have termwise : ∀ key ∈ list.toFinset, other key ≤ list.count key*size key := by
    intro key inside
    have one : 1 ≤ list.count key := List.count_pos_iff.mpr (List.mem_toFinset.mp inside)
    exact (less key).trans (Nat.le_mul_of_pos_left _ one)
  rw [← List.sum_toFinset other nodup,sets,Finset.sum_list_map_count] at equal
  simp only [nsmul_eq_mul,Nat.cast_id] at equal
  have total : ∑ key ∈ list.toFinset, other key = more+∑ key ∈ list.toFinset, list.count key*size key := equal
  have bound := Finset.sum_le_sum termwise
  have terms := (Finset.sum_eq_sum_iff_of_le termwise).mp (by omega)
  exact ⟨by omega,fun key inside => terms key (List.mem_toFinset.mpr inside)⟩

private theorem mem_found (known : ∀ key, .placeholder key ∈ pieces → key ∈ map.map Prod.fst)
    (key : List Char) :
    key ∈ found map pieces ↔ key ∈ placeholders pieces := by
  rw [found,List.mem_filter,decide_eq_true_eq,mem_placeholders]
  exact and_iff_right_of_imp (known key)

theorem literal_of_letters (none : letters pieces = 0) (text : List Char) (inside : .literal text ∈ pieces) : text = [] := by
  rw [letters,List.sum_eq_zero_iff_forall_eq_nat] at none
  exact List.length_eq_zero_iff.mp (none _ (List.mem_map_of_mem inside))

theorem filled_values (nodup : (map.map Prod.fst).Nodup) (pieces : List Piece)
    (known : ∀ key, .placeholder key ∈ pieces → key ∈ map.map Prod.fst)
    (literals : ∀ text, .literal text ∈ pieces → text = [])
    (present : ∀ key, .placeholder key ∈ pieces → value map key ≠ none) :
    filled map pieces = (placeholders pieces).flatMap fun key => (value map key).getD [] := by
  induction pieces with
  | nil => rfl
  | cons piece rest ih =>
    have later := ih (fun key inside => known key (List.mem_cons_of_mem _ inside))
      (fun text inside => literals text (List.mem_cons_of_mem _ inside))
      (fun key inside => present key (List.mem_cons_of_mem _ inside))
    rw [filled_cons,later]
    cases piece with
    | literal text =>
      rw [literals text List.mem_cons_self]
      rfl
    | placeholder key =>
      have names : placeholders (.placeholder key::rest) = key::placeholders rest := rfl
      obtain ⟨text,held⟩ := Option.ne_none_iff_exists'.mp (present key List.mem_cons_self)
      rw [filled_placeholder nodup (known key List.mem_cons_self),names,List.flatMap_cons,held]
      rfl

/-- A later row is right only in a column that is plain for its map. -/
theorem plain_iff (nodup : (map.map Prod.fst).Nodup) (known : ∀ key, .placeholder key ∈ pieces → key ∈ map.map Prod.fst)
    {names : List (List Char)} (same : ∀ key ∈ map.map Prod.fst, key ∈ names ↔ .placeholder key ∈ pieces) :
    appended map names = filled map pieces ↔ Plain map pieces := by
  have values (present : ∀ key, .placeholder key ∈ pieces → value map key ≠ none) :
      appended map names = (found map pieces).flatMap fun key => (value map key).getD [] := by
    rw [appended_eq nodup same]
    apply List.flatMap_congr
    intro key inside
    obtain ⟨text,held⟩ := Option.ne_none_iff_exists'.mp
      (present key (mem_placeholders.mp ((mem_found known key).mp inside)))
    rw [held]
    rfl
  constructor
  · intro equal
    have sizes := congrArg List.length equal
    rw [appended_eq nodup same,filled_length nodup pieces known,List.length_flatMap] at sizes
    have less : ∀ key, ((value map key).getD "null".toList).length ≤ ((value map key).getD blanks).length := by
      intro key
      cases value map key with
      | none => decide
      | some text => exact Nat.le_refl _
    obtain ⟨noLetters,each⟩ := sum_once (nodup.filter _) (mem_found known) less sizes
    have literals := literal_of_letters noLetters
    have present : ∀ key, .placeholder key ∈ pieces → value map key ≠ none := by
      intro key inside null
      have terms := each key (mem_placeholders.mpr inside)
      rw [null] at terms
      change 4 = _*6 at terms
      omega
    refine ⟨literals,present,?_,?_⟩
    · intro key twice
      have terms := each key twice.mem
      have several := List.duplicate_iff_two_le_count.mp twice
      obtain ⟨text,held⟩ := Option.ne_none_iff_exists'.mp (present key (mem_placeholders.mp twice.mem))
      rw [held,Option.getD_some,Option.getD_some] at terms
      rcases Nat.eq_zero_or_pos text.length with void | letters
      · rw [held,List.length_eq_zero_iff.mp void]
      · have bound := Nat.mul_le_mul_right text.length several
        omega
    · rw [← values present,equal,filled_values nodup pieces known literals present]
  · intro plain
    rw [values plain.present,plain.order,filled_values nodup pieces known plain.literals plain.present]

end Plain

namespace Filling

variable (filling : Filling)

def maps : List Map := filling.first::filling.rest

def table : Table := [filling.header,filling.columns.map Column.cell]

/-- Every row has the text of the template with its own values. -/
def Right : Prop := ∃ table, addListValueInTable filling.maps filling.table false = .ok table ∧
  ∀ (i : ℕ) map, filling.maps[i]? = some map → ∃ row : Row, table[i+1]? = some row ∧
    ∀ (j : ℕ) (column : Column), filling.columns[j]? = some column → ∃ cell : Cell, row[j]? = some cell ∧
      getText cell = filled map column.pieces

/-- The created rows reach as far as the template, and no further unless there are no keys. -/
def Fits : Prop := filling.columns.length ≤ filling.header.length ∧
  (filling.first = [] ∨ filling.header.length = filling.columns.length)

/-- The names that the first map leaves for the later ones. -/
def names (k : ℕ) : List (List Char) :=
  (filling.columns[k]?.map fun column => found filling.first column.pieces).getD []

def firstRow : Row := filling.columns.map fun column => column.more ++ [filled filling.first column.pieces]

def laterRow (map : Map) : Row := (List.range filling.header.length).map fun k => [[],appended map (filling.names k)]

variable {filling}

theorem nodup_first : (filling.first.map Prod.fst).Nodup := filling.nodup _ List.mem_cons_self

theorem names_nodup (k : ℕ) : (filling.names k).Nodup := by
  rw [names]
  cases filling.columns[k]? with
  | none => exact List.nodup_nil
  | some column => exact nodup_first.filter _

theorem run_first (filling : Filling) : ∃ insertTextIndex : InsertTextIndex,
    addListValueInTable filling.maps filling.table false =
      fillRows false 1 filling.rest [filling.header,filling.firstRow] insertTextIndex ∧
    ∀ k, insertTextIndex k = filling.columns[k]?.map fun column => found filling.first column.pieces := by
  obtain ⟨index,ran,_,kept⟩ := fillRow_first nodup_first filling.columns filling.only 0 fun _ => none
  refine ⟨index,?_,fun k => ?_⟩
  · rw [addListValueInTable,maps,fillRows,table,List.getElem?_cons_succ,List.getElem?_cons_zero]
    change (fillRow false 0 filling.first 0 (filling.columns.map Column.cell) _ >>= _) = _
    rw [ran]
    rfl
  · rw [← Nat.zero_add k,kept k,Nat.zero_add,Option.or_none]

private theorem rest_empty {map : Map} (inside : map ∈ filling.rest) : map = [] ↔ filling.first = [] := by
  have same := filling.common map inside
  constructor
  · rintro rfl
    apply List.map_eq_nil_iff.mp
    exact List.eq_nil_iff_forall_not_mem.mpr fun key held => List.not_mem_nil ((same key).mpr held)
  · intro void
    apply List.map_eq_nil_iff.mp
    apply List.eq_nil_iff_forall_not_mem.mpr
    intro key held
    rw [same key,void] at held
    exact List.not_mem_nil held

theorem run_ok (fits : filling.rest = [] ∨ filling.first = [] ∨ filling.header.length ≤ filling.columns.length) :
    addListValueInTable filling.maps filling.table false =
      .ok ([filling.header,filling.firstRow] ++ filling.rest.map filling.laterRow) := by
  obtain ⟨index,ran,kept⟩ := run_first filling
  refine ran.trans (fillRows_later 0 rfl names_nodup filling.rest ?_)
  intro map inside k bound
  rcases fits with none | void | reach
  · rw [none] at inside
    cases inside
  · exact .inl ((rest_empty inside).mpr void)
  · have held := List.getElem?_eq_getElem (Nat.lt_of_lt_of_le bound reach)
    rw [kept,names,held]
    exact .inr rfl

theorem run_error (more : filling.rest ≠ []) (some : filling.first ≠ [])
    (wide : filling.columns.length < filling.header.length) :
    ∃ fault, addListValueInTable filling.maps filling.table false = .error fault := by
  obtain ⟨index,ran,kept⟩ := run_first filling
  obtain ⟨map,rest,split⟩ := List.exists_cons_of_ne_nil more
  have inside : map ∈ filling.rest := by
    rw [split]
    exact List.mem_cons_self
  have missing : index (0+filling.columns.length) = none := by
    rw [Nat.zero_add,kept,List.getElem?_eq_none (Nat.le_refl _)]
    rfl
  have distinct : ∀ k names, index k = Option.some names → names.Nodup := by
    intro k names held
    rw [kept k] at held
    obtain ⟨column,_,rfl⟩ := Option.map_eq_some_iff.mp held
    exact nodup_first.filter _
  obtain ⟨fault,failed⟩ := fillRow_missing 0 (fun void => some ((rest_empty inside).mp void)) wide missing distinct
  rw [ran,split,fillRows]
  change ∃ other, (fillRow false 1 map 0 (List.replicate filling.header.length [[]]) index >>= _) = _
  rw [failed]
  exact ⟨fault,rfl⟩

theorem laterRow_iff {map : Map} (inside : map ∈ filling.rest) :
    (∀ (j : ℕ) (column : Column), filling.columns[j]? = some column → ∃ cell : Cell, (filling.laterRow map)[j]? = some cell ∧
      getText cell = filled map column.pieces) ↔
    filling.columns.length ≤ filling.header.length ∧ ∀ column ∈ filling.columns, Plain map column.pieces := by
  have nodup : (map.map Prod.fst).Nodup := filling.nodup map (List.mem_cons_of_mem _ inside)
  have keys := filling.common map inside
  have known : ∀ column ∈ filling.columns, ∀ key, .placeholder key ∈ column.pieces → key ∈ map.map Prod.fst :=
    fun column member key present => (keys key).mpr (filling.known column member key present)
  have text : ∀ (j : ℕ) (column : Column), filling.columns[j]? = some column →
      (appended map (filling.names j) = filled map column.pieces ↔ Plain map column.pieces) := by
    intro j column here
    apply plain_iff nodup (known column (List.mem_of_getElem? here))
    intro key member
    rw [names,here,Option.map_some,Option.getD_some,found,List.mem_filter,decide_eq_true_eq]
    exact and_iff_right ((keys key).mp member)
  constructor
  · intro right
    constructor
    · by_contra short
      rw [Nat.not_le] at short
      obtain ⟨cell,held,_⟩ := right _ _ (List.getElem?_eq_getElem short)
      rw [laterRow,List.getElem?_eq_none (by simp)] at held
      cases held
    · intro column member
      obtain ⟨j,here⟩ := List.getElem?_of_mem member
      obtain ⟨cell,held,same⟩ := right j column here
      rw [laterRow,List.getElem?_map] at held
      obtain ⟨k,which,rfl⟩ := Option.map_eq_some_iff.mp held
      obtain ⟨_,place⟩ := List.getElem?_eq_some_iff.mp which
      rw [List.getElem_range] at place
      subst place
      exact (text _ column here).mp (by simpa [getText] using same)
  · rintro ⟨reach,plain⟩ j column here
    have bound : j < filling.header.length :=
      Nat.lt_of_lt_of_le (List.getElem?_eq_some_iff.mp here).1 reach
    refine ⟨[[],appended map (filling.names j)],?_,?_⟩
    · rw [laterRow,List.getElem?_map,List.getElem?_range bound]
      rfl
    · rw [← (text j column here).mpr (plain column (List.mem_of_getElem? here))]
      simp [getText]

theorem firstRow_iff : (∀ (j : ℕ) (column : Column), filling.columns[j]? = some column →
      ∃ cell : Cell, filling.firstRow[j]? = some cell ∧ getText cell = filled filling.first column.pieces) ↔
    ∀ column ∈ filling.columns, column.more.flatten = [] := by
  have text : ∀ column : Column, getText (column.more ++ [filled filling.first column.pieces]) =
      filled filling.first column.pieces ↔ column.more.flatten = [] := by
    intro column
    rw [getText,List.flatten_append,List.flatten_singleton,List.append_left_eq_self]
  constructor
  · intro right column member
    obtain ⟨j,here⟩ := List.getElem?_of_mem member
    obtain ⟨cell,held,same⟩ := right j column here
    rw [firstRow,List.getElem?_map,here] at held
    cases held
    exact (text column).mp same
  · intro alone j column here
    refine ⟨_,?_,(text column).mpr (alone column (List.mem_of_getElem? here))⟩
    rw [firstRow,List.getElem?_map,here]
    rfl

private theorem right_iff_rows
    (fits : filling.rest = [] ∨ filling.first = [] ∨ filling.header.length ≤ filling.columns.length) :
    filling.Right ↔ (∀ column ∈ filling.columns, column.more.flatten = []) ∧
      ∀ map ∈ filling.rest, filling.columns.length ≤ filling.header.length ∧
        ∀ column ∈ filling.columns, Plain map column.pieces := by
  have ran := run_ok fits
  constructor
  · rintro ⟨table,done,right⟩
    cases ran.symm.trans done
    constructor
    · obtain ⟨row,held,texts⟩ := right 0 filling.first rfl
      cases held
      exact firstRow_iff.mp texts
    · intro map inside
      obtain ⟨i,here⟩ := List.getElem?_of_mem inside
      obtain ⟨row,held,texts⟩ := right (i+1) map here
      have later : (filling.rest.map filling.laterRow)[i]? = some row := held
      rw [List.getElem?_map,here] at later
      cases later
      exact (laterRow_iff inside).mp texts
  · rintro ⟨alone,rows⟩
    refine ⟨_,ran,?_⟩
    rintro (_ | i) map here
    · cases here
      exact ⟨_,rfl,firstRow_iff.mpr alone⟩
    · have inside : map ∈ filling.rest := List.mem_of_getElem? here
      have later : filling.rest[i]? = some map := here
      refine ⟨filling.laterRow map,?_,(laterRow_iff inside).mpr (rows map inside)⟩
      change (filling.rest.map filling.laterRow)[i]? = _
      rw [List.getElem?_map,later]
      rfl

/-- The text of a template cell stands in its first paragraph, and there is one map only
or the created rows fit and every column is plain. -/
theorem addListValueInTable_right_iff : filling.Right ↔
    (∀ column ∈ filling.columns, column.more.flatten = []) ∧
      (filling.rest = [] ∨ filling.Fits ∧ ∀ map ∈ filling.rest, ∀ column ∈ filling.columns, Plain map column.pieces) := by
  by_cases fits : filling.rest = [] ∨ filling.first = [] ∨ filling.header.length ≤ filling.columns.length
  · rw [right_iff_rows fits]
    apply and_congr_right
    intro _
    by_cases none : filling.rest = []
    · rw [none]
      exact ⟨fun _ => .inl rfl,fun _ => nofun⟩
    · rw [or_iff_right none]
      constructor
      · intro rows
        obtain ⟨map,inside⟩ := List.exists_mem_of_ne_nil _ none
        have reach := (rows map inside).1
        refine ⟨⟨reach,?_⟩,fun map inside => (rows map inside).2⟩
        exact (fits.resolve_left none).imp_right fun short => Nat.le_antisymm short reach
      · rintro ⟨reach,plain⟩ map inside
        exact ⟨reach.1,plain map inside⟩
  · rw [not_or,not_or,Nat.not_le] at fits
    obtain ⟨more,some,wide⟩ := fits
    obtain ⟨fault,failed⟩ := run_error more some wide
    constructor
    · rintro ⟨table,done,_⟩
      cases failed.symm.trans done
    · rintro ⟨_,none | ⟨⟨_,void | same⟩,_⟩⟩
      · exact absurd none more
      · exact absurd void some
      · omega

end Filling

/-- Where no key has a bracket, and no literal and no value an opening one, no placeholder
arises from what stands side by side. -/
theorem only_plain {done : Map} {key : List Char} {pieces : List Piece} (own : '<' ∉ key ∧ '>' ∉ key)
    (keys : ∀ key, .placeholder key ∈ pieces → '<' ∉ key ∧ '>' ∉ key)
    (literals : ∀ text, .literal text ∈ pieces → '<' ∉ text)
    (values : ∀ entry ∈ done, '<' ∉ entry.2.getD blanks) : Only (paramName key) (parts done key pieces) := by
  apply only_bracketed (by decide) own.1 own.2
  intro text inside
  obtain ⟨piece,member,same⟩ := List.mem_map.mp inside
  by_cases here : piece = .placeholder key
  · rw [if_pos here] at same
    cases same
  · rw [if_neg here] at same
    cases same
    cases piece with
    | literal text => exact .inl (literals text member)
    | placeholder other =>
      rw [Piece.filled]
      cases held : done.lookup other with
      | none => exact .inr ⟨other,rfl,fun same => here (congrArg _ same),keys other member⟩
      | some value =>
        obtain ⟨before,after,split,_⟩ := List.lookup_eq_some_iff.mp held
        apply Or.inl
        apply values (other,value)
        rw [split]
        exact List.mem_append_right _ List.mem_cons_self

def letteredColumn : Column where
  pieces := [.literal ['x'],.placeholder ['a']]
  first := "x<a>".toList
  more := []
  reads := by decide +kernel

def lettered : Filling where
  header := [["A".toList]]
  columns := [letteredColumn]
  first := [(['a'],some ['1'])]
  rest := [[(['a'],some ['2'])]]
  nodup := by
    intro map inside
    rcases List.mem_pair.mp inside with rfl | rfl <;> exact List.nodup_singleton _
  common := by
    intro map inside key
    rw [List.mem_singleton.mp inside]
    rfl
  known := by
    intro column inside key member
    rw [List.mem_singleton.mp inside,letteredColumn,List.mem_pair] at member
    cases member.resolve_left nofun
    exact List.mem_cons_self
  only := by
    intro column inside done key value later whole
    rw [List.mem_singleton.mp inside]
    have place : (key,value) ∈ [(['a'],some ['1'])] := by
      rw [whole]
      exact List.mem_append_right _ List.mem_cons_self
    cases List.mem_singleton.mp place
    apply only_plain (by decide)
    · intro key member
      cases (List.mem_pair.mp member).resolve_left nofun
      decide
    · intro text member
      cases (List.mem_pair.mp member).resolve_right nofun
      decide
    · intro entry member
      have among : entry ∈ [(['a'],some ['1'])] := by
        rw [whole]
        exact List.mem_append_left _ member
      rw [List.mem_singleton.mp among]
      decide

theorem addListValueInTable_fails : ¬ lettered.Right := by
  intro right
  have rows := (Filling.right_iff_rows (.inr (.inr (by decide)))).mp right
  have plain := (rows.2 _ List.mem_cons_self).2 _ List.mem_cons_self
  cases plain.literals ['x'] List.mem_cons_self

end YzFramework.Doc.WordUtil
