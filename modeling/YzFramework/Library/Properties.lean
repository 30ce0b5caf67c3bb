import YzFramework.Library.Table
import Mathlib.Algebra.BigOperators.Group.List.Basic
import Mathlib.Algebra.Order.BigOperators.Group.List
import Mathlib.Algebra.Order.Ring.Nat
import Mathlib.Data.List.Perm.Subperm
import Mathlib.Data.List.TakeWhile

/-! `java.util.Properties.load` on UTF-16 units: natural lines, logical lines, the two
parts of a line, escapes. -/
namespace YzFramework.Library.Properties

abbrev Text := List UInt16

def unit (c : Char) : UInt16 := UInt16.ofNat c.toNat

def units (text : String) : Text := text.toList.map unit

def backslash : UInt16 := unit '\\'

def white (u : UInt16) : Bool := u == unit ' ' || u == unit '\t' || u == 0x0C

def terminator (u : UInt16) : Bool := u == unit '\n' || u == unit '\r'

def separator (u : UInt16) : Bool := u == unit '=' || u == unit ':'

def commentMark (u : UInt16) : Bool := u == unit '#' || u == unit '!'

/-- Lines end at a line feed, a carriage return or both of them. -/
def naturalLines : Text → List Text
  | [] => [[]]
  | u::rest =>
    if u = unit '\r' ∧ rest.head? = some (unit '\n') then naturalLines rest
    else if terminator u then []::naturalLines rest
    else
      match naturalLines rest with
      | [] => [[u]]
      | line::lines => (u::line)::lines

/-- The line's end is escaped: an odd number of backslashes stands in front of it. -/
def continues (line : Text) : Bool :=
  line.foldl (fun odd u => u == backslash && !odd) false

def comment (line : Text) : Bool := line.head?.any commentMark

def emit (line : Text) : List Text := if line.isEmpty then [] else [line]

/-- Blank lines and comments are left out where no line has begun; a line that continues
loses its last backslash, the next one the blanks in front. -/
def logicalLines (begun : Option Text) : List Text → List Text
  | [] => emit (begun.getD [])
  | line::rest =>
    let start := line.dropWhile white
    if begun.isNone && (start.isEmpty || comment start) then logicalLines none rest
    else
      let whole := begun.getD []++start
      if continues start then logicalLines (some whole.dropLast) rest
      else emit whole++logicalLines none rest

/-- The key ends at the first separator or blank that is not escaped. -/
def splitKey (escaped : Bool) : Text → Text × Text
  | [] => ([],[])
  | u::rest =>
    if !escaped && (separator u || white u) then ([],u::rest)
    else
      let (key,others) := splitKey (u == backslash && !escaped) rest
      (u::key,others)

/-- What follows the key, without blanks and one separator. -/
def valuePart (text : Text) : Text :=
  match text.dropWhile white with
  | [] => []
  | u::rest => if separator u then rest.dropWhile white else u::rest

def hexDigit (u : UInt16) : Option UInt16 :=
  if unit '0' ≤ u ∧ u ≤ unit '9' then some (u-unit '0')
  else if unit 'a' ≤ u ∧ u ≤ unit 'f' then some (u-unit 'a'+10)
  else if unit 'A' ≤ u ∧ u ≤ unit 'F' then some (u-unit 'A'+10)
  else none

def hexadecimal (digits : Text) : Option UInt16 :=
  digits.foldlM (fun value digit => (hexDigit digit).map (16*value+·)) 0

def escape (u : UInt16) : UInt16 :=
  if u = unit 't' then unit '\t'
  else if u = unit 'n' then unit '\n'
  else if u = unit 'r' then unit '\r'
  else if u = unit 'f' then 0x0C
  else u

/-- None where the four digits are malformed. -/
def unescape : Text → Option Text
  | [] => some []
  | u::rest =>
    if u = backslash then
      match rest with
      | [] => some []
      | v::others =>
        if v = unit 'u' then
          match others with
          | a::b::c::d::more =>
            (hexadecimal [a,b,c,d]).bind fun code => (unescape more).map (code::·)
          | _ => none
        else (unescape others).map (escape v::·)
    else (unescape rest).map (u::·)

def entry (line : Text) : Option (Text × Text) :=
  let (key,rest) := splitKey false line
  (unescape key).bind fun key => (unescape (valuePart rest)).map fun value => (key,value)

def entries : List Text → Option (List (Text × Text))
  | [] => some []
  | line::rest => (entry line).bind fun first => (entries rest).map (first::·)

/-- None where `load` throws. -/
def load (text : Text) : Option (Table Text Text) :=
  (entries (logicalLines none (naturalLines text))).map (Table.putAll ∅)

section Weights

/-- What a unit of the text can give, and what a unit that was read is worth: reading an
escape always gains less than it costs. -/
def cost (u : UInt16) : ℕ := if u = backslash then 1 else if u = unit 'u' then 2 else 0

def gain (u : UInt16) : ℕ := if u = backslash then 2 else if u = unit 'u' then 2 else 0

def total (weight : UInt16 → ℕ) (text : Text) : ℕ := (text.map weight).sum

@[simp] theorem total_nil (weight : UInt16 → ℕ) : total weight [] = 0 := rfl

@[simp] theorem total_cons (weight : UInt16 → ℕ) (u : UInt16) (rest : Text) :
    total weight (u::rest) = weight u + total weight rest := by
  simp [total]

@[simp] theorem total_append (weight : UInt16 → ℕ) (first second : Text) :
    total weight (first++second) = total weight first + total weight second := by
  simp [total]

theorem total_sublist (weight : UInt16 → ℕ) {part whole : Text} (inside : part.Sublist whole) :
    total weight part ≤ total weight whole :=
  (inside.map weight).sum_le_sum fun _ _ => Nat.zero_le _

theorem gain_le (u : UInt16) : gain u ≤ 2 := by
  unfold gain
  split
  · exact Nat.le_refl 2
  · split <;> decide

theorem gain_eq (u : UInt16) : gain u = cost u + if u = backslash then 1 else 0 := by
  unfold gain cost
  split
  · rfl
  · split <;> rfl

theorem gain_escape (v : UInt16) : gain (escape v) ≤ 1 + cost v := by
  have blanks : gain (unit '\t') = 0 ∧ gain (unit '\n') = 0 ∧ gain (unit '\r') = 0 ∧ gain 0x0C = 0 := by
    decide
  unfold escape
  split
  · omega
  · split
    · omega
    · split
      · omega
      · split
        · omega
        · rw [gain_eq]
          split <;> omega

theorem unescape_gain {raw read : Text} (unescaped : unescape raw = some read) :
    total gain read ≤ total cost raw := by
  have marks : cost backslash = 1 ∧ cost (unit 'u') = 2 := by decide
  fun_induction unescape raw generalizing read with
  | case1 | case2 =>
    cases unescaped
    exact Nat.zero_le _
  | case3 a b c d more ih =>
    obtain ⟨code,_,mapped⟩ := Option.bind_eq_some_iff.mp unescaped
    obtain ⟨others,found,rfl⟩ := Option.map_eq_some_iff.mp mapped
    have later := ih found
    have bound := gain_le code
    simp only [total_cons]
    omega
  | case4 => cases unescaped
  | case5 v others _ ih =>
    obtain ⟨text,found,rfl⟩ := Option.map_eq_some_iff.mp unescaped
    have later := ih found
    have bound := gain_escape v
    simp only [total_cons]
    omega
  | case6 u rest plain ih =>
    obtain ⟨text,found,rfl⟩ := Option.map_eq_some_iff.mp unescaped
    have later := ih found
    have same := gain_eq u
    rw [if_neg plain] at same
    simp only [total_cons]
    omega

theorem naturalLines_sublist (text : Text) : (naturalLines text).flatten.Sublist text := by
  fun_induction naturalLines text with
  | case1 => exact List.Sublist.slnil
  | case2 u rest _ ih => exact ih.cons u
  | case3 u rest _ _ ih => exact ih.cons u
  | case4 u rest _ _ _ _ => exact (List.nil_sublist rest).cons_cons u
  | case5 u rest _ _ line lines found ih =>
    rw [found] at ih
    exact ih.cons_cons u

theorem logicalLines_sublist (begun : Option Text) (lines : List Text) :
    (logicalLines begun lines).flatten.Sublist (begun.getD []++lines.flatten) := by
  have whole : ∀ line : Text, (emit line).flatten = line := by
    intro line
    cases line <;> simp [emit]
  fun_induction logicalLines begun lines with
  | case1 begun => simp [whole]
  | case2 begun line rest start skipped ih =>
    exact ih.trans ((List.sublist_append_right _ _).trans (List.sublist_append_right _ _))
  | case3 begun line rest start _ joined _ ih =>
    apply ih.trans
    rw [List.flatten_cons,← List.append_assoc]
    refine List.Sublist.append ?_ (List.Sublist.refl _)
    exact (List.dropLast_sublist joined).trans
      (List.Sublist.append_left (List.dropWhile_sublist _) _)
  | case4 begun line rest start _ joined _ ih =>
    rw [List.flatten_append,whole,List.flatten_cons,← List.append_assoc]
    refine List.Sublist.append ?_ (by simpa using ih)
    exact List.Sublist.append_left (List.dropWhile_sublist _) _

theorem splitKey_append (escaped : Bool) (line : Text) :
    (splitKey escaped line).1++(splitKey escaped line).2 = line := by
  induction line generalizing escaped with
  | nil => rfl
  | cons u rest ih =>
    unfold splitKey
    split
    · rfl
    · exact congrArg (u::·) (ih _)

theorem valuePart_sublist (text : Text) : (valuePart text).Sublist text := by
  have part := List.dropWhile_sublist (l := text) white
  unfold valuePart
  split
  next => exact List.nil_sublist text
  next u rest found =>
    rw [found] at part
    split
    · exact ((List.dropWhile_sublist white).trans (List.sublist_cons_self u rest)).trans part
    · exact part

def worth (pairs : List (Text × Text)) : ℕ :=
  (pairs.map fun pair => total gain pair.1+total gain pair.2).sum

theorem entry_gain {line : Text} {pair : Text × Text} (read : entry line = some pair) :
    total gain pair.1+total gain pair.2 ≤ total cost line := by
  unfold entry at read
  obtain ⟨key,keyRead,mapped⟩ := Option.bind_eq_some_iff.mp read
  obtain ⟨value,valueRead,rfl⟩ := Option.map_eq_some_iff.mp mapped
  have parts := congrArg (total cost) (splitKey_append false line)
  rw [total_append] at parts
  have first := unescape_gain keyRead
  have second := unescape_gain valueRead
  have rest := total_sublist cost (valuePart_sublist (splitKey false line).2)
  dsimp only at *
  omega

theorem entries_worth {lines : List Text} {pairs : List (Text × Text)}
    (read : entries lines = some pairs) : worth pairs ≤ total cost lines.flatten := by
  induction lines generalizing pairs with
  | nil =>
    cases read
    exact Nat.le_refl _
  | cons line rest ih =>
    obtain ⟨pair,first,mapped⟩ := Option.bind_eq_some_iff.mp read
    obtain ⟨others,later,rfl⟩ := Option.map_eq_some_iff.mp mapped
    have here := entry_gain first
    have more := ih later
    simp only [worth,List.map_cons,List.sum_cons,List.flatten_cons,total_append] at *
    omega

theorem load_worth {text : Text} {pairs : List (Text × Text)}
    (read : entries (logicalLines none (naturalLines text)) = some pairs) :
    worth pairs ≤ total cost text :=
  calc worth pairs
    _ ≤ total cost (logicalLines none (naturalLines text)).flatten := entries_worth read
    _ ≤ total cost (naturalLines text).flatten := total_sublist cost (logicalLines_sublist none _)
    _ ≤ total cost text := total_sublist cost (naturalLines_sublist text)

end Weights

section Plain

structure PlainKey (key : Text) : Prop where
  all : ∀ u ∈ key, u ≠ backslash ∧ terminator u = false ∧ separator u = false ∧ white u = false
  first : ∀ u ∈ key.head?, commentMark u = false

structure PlainValue (value : Text) : Prop where
  all : ∀ u ∈ value, u ≠ backslash ∧ terminator u = false
  first : ∀ u ∈ value.head?, white u = false

def keyUnit (u : UInt16) : Bool := !(separator u || white u)

theorem continues_plain {line : Text} (plain : backslash ∉ line) : continues line = false := by
  unfold continues
  induction line with
  | nil => rfl
  | cons u rest ih =>
    rw [List.mem_cons,not_or] at plain
    have other : (u == backslash) = false := beq_eq_false_iff_ne.mpr fun same => plain.1 same.symm
    simpa [other] using ih plain.2

theorem unescape_plain {raw : Text} (plain : backslash ∉ raw) : unescape raw = some raw := by
  induction raw with
  | nil => rfl
  | cons u rest ih =>
    rw [List.mem_cons,not_or] at plain
    unfold unescape
    rw [if_neg fun same => plain.1 same.symm,ih plain.2]
    rfl

theorem splitKey_plain {line : Text} (plain : backslash ∉ line) :
    splitKey false line = (line.takeWhile keyUnit,line.dropWhile keyUnit) := by
  induction line with
  | nil => rfl
  | cons u rest ih =>
    rw [List.mem_cons,not_or] at plain
    have other : (u == backslash) = false := beq_eq_false_iff_ne.mpr fun same => plain.1 same.symm
    unfold splitKey
    by_cases ends : (separator u || white u) = true
    · simp [keyUnit,ends]
    · simp [keyUnit,ends,other,ih plain.2]

theorem naturalLines_plain (text : Text) :
    ∀ line ∈ naturalLines text, ∀ u ∈ line, terminator u = false := by
  fun_induction naturalLines text with
  | case1 => simp
  | case2 u rest _ ih => exact ih
  | case3 u rest _ _ ih => simpa using ih
  | case4 u rest _ plain _ _ => simpa using plain
  | case5 u rest _ plain line lines found ih =>
    rw [found] at ih
    simp only [List.forall_mem_cons] at ih ⊢
    exact ⟨⟨eq_false_of_ne_true plain,ih.1⟩,ih.2⟩

theorem logicalLines_plain {lines : List Text} (plain : ∀ line ∈ lines, backslash ∉ line) :
    ∀ line ∈ logicalLines none lines,
      (∃ natural ∈ lines, line.Sublist natural) ∧ comment line = false := by
  induction lines with
  | nil => simp [logicalLines,emit]
  | cons natural rest ih =>
    rw [List.forall_mem_cons] at plain
    have later : ∀ line ∈ logicalLines none rest,
        (∃ other ∈ natural::rest, line.Sublist other) ∧ comment line = false := by
      intro line member
      obtain ⟨⟨other,inside,part⟩,noted⟩ := ih plain.2 line member
      exact ⟨⟨other,List.mem_cons_of_mem _ inside,part⟩,noted⟩
    have part : (natural.dropWhile white).Sublist natural := List.dropWhile_sublist white
    have whole : continues (natural.dropWhile white) = false :=
      continues_plain fun inside => plain.1 (part.subset inside)
    intro line member
    simp only [logicalLines,Option.isNone_none,Bool.true_and,Option.getD_none,List.nil_append,whole] at member
    split at member
    · exact later line member
    next kept =>
      rcases List.mem_append.mp member with here | there
      · unfold emit at here
        split at here
        · cases here
        · rw [List.mem_singleton.mp here]
          refine ⟨⟨natural,List.mem_cons_self,part⟩,eq_false_of_ne_true fun noted => kept ?_⟩
          rw [noted,Bool.or_true]
      · exact later line there

theorem dropWhile_first (text : Text) : ∀ u ∈ (text.dropWhile white).head?, white u = false := by
  intro u member
  have stops := List.head?_dropWhile_not white text
  rw [member] at stops
  exact stops

theorem valuePart_first (text : Text) : ∀ u ∈ (valuePart text).head?, white u = false := by
  have after := dropWhile_first text
  unfold valuePart
  split
  next => simp
  next u rest found =>
    rw [found] at after
    split
    · exact dropWhile_first rest
    · exact after

theorem entry_plain {line : Text} (plain : backslash ∉ line)
    (unbroken : ∀ u ∈ line, terminator u = false) (noted : comment line = false) {pair : Text × Text}
    (read : entry line = some pair) : PlainKey pair.1 ∧ PlainValue pair.2 := by
  have head : (line.takeWhile keyUnit).Sublist line := List.takeWhile_sublist _
  have tail : (valuePart (line.dropWhile keyUnit)).Sublist line :=
    (valuePart_sublist _).trans (List.dropWhile_sublist _)
  unfold entry at read
  rw [splitKey_plain plain] at read
  dsimp only at read
  rw [unescape_plain fun inside => plain (head.subset inside),
    unescape_plain fun inside => plain (tail.subset inside)] at read
  cases read
  refine ⟨⟨fun u member => ?_,fun u member => ?_⟩,fun u member => ?_,fun u member => ?_⟩
  · have ends : keyUnit u = true := List.mem_takeWhile_imp member
    refine ⟨fun same => plain (head.subset (same ▸ member)),unbroken u (head.subset member),?_⟩
    simpa [keyUnit] using ends
  · rw [List.head?_takeWhile,Option.mem_def,Option.filter_eq_some_iff] at member
    rw [comment,member.1] at noted
    exact noted
  · exact ⟨fun same => plain (tail.subset (same ▸ member)),unbroken u (tail.subset member)⟩
  · exact valuePart_first _ u member

theorem load_plain {text : Text} (plain : backslash ∉ text) {pairs : List (Text × Text)}
    (read : entries (logicalLines none (naturalLines text)) = some pairs) :
    ∀ pair ∈ pairs, PlainKey pair.1 ∧ PlainValue pair.2 := by
  have natural : ∀ line ∈ naturalLines text, backslash ∉ line := fun line member inside =>
    plain ((naturalLines_sublist text).subset (List.mem_flatten_of_mem member inside))
  have each : ∀ line ∈ logicalLines none (naturalLines text), ∀ pair, entry line = some pair →
      PlainKey pair.1 ∧ PlainValue pair.2 := by
    intro line member pair found
    obtain ⟨⟨other,inside,part⟩,noted⟩ := logicalLines_plain natural line member
    exact entry_plain (fun held => natural other inside (part.subset held))
      (fun u held => naturalLines_plain text other inside u (part.subset held)) noted found
  generalize logicalLines none (naturalLines text) = lines at read each
  induction lines generalizing pairs with
  | nil =>
    cases read
    simp
  | cons line rest ih =>
    obtain ⟨pair,first,mapped⟩ := Option.bind_eq_some_iff.mp read
    obtain ⟨others,later,rfl⟩ := Option.map_eq_some_iff.mp mapped
    rw [List.forall_mem_cons] at each ⊢
    exact ⟨each.1 pair first,ih later each.2⟩

def line (pair : Text × Text) : Text := pair.1++unit '='::pair.2

theorem naturalLines_line {line : Text} (rest : Text) (unbroken : ∀ u ∈ line, terminator u = false) :
    naturalLines (line++unit '\n'::rest) = line::naturalLines rest := by
  induction line with
  | nil =>
    have feed : ¬ (unit '\n' = unit '\r' ∧ rest.head? = some (unit '\n')) := fun both =>
      absurd both.1 (by decide)
    rw [List.nil_append,naturalLines,if_neg feed,if_pos (by decide)]
  | cons u line ih =>
    rw [List.forall_mem_cons] at unbroken
    have other : u ≠ unit '\r' := by
      rintro rfl
      exact absurd unbroken.1 (by decide)
    rw [List.cons_append,naturalLines,if_neg fun both => other both.1,
      if_neg (Bool.eq_false_iff.mp unbroken.1),ih unbroken.2]

theorem entry_line {pair : Text × Text} (key : PlainKey pair.1) (value : PlainValue pair.2) :
    entry (line pair) = some pair := by
  have keyPlain : backslash ∉ pair.1 := fun inside => (key.all _ inside).1 rfl
  have valuePlain : backslash ∉ pair.2 := fun inside => (value.all _ inside).1 rfl
  have plain : backslash ∉ line pair := by
    simp only [line,List.mem_append,List.mem_cons,not_or]
    exact ⟨keyPlain,by decide,valuePlain⟩
  have keyUnits : ∀ u ∈ pair.1, keyUnit u = true := by
    intro u member
    obtain ⟨_,_,separates,blank⟩ := key.all u member
    simp [keyUnit,separates,blank]
  have stops : keyUnit (unit '=') = false := by decide
  have rest : valuePart (unit '='::pair.2) = pair.2 := by
    have kept : pair.2.dropWhile white = pair.2 := by
      cases found : pair.2 with
      | nil => rfl
      | cons u others =>
        have first := value.first u (by rw [found]; rfl)
        rw [List.dropWhile_cons_of_neg (by simp [first])]
    unfold valuePart
    rw [List.dropWhile_cons_of_neg (by decide)]
    dsimp only
    rw [if_pos (by decide),kept]
  have head : (line pair).takeWhile keyUnit = pair.1 := by
    rw [line,List.takeWhile_append_of_pos keyUnits,List.takeWhile_cons_of_neg (by simp [stops]),
      List.append_nil]
  have tail : (line pair).dropWhile keyUnit = unit '='::pair.2 := by
    rw [line,List.dropWhile_append_of_pos keyUnits,List.dropWhile_cons_of_neg (by simp [stops])]
  unfold entry
  rw [splitKey_plain plain,head,tail]
  dsimp only
  rw [unescape_plain keyPlain,rest,unescape_plain valuePlain]
  rfl

theorem load_lines {pairs : List (Text × Text)}
    (plain : ∀ pair ∈ pairs, PlainKey pair.1 ∧ PlainValue pair.2) :
    entries (logicalLines none (naturalLines (pairs.flatMap fun pair => line pair++[unit '\n']))) =
      some pairs := by
  induction pairs with
  | nil => rfl
  | cons pair rest ih =>
    rw [List.forall_mem_cons] at plain
    obtain ⟨⟨key,value⟩,others⟩ := plain
    have unbroken : ∀ u ∈ line pair, terminator u = false := by
      simp only [line,List.forall_mem_append,List.forall_mem_cons]
      exact ⟨fun u member => (key.all u member).2.1,by decide,fun u member => (value.all u member).2⟩
    have head : ∀ u ∈ (line pair).head?, white u = false ∧ commentMark u = false := by
      intro u member
      cases found : pair.1 with
      | nil =>
        rw [line,found] at member
        cases member
        decide
      | cons first units =>
        rw [line,found] at member
        cases member
        exact ⟨(key.all u (by rw [found]; exact List.mem_cons_self)).2.2.2,
          key.first u (by rw [found]; rfl)⟩
    rw [List.flatMap_cons,List.append_assoc,List.singleton_append,naturalLines_line _ unbroken]
    have written : ∃ initial units, line pair = initial::units :=
      List.exists_cons_of_ne_nil (by simp [line])
    obtain ⟨initial,units,found⟩ := written
    obtain ⟨blank,mark⟩ := head initial (by rw [found]; rfl)
    have start : (line pair).dropWhile white = line pair := by
      rw [found,List.dropWhile_cons_of_neg (by simp [blank])]
    have noted : comment (line pair) = false := by
      rw [comment,found]
      exact mark
    have whole : continues (line pair) = false := by
      apply continues_plain
      simp only [line,List.mem_append,List.mem_cons,not_or]
      exact ⟨fun inside => (key.all _ inside).1 rfl,by decide,fun inside => (value.all _ inside).1 rfl⟩
    have kept : (line pair).isEmpty = false := by rw [found]; rfl
    simp only [logicalLines,start,noted,whole,kept,emit,Option.isNone_none,Option.getD_none,
      List.nil_append,Bool.or_self,Bool.and_false,Bool.false_eq_true,if_false,List.singleton_append]
    rw [entries,entry_line key value,Option.bind_some,ih others]
    rfl

theorem worth_lines (pairs : List (Text × Text)) :
    total gain (pairs.flatMap fun pair => line pair++[unit '\n']) = worth pairs := by
  have free : gain (unit '=') = 0 ∧ gain (unit '\n') = 0 := by decide
  induction pairs with
  | nil => rfl
  | cons pair rest ih =>
    have first : total gain (line pair++[unit '\n']) = total gain pair.1+total gain pair.2 := by
      simp only [line,total_append,total_cons,total_nil]
      omega
    rw [List.flatMap_cons,total_append,ih,first,worth,worth,List.map_cons,List.sum_cons]

theorem total_gain (text : Text) : total gain text = total cost text+text.count backslash := by
  induction text with
  | nil => rfl
  | cons u rest ih =>
    rw [total_cons,total_cons,ih,gain_eq,List.count_cons]
    simp only [beq_iff_eq]
    omega

theorem worth_le {pairs read : List (Text × Text)} (distinct : pairs.Nodup) (inside : pairs ⊆ read) :
    worth pairs ≤ worth read := by
  obtain ⟨part,same,within⟩ := List.subperm_of_subset distinct inside
  calc worth pairs
    _ = worth part := (same.map _).sum_eq.symm
    _ ≤ worth read := (within.map _).sum_le_sum fun _ _ => Nat.zero_le _

/-- Pairs that are all read again from their lines are plain: with a backslash in the
text, what is read is worth less than what was written. -/
theorem plain_of_read {pairs read : List (Text × Text)} (distinct : pairs.Nodup) (inside : pairs ⊆ read)
    (found : entries (logicalLines none (naturalLines (pairs.flatMap fun pair => line pair++[unit '\n']))) =
      some read) : ∀ pair ∈ pairs, PlainKey pair.1 ∧ PlainValue pair.2 := by
  have written := worth_lines pairs
  rw [total_gain] at written
  have bound := load_worth found
  have more := worth_le distinct inside
  have unescaped : backslash ∉ pairs.flatMap fun pair => line pair++[unit '\n'] :=
    List.count_eq_zero.mp (by omega)
  exact fun pair member => load_plain unescaped found pair (inside member)

end Plain

end YzFramework.Library.Properties
