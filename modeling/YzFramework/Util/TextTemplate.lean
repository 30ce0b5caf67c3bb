import YzFramework.Library.Decimal
import YzFramework.Library.Template
import YzFramework.Library.Text

/-! Texts with holes: `CommonUtil.format`, whose holes are numbered, and
`StringUtil.parseTempFile`, whose holes have names. `none` is an exception. -/
namespace YzFramework.Util.TextTemplate
open Library Library.Search Library.Template
open Nat (toDigits ofDigitChars)

def braces : Bracket Char := ⟨'{',[],'}',by decide,by decide⟩

/-- `"{" + i + "}"` is replaced for one `i` after the other. -/
def format (resource : Option (List Char)) (target : Option (List (Option (List Char)))) : Option (List Char) :=
  resource.bind fun resource => match target with
    | none => some resource
    | some target => target.zipIdx.foldlM (fun resource value =>
      value.1.map fun text => replace (braces.hole (toDigits 10 value.2)) text resource) resource

/-- The argument whose number is written this way. -/
def argument (target : List (List Char)) (name : List Char) : Option (List Char) :=
  if toDigits 10 (ofDigitChars 10 name 0) = name then target[ofDigitChars 10 name 0]? else none

theorem digits_plain (i : ℕ) : braces.Plain (toDigits 10 i) := by
  constructor
  · exact fun inside => absurd (Decimal.isDigit_digits inside) (by decide)
  · exact fun inside => absurd (Decimal.isDigit_digits inside) (by decide)

private theorem foldlM_present (target : List (List Char)) (start : ℕ) (resource : List Char) :
    ((target.map some).zipIdx start).foldlM (fun resource (value : Option (List Char) × ℕ) =>
      value.1.map fun text => replace (braces.hole (toDigits 10 value.2)) text resource) resource =
    some (((target.zipIdx start).map fun value => (toDigits 10 value.2,value.1)).foldl
      (fun text value => replace (braces.hole value.1) value.2 text) resource) := by
  induction target generalizing start resource with
  | nil => rfl
  | cons text target ih => exact ih (start+1) (replace (braces.hole (toDigits 10 start)) text resource)

private theorem lookup_digits (target : List (List Char)) (start : ℕ) (name : List Char) :
    ((target.zipIdx start).map fun value => (toDigits 10 value.2,value.1)).lookup name =
      if toDigits 10 (ofDigitChars 10 name 0) = name ∧ start ≤ ofDigitChars 10 name 0 then
        target[ofDigitChars 10 name 0-start]? else none := by
  induction target generalizing start with
  | nil => simp
  | cons text target ih =>
    rw [List.zipIdx_cons,List.map_cons,List.lookup_cons,ih]
    by_cases here : name = toDigits 10 start
    · have number : ofDigitChars 10 name 0 = start := here ▸ Nat.ofDigitChars_ten_toDigits
      rw [beq_iff_eq.mpr here,number]
      dsimp only
      rw [if_pos ⟨here.symm,le_refl _⟩,Nat.sub_self,List.getElem?_cons_zero]
    · rw [beq_eq_false_iff_ne.mpr here]
      dsimp only
      by_cases numeral : toDigits 10 (ofDigitChars 10 name 0) = name
      · have other : ofDigitChars 10 name 0 ≠ start := fun same => here (same ▸ numeral.symm)
        by_cases above : start ≤ ofDigitChars 10 name 0
        · obtain ⟨k,shift⟩ : ∃ k, ofDigitChars 10 name 0-start = k+1 :=
            ⟨ofDigitChars 10 name 0-start-1,by omega⟩
          have next : ofDigitChars 10 name 0-(start+1) = k := by omega
          rw [if_pos ⟨numeral,by omega⟩,if_pos ⟨numeral,above⟩,shift,next,List.getElem?_cons_succ]
        · rw [if_neg fun both => above (by omega),if_neg fun both => above both.2]
      · rw [if_neg fun both => numeral both.1,if_neg fun both => numeral both.1]

/-- The holes whose numbers have an argument get it, all at once, when neither the text
around the holes nor an argument opens a brace. -/
theorem format_render (parts : List (Piece Char)) (target : List (List Char))
    (plain : ∀ part ∈ parts, part.Plain braces) (texts : ∀ text ∈ target, '{' ∉ text) :
    format (some (braces.render (fun _ => none) parts)) (some (target.map some)) =
      some (braces.render (argument target) parts) := by
  change ((target.map some).zipIdx 0).foldlM _ _ = _
  rw [foldlM_present,foldl_replace]
  · congr 2
    funext name
    rw [lookup_digits,argument]
    simp
  · intro value inside
    obtain ⟨source,_,rfl⟩ := List.mem_map.mp inside
    exact digits_plain source.2
  · rintro _ _ ⟨⟩
  · intro value inside
    obtain ⟨source,member,rfl⟩ := List.mem_map.mp inside
    exact texts source.1 (List.fst_mem_of_mem_zipIdx member)
  · exact plain

theorem format_render_two : format (some "a\x7b1\x7d \x7b0\x7d\x7bx\x7d".toList)
    (some [some "b\x7d".toList,some "c".toList]) = some "ac b\x7d\x7bx\x7d".toList :=
  format_render [.literal ['a'],.hole ['1'],.literal [' '],.hole ['0'],.hole ['x']] [['b','}'],['c']]
    (by decide) (by decide)

def dollar : Bracket Char := ⟨'$',['{'],'}',by decide,by decide⟩

def metacharacters : List Char := "\\[]()\x7b\x7d.*+?^$|".toList

def Regular (text : List Char) : Prop := ∀ c ∈ text, c ∉ metacharacters

instance (text : List Char) : Decidable (Regular text) := List.decidableBAll _ _

/-- A key goes into the regular expression as it is: here one that stands for itself. -/
structure Key where
  text : List Char
  literal : Regular text

/-- The replacement of `replaceAll`: a backslash takes the next character as it is, and `$0`
is the whole match, with any zeros behind it; the pattern has no other group. -/
def expand (whole : List Char) (zeros : Bool) : List Char → Option (List Char)
  | [] => some []
  | '\\'::rest => match rest with
    | [] => none
    | c::rest => (expand whole false rest).map (c::·)
  | '$'::rest => match rest with
    | '0'::rest => (expand whole true rest).map (whole ++ ·)
    | _ => none
  | c::rest => if zeros && c == '0' then expand whole true rest else (expand whole false rest).map (c::·)

/-- The replacement is looked at only if there is something to replace. -/
def replaceAll (key : Key) (value str : List Char) : Option (List Char) :=
  match indexOf (dollar.hole key.text) str with
  | none => some str
  | some _ => (expand (dollar.hole key.text) false value).map fun value => replace (dollar.hole key.text) value str

/-- A key after the other, in the order of the map; a null value throws. What was reached
is left in the error. -/
def replaceKeys : List (Key × Option (List Char)) → List Char → Except (List Char) (List Char)
  | [], str => .ok str
  | (key,value)::rest, str => match value.bind fun value => replaceAll key value str with
    | none => .error str
    | some str => replaceKeys rest str

/-- The characters that the dot of a regular expression does not match. -/
def lineTerminator (c : Char) : Bool :=
  c == '\n' || c == '\r' || c == '\u0085' || c == '\u2028' || c == '\u2029'

/-- The length of a match of `\$\{.*\}` at the beginning of the text. -/
def undefinedLength : List Char → Option ℕ
  | '$':: '{'::rest =>
    let line := rest.takeWhile fun c => !lineTerminator c
    if '}' ∈ line then some (line.length+2-(Text.afterLast '}' line).length) else none
  | _ => none

/-- The number says how much of a match is still ahead. -/
def eraseFrom : ℕ → List Char → List Char
  | _, [] => []
  | ahead+1, _::rest => eraseFrom ahead rest
  | 0, c::rest => match undefinedLength (c::rest) with
    | some length => eraseFrom (length-1) rest
    | none => c::eraseFrom 0 rest

/-- `BufferedReader.readLine` until the end: the flag says that a carriage return was read. -/
def readLines (returned : Bool) (line : List Char) : List Char → List (List Char)
  | [] => if line = [] then [] else [line.reverse]
  | '\r'::rest => line.reverse::readLines true [] rest
  | '\n'::rest => if returned then readLines false [] rest else line.reverse::readLines false [] rest
  | c::rest => readLines false (c::line) rest

def LINE : List Char := ['\r','\n']

/-- An exception is caught, and the text that was reached is returned; it is null when the
file cannot be read. -/
def parseTempFile (var : List (Key × Option (List Char))) (tempFile : Option (List Char)) : Option (List Char) :=
  tempFile.map fun file => match replaceKeys var ((readLines false [] file).flatMap fun s => s ++ LINE) with
    | .error str => str
    | .ok str => eraseFrom 0 str

theorem Key.plain (key : Key) : dollar.Plain key.text := by
  constructor
  · exact fun inside => key.literal _ inside (by decide)
  · exact fun inside => key.literal _ inside (by decide)

/-- A value that stands for itself in a replacement. -/
def Literal (value : List Char) : Prop := '$' ∉ value ∧ '\\' ∉ value

theorem expand_literal {value : List Char} (literal : Literal value) (whole : List Char) :
    expand whole false value = some value := by
  induction value with
  | nil => rfl
  | cons c rest ih =>
    obtain ⟨dollar,escapes⟩ := literal
    rw [List.mem_cons,not_or] at dollar escapes
    rw [expand,ih ⟨dollar.2,escapes.2⟩]
    · rfl
    · exact fun same => escapes.1 same.symm
    · exact fun same => dollar.1 same.symm

theorem replaceAll_literal {value : List Char} (literal : Literal value) (key : Key) (str : List Char) :
    replaceAll key value str = some (replace (dollar.hole key.text) value str) := by
  unfold replaceAll
  split
  next absent => rw [replace_none (indexOf_none.mp absent)]
  next => rw [expand_literal literal,Option.map_some]

theorem replaceKeys_literal {values : List (Key × List Char)} (literal : ∀ value ∈ values, Literal value.2)
    (str : List Char) : replaceKeys (values.map fun value => (value.1,some value.2)) str =
      .ok ((values.map fun value => (value.1.text,value.2)).foldl
        (fun text value => replace (dollar.hole value.1) value.2 text) str) := by
  induction values generalizing str with
  | nil => rfl
  | cons value values ih =>
    obtain ⟨here,later⟩ := List.forall_mem_cons.mp literal
    rw [List.map_cons,replaceKeys,Option.bind_some,replaceAll_literal here]
    exact ih later _

instance (value : List Char) : Decidable (Literal value) := inferInstanceAs (Decidable (_ ∧ _))

def OneLine (text : List Char) : Prop := ∀ c ∈ text, lineTerminator c = false

instance (text : List Char) : Decidable (OneLine text) := List.decidableBAll _ _

/-- A part of a line of the template. -/
def Clean : Piece Char → Prop
  | .literal text => '$' ∉ text ∧ OneLine text
  | .hole name => dollar.Plain name ∧ OneLine name

instance : ∀ part, Decidable (Clean part)
  | .literal text => inferInstanceAs (Decidable ('$' ∉ text ∧ OneLine text))
  | .hole name => inferInstanceAs (Decidable (dollar.Plain name ∧ OneLine name))

def defined (fill : List Char → Option (List Char)) : Piece Char → Bool
  | .literal _ => true
  | .hole name => (fill name).isSome

/-- What is left of a line: from its first undefined hole on, only what stands behind the
last brace that closes. -/
def survives (fill : List Char → Option (List Char)) (line : List (Piece Char)) : List Char :=
  dollar.render fill (line.takeWhile (defined fill)) ++
    match line.dropWhile (defined fill) with
    | [] => []
    | part::after => Text.afterLast '}' (dollar.render fill (part::after))

theorem eraseFrom_ahead (before after : List Char) : eraseFrom before.length (before ++ after) = eraseFrom 0 after := by
  induction before with
  | nil => rfl
  | cons c before ih => exact ih

theorem erase_plain {before : List Char} (plain : '$' ∉ before) (after : List Char) :
    eraseFrom 0 (before ++ after) = before ++ eraseFrom 0 after := by
  induction before with
  | nil => rfl
  | cons c before ih =>
    rw [List.mem_cons,not_or] at plain
    have none : undefinedLength (c::(before ++ after)) = none := by
      unfold undefinedLength
      split
      next same => exact absurd (List.cons.inj same).1.symm plain.1
      next => rfl
    rw [List.cons_append,eraseFrom,none,ih plain.2]
    rfl

/-- The match is the longest within the line. -/
theorem erase_undefined {front tail after : List Char} (line : OneLine (front ++ '}'::tail)) (last : '}' ∉ tail)
    (plain : '$' ∉ tail) : eraseFrom 0 ('$':: '{'::(front ++ '}'::(tail ++ (LINE ++ after)))) =
      tail ++ eraseFrom 0 (LINE ++ after) := by
  have taken : (front ++ '}'::(tail ++ (LINE ++ after))).takeWhile (fun c => !lineTerminator c) =
      front ++ '}'::tail := by
    have shape : front ++ '}'::(tail ++ (LINE ++ after)) = (front ++ '}'::tail) ++ (LINE ++ after) := by simp
    rw [shape,List.takeWhile_append_of_pos]
    · exact List.append_nil _
    · intro c inside
      rw [line c inside]
      rfl
  have length : undefinedLength ('$':: '{'::(front ++ '}'::(tail ++ (LINE ++ after)))) = some (front.length+3) := by
    rw [undefinedLength,taken,if_pos (List.mem_append_right _ List.mem_cons_self),Text.afterLast_append front last,
      List.length_append,List.length_cons]
    congr 1
    omega
  have shape : '{'::(front ++ '}'::(tail ++ (LINE ++ after))) =
      ('{'::(front ++ ['}'])) ++ (tail ++ (LINE ++ after)) := by simp
  have size : front.length+3-1 = ('{'::(front ++ ['}'])).length := by simp
  rw [eraseFrom,length]
  dsimp only
  rw [size,shape,eraseFrom_ahead,erase_plain plain]

section Filled

variable {fill : List Char → Option (List Char)} {line : List (Piece Char)}

/-- What the map gives for a name, and what of it goes into the text. -/
def Fills (fill : List Char → Option (List Char)) : Prop :=
  ∀ name text, fill name = some text → '$' ∉ text ∧ OneLine text

theorem render_defined (fills : Fills fill) (clean : ∀ part ∈ line, Clean part)
    (all : ∀ part ∈ line, defined fill part = true) : '$' ∉ dollar.render fill line := by
  intro inside
  obtain ⟨part,member,here⟩ := List.mem_flatMap.mp inside
  cases part with
  | literal text => exact (clean _ member).1 here
  | hole name =>
    obtain ⟨text,given⟩ := Option.isSome_iff_exists.mp (all _ member)
    rw [Bracket.part,given] at here
    exact (fills name text given).1 here

theorem hole_oneLine {name : List Char} (clean : OneLine name) : OneLine (dollar.hole name) := by
  intro c inside
  rw [Bracket.hole,List.mem_cons,List.mem_append,List.mem_append,List.mem_singleton] at inside
  rcases inside with rfl | brace | inside | rfl
  · rfl
  · rw [List.mem_singleton.mp brace]
    rfl
  · exact clean c inside
  · rfl

theorem render_oneLine (fills : Fills fill) (clean : ∀ part ∈ line, Clean part) :
    OneLine (dollar.render fill line) := by
  intro c inside
  obtain ⟨part,member,here⟩ := List.mem_flatMap.mp inside
  cases part with
  | literal text => exact (clean _ member).2 c here
  | hole name =>
    cases given : fill name with
    | some text =>
      rw [Bracket.part,given] at here
      exact (fills name text given).2 c here
    | none =>
      rw [Bracket.part,given] at here
      exact hole_oneLine (clean _ member).2 c here

/-- A hole that is left is closed. -/
theorem dollar_closed (fills : Fills fill) (clean : ∀ part ∈ line, Clean part) {left right : List Char}
    (split : dollar.render fill line = left ++ '$'::right) : '}' ∈ right := by
  induction line generalizing left with
  | nil => simp [Bracket.render] at split
  | cons part line ih =>
    obtain ⟨here,later⟩ := List.forall_mem_cons.mp clean
    have plain : '$' ∉ (dollar.part fill part).tail := by
      cases part with
      | literal text => exact fun inside => here.1 (List.mem_of_mem_tail inside)
      | hole name =>
        cases given : fill name with
        | some text =>
          rw [Bracket.part,given]
          exact fun inside => (fills name text given).1 (List.mem_of_mem_tail inside)
        | none =>
          rw [Bracket.part,given]
          exact hole_tail here.1
    change dollar.part fill part ++ dollar.render fill line = left ++ '$'::right at split
    rcases List.append_eq_append_iff.mp split with ⟨more,rfl,rest⟩ | ⟨more,text,rest⟩
    · exact ih later rest
    · cases more with
      | nil =>
        apply @ih later []
        simpa using rest.symm
      | cons c more =>
        cases rest
        cases left with
        | cons first left =>
          rw [text,List.cons_append,List.tail_cons] at plain
          exact absurd (List.mem_append_right _ List.mem_cons_self) plain
        | nil =>
          apply List.mem_append_left
          rw [List.nil_append] at text
          cases part with
          | literal =>
            rw [Bracket.part] at text
            exact absurd (text ▸ List.mem_cons_self) here.1
          | hole name =>
            cases given : fill name with
            | some value =>
              rw [Bracket.part,given,Option.getD_some] at text
              exact absurd (text ▸ List.mem_cons_self) (fills name value given).1
            | none =>
              rw [Bracket.part,given] at text
              rw [← (List.cons.inj text).2]
              simp [dollar]

private theorem last_plain (fills : Fills fill) (clean : ∀ part ∈ line, Clean part) {front tail : List Char}
    (split : dollar.render fill line = front ++ '}'::tail) (last : '}' ∉ tail) : '$' ∉ tail := by
  intro inside
  obtain ⟨left,right,rfl⟩ := List.append_of_mem inside
  have closed : '}' ∈ right := by
    apply @dollar_closed _ _ fills clean (front ++ '}'::left)
    rw [split]
    simp
  exact last (List.mem_append_right _ (List.mem_cons_of_mem _ closed))

private theorem erase_line (fills : Fills fill) (clean : ∀ part ∈ line, Clean part) (after : List Char) :
    eraseFrom 0 (dollar.render fill line ++ (LINE ++ after)) = survives fill line ++ eraseFrom 0 (LINE ++ after) := by
  have parts := List.takeWhile_append_dropWhile (p := defined fill) (l := line)
  have before : '$' ∉ dollar.render fill (line.takeWhile (defined fill)) := by
    apply render_defined fills
    · exact fun part inside => clean part ((List.takeWhile_sublist _).subset inside)
    · exact fun part inside => List.mem_takeWhile_imp inside
  rw [← parts,render_append,List.append_assoc,erase_plain before,parts,survives,List.append_assoc]
  congr 1
  cases rest : line.dropWhile (defined fill) with
  | nil => rfl
  | cons part others =>
    have clear : ∀ part ∈ line.dropWhile (defined fill), Clean part := fun part inside =>
      clean part ((List.dropWhile_sublist _).subset inside)
    have undefined : defined fill part = false := by
      have stopped := List.head?_dropWhile_not (defined fill) line
      rw [rest] at stopped
      simpa using stopped
    rw [rest] at clear
    cases part with
    | literal => cases undefined
    | hole name =>
      have none : fill name = none := by simpa [defined] using undefined
      have shown : dollar.render fill (.hole name::others) = '$':: '{'::(name ++ '}'::dollar.render fill others) := by
        change (fill name).getD (dollar.hole name) ++ dollar.render fill others = _
        rw [none]
        simp [Bracket.hole,dollar]
      have brace : '}' ∈ name ++ '}'::dollar.render fill others := List.mem_append_right _ List.mem_cons_self
      obtain ⟨front,tail,split,last⟩ := Text.last_split brace
      have whole : dollar.render fill (.hole name::others) = '$':: '{'::front ++ '}'::tail := by
        rw [shown,split]
        rfl
      have kept := last_plain fills clear whole last
      have inside : OneLine (front ++ '}'::tail) := by
        intro c member
        apply render_oneLine fills clear c
        rw [whole]
        exact List.mem_cons_of_mem _ (List.mem_cons_of_mem _ member)
      dsimp only
      rw [whole,Text.afterLast_append _ last]
      have shape : '$':: '{'::front ++ '}'::tail ++ (LINE ++ after) =
          '$':: '{'::(front ++ '}'::(tail ++ (LINE ++ after))) := by simp
      rw [shape]
      exact erase_undefined inside last kept

private theorem erase_lines (fills : Fills fill) {lines : List (List (Piece Char))}
    (clean : ∀ line ∈ lines, ∀ part ∈ line, Clean part) :
    eraseFrom 0 (lines.flatMap fun line => dollar.render fill line ++ LINE) =
      lines.flatMap fun line => survives fill line ++ LINE := by
  induction lines with
  | nil => rfl
  | cons line lines ih =>
    obtain ⟨here,later⟩ := List.forall_mem_cons.mp clean
    rw [List.flatMap_cons,List.flatMap_cons,List.append_assoc,erase_line fills here,erase_plain (by decide),ih later,
      List.append_assoc]

end Filled

/-- What the map gives for a name. -/
def given (values : List (Key × List Char)) (name : List Char) : Option (List Char) :=
  (values.map fun value => (value.1.text,value.2)).lookup name

theorem given_mem {values : List (Key × List Char)} {name text : List Char} (found : given values name = some text) :
    ∃ value ∈ values, value.2 = text := by
  obtain ⟨before,after,split,_⟩ := List.lookup_eq_some_iff.mp found
  have inside : (name,text) ∈ values.map fun value => (value.1.text,value.2) := by
    rw [split]
    exact List.mem_append_right _ List.mem_cons_self
  obtain ⟨value,member,same⟩ := List.mem_map.mp inside
  exact ⟨value,member,(Prod.mk.inj same).2⟩

/-- Line by line, all names of the map are filled at once, whatever the order of the map;
then every line loses what stands between its first undefined hole and its last brace. -/
theorem parseTempFile_lines {values : List (Key × List Char)}
    (literal : ∀ value ∈ values, Literal value.2 ∧ OneLine value.2) {lines : List (List (Piece Char))}
    (clean : ∀ line ∈ lines, ∀ part ∈ line, Clean part) {file : List Char}
    (read : readLines false [] file = lines.map (dollar.render fun _ => none)) :
    parseTempFile (values.map fun value => (value.1,some value.2)) (some file) =
      some (lines.flatMap fun line => survives (given values) line ++ LINE) := by
  have fills : Fills (given values) := by
    intro name text found
    obtain ⟨value,inside,rfl⟩ := given_mem found
    exact ⟨(literal value inside).1.1,(literal value inside).2⟩
  have text : ∀ fill, (lines.flatMap fun line => dollar.render fill line ++ LINE) =
      dollar.render fill (lines.flatMap fun line => line ++ [.literal LINE]) := by
    intro fill
    rw [Bracket.render,List.flatMap_assoc]
    congr 1
    funext line
    rw [List.flatMap_append]
    rfl
  have parts : ∀ part ∈ lines.flatMap fun line => line ++ [.literal LINE], part.Plain dollar := by
    intro part inside
    obtain ⟨line,member,here⟩ := List.mem_flatMap.mp inside
    rcases List.mem_append.mp here with here | last
    · have good := clean line member part here
      cases part with
      | literal => exact good.1
      | hole => exact good.1
    · rw [List.mem_singleton.mp last]
      change '$' ∉ LINE
      decide
  have filled : (values.map fun value => (value.1.text,value.2)).foldl
      (fun text value => replace (dollar.hole value.1) value.2 text)
      (dollar.render (fun _ => none) (lines.flatMap fun line => line ++ [.literal LINE])) =
      dollar.render (given values) (lines.flatMap fun line => line ++ [.literal LINE]) := by
    rw [foldl_replace]
    · rfl
    · intro value inside
      obtain ⟨source,_,rfl⟩ := List.mem_map.mp inside
      exact source.1.plain
    · rintro _ _ ⟨⟩
    · intro value inside
      obtain ⟨source,member,rfl⟩ := List.mem_map.mp inside
      exact (literal source member).1.1
    · exact parts
  rw [parseTempFile,Option.map_some,read,List.flatMap_map,text,replaceKeys_literal fun value inside =>
    (literal value inside).1]
  dsimp only
  rw [filled,← text,erase_lines fills clean]

/-- Two lines: the text between the hole that is not defined and the last brace is lost. -/
def sampleLines : List (List (Piece Char)) :=
  [[.literal "Dear ".toList,.hole "name".toList],
    [.hole "name".toList,.hole "sum".toList,.literal " or \x7bnone\x7d.".toList]]

theorem parseTempFile_lines_sample : parseTempFile [(⟨"name".toList,by decide⟩,some "Li".toList)]
    (some "Dear $\x7bname\x7d\n$\x7bname\x7d$\x7bsum\x7d or \x7bnone\x7d.".toList) = some "Dear Li\r\nLi.\r\n".toList :=
  @parseTempFile_lines [(⟨"name".toList,by decide⟩,"Li".toList)] (by decide) sampleLines (by decide) _ (by decide)

end YzFramework.Util.TextTemplate
