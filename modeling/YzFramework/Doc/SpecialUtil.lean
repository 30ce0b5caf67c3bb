import YzFramework.Library.Pattern
import Mathlib.Data.List.Forall2
import Mathlib.Data.List.Infix

/-! `SpecialUtil.getGenerateContent`: the paragraphs for the lines of a content, whose
tags are underlined. `none` is an exception. -/
namespace YzFramework.Doc.SpecialUtil
open Library Search Pattern
open Properties (Text unit units)

structure Run where
  text : Text
  underlined : Bool
deriving DecidableEq

/-- A paragraph with its level in the numbering. -/
structure Paragraph where
  level : ℕ
  runs : List Run

/-- The class `\s`. -/
def white (u : UInt16) : Bool := u == space || (0x09 ≤ u && u ≤ 0x0D)

/-- What a dot does not stand for. -/
def terminator (u : UInt16) : Bool := u == 0x0A || u == 0x0D || u == 0x85 || u == 0x2028 || u == 0x2029

/-- What a dot takes before the first closing bracket. -/
def inner (u : UInt16) : Bool := u != closing && !terminator u

/-- `\s*<.*?>\s*` at the start of a text: what it takes, and what it leaves. -/
def matchAt (text : Text) : Option (Text × Text) :=
  match text.dropWhile white with
  | [] => none
  | u::rest =>
    match rest.dropWhile inner with
    | [] => none
    | v::after =>
      if u = opening ∧ v = closing then
        some (text.takeWhile white ++ u::(rest.takeWhile inner ++ v::after.takeWhile white),after.dropWhile white)
      else none

/-- The first match, with what is before and after it. -/
def findTag : Text → Option (Text × Text × Text)
  | [] => none
  | u::rest =>
    match matchAt (u::rest) with
    | some (tag,after) => some ([],tag,after)
    | none => (findTag rest).map fun (before,tag,after) => (u::before,tag,after)

structure Tag (tag : Text) : Prop where
  shape : ∃ front body back, tag = front ++ opening::(body ++ closing::back) ∧ ∀ u ∈ front, white u = true

theorem matchAt_some {text tag after : Text} (matched : matchAt text = some (tag,after)) :
    text = tag ++ after ∧ Tag tag := by
  rw [matchAt] at matched
  split at matched
  next => cases matched
  next u rest spaces =>
    split at matched
    next => cases matched
    next v later ends =>
      split at matched
      next brackets =>
        cases matched
        obtain ⟨rfl,rfl⟩ := brackets
        refine ⟨?_,⟨_,_,_,rfl,fun u member => List.mem_takeWhile_imp member⟩⟩
        rw [List.append_assoc,List.cons_append,List.append_assoc,List.cons_append,List.takeWhile_append_dropWhile,
          ← ends,List.takeWhile_append_dropWhile,← spaces,List.takeWhile_append_dropWhile]
      next => cases matched

theorem findTag_some {text before tag after : Text} (found : findTag text = some (before,tag,after)) :
    text = before ++ tag ++ after ∧ Tag tag := by
  induction text generalizing before with
  | nil => cases found
  | cons u rest ih =>
    rw [findTag] at found
    split at found
    next matched =>
      cases found
      exact matchAt_some matched
    next =>
      obtain ⟨⟨before',tag',after'⟩,later,same⟩ := Option.map_eq_some_iff.mp found
      cases same
      obtain ⟨shape,bracketed⟩ := ih later
      exact ⟨by rw [shape]; rfl,bracketed⟩

theorem Tag.nonempty {tag : Text} (bracketed : Tag tag) : 0 < tag.length := by
  obtain ⟨front,body,back,rfl,_⟩ := bracketed.shape
  exact List.length_pos_of_ne_nil (List.append_ne_nil_of_right_ne_nil _ (List.cons_ne_nil _ _))

/-- The tags of a line, each with the text before it, and the text after the last one. -/
def segments (line : Text) : List (Text × Text) × Text :=
  match found : findTag line with
  | none => ([],line)
  | some (before,tag,after) =>
    have _ : after.length < line.length := by
      obtain ⟨shape,bracketed⟩ := findTag_some found
      have positive := bracketed.nonempty
      rw [shape,List.length_append,List.length_append]
      omega
    ((before,tag)::(segments after).1,(segments after).2)
termination_by line.length

/-- One pass for each tag, and what follows the loop. A tag is looked for in the line in
which the earlier ones are blanked out; an index of −1 makes `substring` throw. -/
def generateRuns (compile : Compile) : List Text → Text → ℕ → Option (List Run)
  | [],string,start =>
    some (if 0 < start ∧ start < string.length then [⟨string.drop start,false⟩] else [])
  | tag::tags,string,start => do
    let stop ← indexOf tag string
    let string ← replaceFirst compile tag (List.replicate tag.length space) string
    let text ← substring string start stop
    let runs ← generateRuns compile tags string (stop+tag.length)
    some ((if text = [] then [] else [⟨text,false⟩]) ++ ⟨tag,true⟩::runs)

def generateLine (compile : Compile) (string : Text) : Option (List Run) :=
  match (segments string).1 with
  | [] => some [⟨string,false⟩]
  | tags => generateRuns compile (tags.map Prod.snd) string 0

/-- `replaceFirst` of a marker, which has nothing special to a regular expression. -/
def removeFirst (marker string : Text) : Text :=
  match indexOf marker string with
  | none => string
  | some start => string.take start ++ string.drop (start+marker.length)

/-- The level and the text of the paragraph for a line, if it makes one. -/
def lineOf (isNumber : Bool) (i : ℕ) (string : Text) : Option (ℕ × Text) :=
  let period := units "<PERIOD_CONTENT>"
  let serial := units "<SERIAL_NUMBER>"
  if isNumber then
    if i = 0 then some (1,removeFirst period string)
    else if serial <:+: string then some (2,removeFirst period (removeFirst serial string))
    else some (4,removeFirst period string)
  else if period <:+: string then some (4,removeFirst period string)
  else none

/-- The loop over the lines from the given index on. -/
def generateFrom (compile : Compile) (isNumber : Bool) : ℕ → List Text → Option (List Paragraph)
  | _,[] => some []
  | i,string::rest =>
    match lineOf isNumber i string with
    | none => generateFrom compile isNumber (i+1) rest
    | some (level,string) => do
      let runs ← generateLine compile string
      let paragraphs ← generateFrom compile isNumber (i+1) rest
      some (⟨level,runs⟩::paragraphs)

/-- `split` drops the empty strings at the end, but leaves a text without separator whole. -/
def splitLines (content : Text) : List Text :=
  if unit '\n' ∈ content then (content.splitOn (unit '\n')).rdropWhile (·.isEmpty) else [content]

def getGenerateContent (compile : Compile) (content : Text) (isNumber : Bool) : Option (List Paragraph) :=
  generateFrom compile isNumber 0 (splitLines content)

/-- The lines that make a paragraph, without their markers. -/
def linesFrom (isNumber : Bool) : ℕ → List Text → List (ℕ × Text)
  | _,[] => []
  | i,string::rest => (lineOf isNumber i string).toList ++ linesFrom isNumber (i+1) rest

def lines (content : Text) (isNumber : Bool) : List (ℕ × Text) := linesFrom isNumber 0 (splitLines content)

/-- The units of the runs, each with whether it is underlined. -/
def marked (runs : List Run) : List (UInt16 × Bool) := runs.flatMap fun run => run.text.map (·,run.underlined)

/-- The units of a line, each with whether it belongs to a tag. -/
def expected : List (Text × Text) → Text → List (UInt16 × Bool)
  | [],tail => tail.map (·,false)
  | (before,tag)::tags,tail => before.map (·,false) ++ (tag.map (·,true) ++ expected tags tail)

/-- The texts of the runs make the line, and just the tags are underlined. -/
structure Segmented (line : Text) (runs : List Run) : Prop where
  text : runs.flatMap Run.text = line
  underlined : marked runs = expected (segments line).1 (segments line).2

/-- Every line has its paragraph, with its level and its text. -/
def Right (compile : Compile) (content : Text) (isNumber : Bool) : Prop :=
  ∃ paragraphs, getGenerateContent compile content isNumber = some paragraphs ∧
    List.Forall₂ (fun line paragraph => paragraph.level = line.1 ∧ Segmented line.2 paragraph.runs)
      (lines content isNumber) paragraphs

/-- Read on from `start`, the string has the tags and what is between them, as long as it
has them when the loop comes to each: a tag has to occur for the first time at its place
and to be a regular expression, and what is replaced for it must leave the text before it. -/
def Readable (compile : Compile) : Text → ℕ → List (Text × Text) → Text → Prop
  | string,start,[],tail => string.drop start = tail
  | string,start,(before,tag)::tags,tail =>
    indexOf tag string = some (start+before.length) ∧
      ∃ after, replaceFirst compile tag (List.replicate tag.length space) string = some after ∧
        substring after start (start+before.length) = some before ∧
        Readable compile after (start+before.length+tag.length) tags tail

theorem marks_text (text : Text) (mark : Bool) : (text.map fun u => (u,mark)).map Prod.fst = text := by
  rw [List.map_map]
  exact List.map_id text

theorem expected_text (tags : List (Text × Text)) (tail : Text) :
    (expected tags tail).map Prod.fst = tags.flatMap (fun (before,tag) => before ++ tag) ++ tail := by
  induction tags with
  | nil => exact marks_text tail false
  | cons segment tags ih =>
    rw [expected,List.map_append,List.map_append,marks_text,marks_text,ih,List.flatMap_cons,List.append_assoc,
      List.append_assoc]

theorem marked_text (runs : List Run) : (marked runs).map Prod.fst = runs.flatMap Run.text := by
  rw [marked,List.map_flatMap]
  simp only [marks_text]

theorem segments_some {line before tag after : Text} (found : findTag line = some (before,tag,after)) :
    segments line = ((before,tag)::(segments after).1,(segments after).2) := by
  rw [segments]
  split
  next none => rw [none] at found; cases found
  next before' tag' after' some =>
    rw [some] at found
    cases found
    rfl

theorem segments_none {line : Text} (none : findTag line = none) : segments line = ([],line) := by
  rw [segments]
  split
  next => rfl
  next some => rw [some] at none; cases none

theorem segments_text (line : Text) :
    (segments line).1.flatMap (fun (before,tag) => before ++ tag) ++ (segments line).2 = line := by
  induction size : line.length using Nat.strong_induction_on generalizing line with
  | _ n ih =>
    rcases found : findTag line with _ | ⟨before,tag,after⟩
    · rw [segments_none found]
      rfl
    · obtain ⟨shape,bracketed⟩ := findTag_some found
      have positive := bracketed.nonempty
      have smaller : after.length < n := by
        rw [← size,shape,List.length_append,List.length_append]
        omega
      have rest := ih after.length smaller after rfl
      rw [segments_some found]
      dsimp only
      rw [List.flatMap_cons,List.append_assoc,rest,shape]

private theorem segmented_iff (line : Text) (runs : List Run) :
    Segmented line runs ↔ marked runs = expected (segments line).1 (segments line).2 := by
  constructor
  · exact fun segmented => segmented.underlined
  · intro underlined
    refine ⟨?_,underlined⟩
    rw [← marked_text,underlined,expected_text,segments_text]

/-- The first mark tells where the text before it ends. -/
theorem marks_cancel {before other tag : Text} (some : 0 < tag.length) {rest later : List (UInt16 × Bool)}
    (same : before.map (·,false) ++ (tag.map (·,true) ++ rest) = other.map (·,false) ++ (tag.map (·,true) ++ later)) :
    before = other ∧ rest = later := by
  obtain ⟨c,behind,rfl⟩ := List.exists_cons_of_length_pos some
  induction before generalizing other with
  | nil =>
    cases other with
    | nil => exact ⟨rfl,List.append_cancel_left same⟩
    | cons v other => cases same
  | cons u before ih =>
    cases other with
    | nil => cases same
    | cons v other =>
      obtain ⟨first,others⟩ := List.cons.inj same
      obtain ⟨rfl,later⟩ := ih others
      cases first
      exact ⟨rfl,later⟩

theorem marked_cons (text tag : Text) (runs : List Run) :
    marked ((if text = [] then [] else [⟨text,false⟩]) ++ ⟨tag,true⟩::runs) =
      text.map (·,false) ++ (tag.map (·,true) ++ marked runs) := by
  rw [marked,List.flatMap_append,List.flatMap_cons]
  split_ifs with empty
  · rw [empty]
    rfl
  · rw [List.flatMap_singleton]
    rfl

theorem marked_tail (string : Text) {start : ℕ} (begun : 0 < start) :
    marked (if 0 < start ∧ start < string.length then [⟨string.drop start,false⟩] else []) =
      (string.drop start).map (·,false) := by
  split_ifs with inside
  · exact List.flatMap_singleton _ _
  · rw [List.drop_of_length_le (by omega)]
    rfl

theorem generateRuns_right_iff (compile : Compile) (tags : List (Text × Text)) (tail : Text)
    (bracketed : ∀ segment ∈ tags, 0 < segment.2.length) (string : Text) (start : ℕ) (begun : tags = [] → 0 < start) :
    (∃ runs, generateRuns compile (tags.map Prod.snd) string start = some runs ∧ marked runs = expected tags tail) ↔
      Readable compile string start tags tail := by
  induction tags generalizing string start with
  | nil =>
    have ends := marked_tail string (begun rfl)
    constructor
    · rintro ⟨runs,made,same⟩
      cases made
      rw [ends] at same
      have texts := congrArg (List.map Prod.fst) same
      rw [marks_text,expected,marks_text] at texts
      exact texts
    · intro readable
      refine ⟨_,rfl,?_⟩
      rw [ends,readable]
      rfl
  | cons segment tags ih =>
    obtain ⟨before,tag⟩ := segment
    rw [List.forall_mem_cons] at bracketed
    have positive : 0 < tag.length := bracketed.1
    rw [List.map_cons,generateRuns,Readable]
    constructor
    · rintro ⟨runs,made,same⟩
      obtain ⟨stop,found,made⟩ := Option.bind_eq_some_iff.mp made
      obtain ⟨after,replaced,made⟩ := Option.bind_eq_some_iff.mp made
      obtain ⟨text,cut,made⟩ := Option.bind_eq_some_iff.mp made
      obtain ⟨later,rest,made⟩ := Option.bind_eq_some_iff.mp made
      cases made
      rw [marked_cons,expected] at same
      obtain ⟨rfl,others⟩ := marks_cancel positive same
      obtain ⟨rfl,_⟩ := substring_some cut
      exact ⟨found,after,replaced,cut,(ih bracketed.2 after _ (by omega)).mp ⟨later,rest,others⟩⟩
    · rintro ⟨found,after,replaced,kept,readable⟩
      obtain ⟨later,rest,others⟩ := (ih bracketed.2 after _ (by omega)).mpr readable
      refine ⟨(if before = [] then [] else [⟨before,false⟩]) ++ ⟨tag,true⟩::later,?_,?_⟩
      · rw [found,Option.bind_eq_bind,Option.bind_some,replaced,Option.bind_eq_bind,Option.bind_some,kept,
          Option.bind_eq_bind,Option.bind_some,rest]
        rfl
      · rw [marked_cons,others]
        rfl

theorem segments_bracketed (line : Text) : ∀ segment ∈ (segments line).1, Tag segment.2 := by
  induction size : line.length using Nat.strong_induction_on generalizing line with
  | _ n ih =>
    rcases found : findTag line with _ | ⟨before,tag,after⟩
    · rw [segments_none found]
      exact nofun
    · obtain ⟨shape,bracketed⟩ := findTag_some found
      have positive := bracketed.nonempty
      rw [segments_some found,List.forall_mem_cons]
      refine ⟨bracketed,ih after.length ?_ after rfl⟩
      rw [← size,shape,List.length_append,List.length_append]
      omega

theorem generateLine_right_iff (compile : Compile) (line : Text) :
    (∃ runs, generateLine compile line = some runs ∧ Segmented line runs) ↔
      Readable compile line 0 (segments line).1 (segments line).2 := by
  simp only [segmented_iff]
  rw [generateLine]
  rcases tags : (segments line).1 with _ | ⟨segment,rest⟩
  · have whole := segments_text line
    rw [tags] at whole
    have tail : (segments line).2 = line := whole
    rw [tail,Readable]
    refine ⟨fun _ => rfl,fun _ => ⟨_,rfl,?_⟩⟩
    exact List.flatMap_singleton _ _
  · have bracketed : ∀ segment' ∈ segment::rest, 0 < segment'.2.length := fun segment' member =>
      (segments_bracketed line segment' (tags ▸ member)).nonempty
    exact generateRuns_right_iff compile (segment::rest) _ bracketed line 0 nofun

theorem generateFrom_right_iff (compile : Compile) (isNumber : Bool) (i : ℕ) (strings : List Text) :
    (∃ paragraphs, generateFrom compile isNumber i strings = some paragraphs ∧
      List.Forall₂ (fun line paragraph => paragraph.level = line.1 ∧ Segmented line.2 paragraph.runs)
        (linesFrom isNumber i strings) paragraphs) ↔
      ∀ line ∈ linesFrom isNumber i strings, Readable compile line.2 0 (segments line.2).1 (segments line.2).2 := by
  induction strings generalizing i with
  | nil => exact ⟨fun _ => nofun,fun _ => ⟨[],rfl,.nil⟩⟩
  | cons string rest ih =>
    rcases made : lineOf isNumber i string with _ | ⟨level,line⟩
    · rw [generateFrom,linesFrom,made]
      exact ih (i+1)
    · have first := generateLine_right_iff compile line
      rw [linesFrom,made,Option.toList_some,List.singleton_append,List.forall_mem_cons,← ih (i+1),← first]
      rw [generateFrom,made]
      constructor
      · rintro ⟨paragraphs,done,each⟩
        obtain ⟨runs,ran,done⟩ := Option.bind_eq_some_iff.mp done
        obtain ⟨later,others,done⟩ := Option.bind_eq_some_iff.mp done
        cases done
        cases each with
        | cons head tail => exact ⟨⟨runs,ran,head.2⟩,later,others,tail⟩
      · rintro ⟨⟨runs,ran,segmented⟩,later,others,tail⟩
        refine ⟨⟨level,runs⟩::later,?_,.cons ⟨rfl,segmented⟩ tail⟩
        dsimp only
        rw [ran,Option.bind_eq_bind,Option.bind_some,others]
        rfl

/-- The runs of all lines are right if and only if every line stays readable. -/
theorem getGenerateContent_right_iff (compile : Compile) (content : Text) (isNumber : Bool) :
    Right compile content isNumber ↔ ∀ line ∈ lines content isNumber,
      Readable compile line.2 0 (segments line.2).1 (segments line.2).2 :=
  generateFrom_right_iff compile isNumber 0 (splitLines content)

theorem matchAt_opening {rest : Text} (single : ∀ u ∈ rest, terminator u = false) (closed : closing ∈ rest) :
    matchAt (opening::rest) ≠ none := by
  have ends : ∃ after, rest.dropWhile inner = closing::after := by
    induction rest with
    | nil => cases closed
    | cons u rest ih =>
      rw [List.forall_mem_cons] at single
      by_cases last : u = closing
      · exact ⟨rest,by rw [last]; exact List.dropWhile_cons_of_neg (by decide)⟩
      · have taken : inner u = true := by simp [inner,last,single.1]
        rw [List.dropWhile_cons_of_pos taken]
        exact ih single.2 ((List.mem_cons.mp closed).resolve_left (Ne.symm last))
  obtain ⟨after,ends⟩ := ends
  rw [matchAt,List.dropWhile_cons_of_neg (by decide)]
  dsimp only
  rw [ends]
  simp

/-- In a single line no bracket opens before the first tag. -/
theorem findTag_before {text before tag after : Text} (single : ∀ u ∈ text, terminator u = false)
    (found : findTag text = some (before,tag,after)) : opening ∉ before := by
  induction text generalizing before with
  | nil => cases found
  | cons u rest ih =>
    rw [List.forall_mem_cons] at single
    rw [findTag] at found
    split at found
    next =>
      cases found
      exact List.not_mem_nil
    next none =>
      obtain ⟨⟨before',tag',after'⟩,later,same⟩ := Option.map_eq_some_iff.mp found
      cases same
      rw [List.mem_cons,not_or]
      refine ⟨?_,ih single.2 later⟩
      rintro rfl
      obtain ⟨shape,bracketed⟩ := findTag_some later
      obtain ⟨front,body,back,rfl,_⟩ := bracketed.shape
      exact matchAt_opening single.2 (by rw [shape]; simp) none

theorem indexOf_tag {before tag : Text} (bracketed : Tag tag) (apart : opening ∉ before) (after : Text) :
    indexOf tag (before ++ tag ++ after) = some before.length := by
  obtain ⟨front,body,back,rfl,white⟩ := bracketed.shape
  have blank : opening ∉ front := fun inside => absurd (white opening inside) (by decide)
  apply indexOf_first
  intro earlier later same
  have clear : opening ∉ before ++ front := by
    rw [List.mem_append,not_or]
    exact ⟨apart,blank⟩
  have opened : before ++ front ++ opening::(body ++ closing::back ++ after) =
      earlier ++ front ++ opening::(body ++ closing::back ++ later) := by
    simpa using same
  obtain ⟨more,longer,_⟩ := append_before clear opened
  have sizes := congrArg List.length longer
  rw [List.length_append,List.length_append,List.length_append] at sizes
  omega

/-- Before each tag no other bracket is open, and every tag is read as the text it is. -/
structure Plain (compile : Compile) (line : Text) : Prop where
  apart : ∀ segment ∈ (segments line).1, opening ∉ segment.1
  literal : ∀ segment ∈ (segments line).1, Literal compile segment.2

theorem Plain.rest {compile : Compile} {line before tag after : Text}
    (found : findTag line = some (before,tag,after)) (plain : Plain compile line) :
    opening ∉ before ∧ Literal compile tag ∧ Plain compile after := by
  obtain ⟨apart,literal⟩ := plain
  rw [segments_some found,List.forall_mem_cons] at apart literal
  exact ⟨apart.1,literal.1,apart.2,literal.2⟩

/-- A line without line terminators has no open bracket before a tag. -/
theorem plain_single {compile : Compile} {line : Text} (single : ∀ u ∈ line, terminator u = false)
    (literal : ∀ segment ∈ (segments line).1, Literal compile segment.2) : Plain compile line := by
  refine ⟨?_,literal⟩
  clear literal
  induction size : line.length using Nat.strong_induction_on generalizing line with
  | _ n ih =>
    rcases found : findTag line with _ | ⟨before,tag,after⟩
    · rw [segments_none found]
      exact nofun
    · obtain ⟨shape,bracketed⟩ := findTag_some found
      have positive := bracketed.nonempty
      have smaller : after.length < n := by
        rw [← size,shape,List.length_append,List.length_append]
        omega
      rw [segments_some found,List.forall_mem_cons]
      exact ⟨findTag_before single found,
        ih after.length smaller (fun u member => single u (shape ▸ List.mem_append_right _ member)) rfl⟩

private theorem readable_plain (compile : Compile) (before line : Text) (apart : opening ∉ before)
    (plain : Plain compile line) :
    Readable compile (before ++ line) before.length (segments line).1 (segments line).2 := by
  induction size : line.length using Nat.strong_induction_on generalizing before line with
  | _ n ih =>
    rcases found : findTag line with _ | ⟨between,tag,after⟩
    · rw [segments_none found]
      exact List.drop_left
    · obtain ⟨shape,bracketed⟩ := findTag_some found
      have positive := bracketed.nonempty
      obtain ⟨clear,literal,others⟩ := plain.rest found
      rw [segments_some found]
      have unopened : opening ∉ before ++ between := by
        rw [List.mem_append,not_or]
        exact ⟨apart,clear⟩
      have blanked : opening ∉ before ++ between ++ List.replicate tag.length space := by
        rw [List.mem_append,not_or]
        exact ⟨unopened,fun inside => absurd (List.eq_of_mem_replicate inside) (by decide)⟩
      have place := indexOf_tag bracketed unopened after
      have replaced := replaceFirst_literal literal (List.replicate tag.length space) place
      have whole : before ++ line = before ++ between ++ tag ++ after := by
        rw [shape,← List.append_assoc,← List.append_assoc]
      have smaller : after.length < n := by
        rw [← size,shape,List.length_append,List.length_append]
        omega
      have rest := ih after.length smaller _ after blanked others rfl
      rw [List.length_append,List.length_append,List.length_replicate] at rest
      rw [List.length_append] at place
      rw [Readable,whole]
      refine ⟨place,_,replaced,substring_eq ?_ ?_,rest⟩
      · simp
      · rw [List.append_assoc,List.append_assoc,List.drop_left,List.take_left]

/-- Where every line is plain, the runs of all lines are right. -/
theorem getGenerateContent_right (compile : Compile) (content : Text) (isNumber : Bool)
    (plain : ∀ line ∈ lines content isNumber, Plain compile line.2) : Right compile content isNumber :=
  (generateFrom_right_iff compile isNumber 0 (splitLines content)).mpr fun line member =>
    readable_plain compile [] line.2 List.not_mem_nil (plain line member)

/-- An engine for texts without special characters. -/
def verbatim : Compile := fun regex =>
  some fun text => (indexOf regex text).toList.map fun start => (start,start+regex.length)

theorem verbatim_literal (pattern : Text) : Literal verbatim pattern := by
  refine ⟨_,rfl,fun text => ?_⟩
  cases indexOf pattern text <;> rfl

theorem getGenerateContent_right_repeated : Right verbatim (units "a <b> c <b>\n<SERIAL_NUMBER><b>d") true := by
  apply getGenerateContent_right
  have read : lines (units "a <b> c <b>\n<SERIAL_NUMBER><b>d") true =
      [(1,units "a <b> c <b>"),(2,units "<b>d")] := by decide +kernel
  have single : ∀ line ∈ lines (units "a <b> c <b>\n<SERIAL_NUMBER><b>d") true, line.2.any terminator = false := by
    rw [read]
    decide +kernel
  intro line listed
  refine plain_single (fun u member => ?_) fun _ _ => verbatim_literal _
  exact Bool.not_eq_true _ ▸ List.any_eq_false.mp (single line listed) u member

/-- A group that is not closed is a syntax error. -/
def unclosed : Compile := fun regex => if regex = units "<(>" then none else verbatim regex

theorem getGenerateContent_fails : ¬ Right unclosed (units "<(>") true := by
  intro right
  have readable := (generateFrom_right_iff unclosed true 0 (splitLines (units "<(>"))).mp right
    (1,units "<(>") (by decide +kernel)
  have found : findTag (units "<(>") = some ([],units "<(>",[]) := by decide +kernel
  have refused : replaceFirst unclosed (units "<(>") (List.replicate 3 space) (units "<(>") = none := by decide +kernel
  rw [segments_some found] at readable
  obtain ⟨_,_,replaced,_⟩ := readable
  cases refused.symm.trans replaced

end YzFramework.Doc.SpecialUtil
