import Mathlib.Algebra.GroupWithZero.Nat
import Mathlib.Data.List.DropRight

/-! Strings as the Java library reads them: trimming, splitting at single
characters and unsigned decimal numbers. -/
namespace YzFramework.Library.Text

/-- `trim` would leave nothing: only characters up to the blank. -/
def blank (text : String) : Bool := text.toList.all (· ≤ ' ')

/-- `Character.isWhitespace`. -/
def isWhitespace (c : Char) : Bool :=
  let n := c.toNat
  (9 ≤ n && n ≤ 13) || (28 ≤ n && n ≤ 32) || n == 0x1680 ||
    (0x2000 ≤ n && n ≤ 0x200A && n != 0x2007) || n == 0x2028 || n == 0x2029 || n == 0x205F || n == 0x3000

def isBlank (str : String) : Bool := str.toList.all isWhitespace

/-- The length of a string in units of UTF-16. -/
def units (text : String) : ℕ := (text.toList.map fun c => if 65536 ≤ c.toNat then 2 else 1).sum

/-- `String.split` at single characters; trailing empty pieces are dropped, a
text without separator stays whole. -/
def split (separates : Char → Bool) (text : String) : List String :=
  if text.toList.any separates then
    ((text.toList.splitOnP separates).rdropWhile List.isEmpty).map String.ofList
  else [text]

def tokens (separates : Char → Bool) (text : String) : List String :=
  ((text.toList.splitOnP separates).filter fun part => !part.isEmpty).map String.ofList

def beforeLast (separator : Char) (text : List Char) : List Char :=
  (text.rdropWhile (· ≠ separator)).dropLast

def startsWith (text start : String) : Bool := start.toList.isPrefixOf text.toList

theorem plain_iff {separator : Char} {text : List Char} :
    (∀ c ∈ text, (c == separator) = false) ↔ separator ∉ text :=
  ⟨fun plain inside => beq_eq_false_iff_ne.mp (plain separator inside) rfl,
    fun outside _ member => beq_eq_false_iff_ne.mpr fun same => outside (same ▸ member)⟩

theorem splitOnP_plain {separates : Char → Bool} (text : List Char) :
    ∀ part ∈ text.splitOnP separates, ∀ c ∈ part, separates c = false ∧ c ∈ text := by
  induction text with
  | nil => simp
  | cons first rest ih =>
    intro part inside c member
    rw [List.splitOnP_cons_eq_if_modifyHead] at inside
    split at inside
    next =>
      rcases List.mem_cons.mp inside with rfl | later
      · cases member
      · exact (ih part later c member).imp_right (List.mem_cons_of_mem _)
    next plain =>
      obtain ⟨head,parts,same⟩ := List.exists_cons_of_ne_nil (List.splitOnP_ne_nil separates rest)
      rw [same] at ih inside
      rcases List.mem_cons.mp inside with rfl | later
      · rcases List.mem_cons.mp member with rfl | deeper
        · exact ⟨eq_false_of_ne_true plain,List.mem_cons_self⟩
        · exact (ih head List.mem_cons_self c deeper).imp_right (List.mem_cons_of_mem _)
      · exact (ih part (List.mem_cons_of_mem _ later) c member).imp_right (List.mem_cons_of_mem _)

theorem mem_splitOnP {separates : Char → Bool} {text : List Char} {c : Char} (inside : c ∈ text) :
    separates c = true ∨ ∃ part ∈ text.splitOnP separates, c ∈ part := by
  induction text with
  | nil => cases inside
  | cons first rest ih =>
    rw [List.splitOnP_cons_eq_if_modifyHead]
    obtain ⟨head,parts,same⟩ := List.exists_cons_of_ne_nil (List.splitOnP_ne_nil separates rest)
    rw [same] at ih ⊢
    rcases List.mem_cons.mp inside with rfl | later
    · cases separated : separates c with
      | true => exact .inl rfl
      | false => exact .inr ⟨c::head,by simp,List.mem_cons_self⟩
    · refine (ih later).imp_right fun ⟨part,listed,member⟩ => ?_
      split
      · exact ⟨part,List.mem_cons_of_mem _ listed,member⟩
      · rcases List.mem_cons.mp listed with rfl | listed
        · exact ⟨first::part,by simp,List.mem_cons_of_mem _ member⟩
        · exact ⟨part,by simp [listed],member⟩

/-- `String.trim`. -/
def trim (text : List Char) : List Char := (text.dropWhile (· ≤ ' ')).rdropWhile (· ≤ ' ')

theorem trim_padded {before core after : List Char} (some : core ≠ [])
    (blanks : ∀ c ∈ before ++ after, c ≤ ' ') (shown : ∀ c ∈ core, ¬ c ≤ ' ') :
    trim (before ++ core ++ after) = core := by
  have front : ∀ c ∈ before, decide (c ≤ ' ') = true := fun c inside =>
    decide_eq_true (blanks c (List.mem_append_left _ inside))
  have back : ∀ c ∈ after.reverse, decide (c ≤ ' ') = true := fun c inside =>
    decide_eq_true (blanks c (List.mem_append_right _ (List.mem_reverse.mp inside)))
  obtain ⟨first,rest,rfl⟩ := List.exists_cons_of_ne_nil some
  have begins : (before ++ first::rest ++ after).dropWhile (· ≤ ' ') = first::rest ++ after := by
    rw [List.append_assoc,List.dropWhile_append_of_pos front,List.cons_append,
      List.dropWhile_cons_of_neg (by simpa using shown first List.mem_cons_self)]
  have last : ∀ c ∈ (first::rest).reverse.head?, ¬ decide (c ≤ ' ') = true := fun c inside =>
    by simpa using shown c (List.mem_reverse.mp (List.mem_of_mem_head? inside))
  rw [trim,begins,List.rdropWhile,List.reverse_append,List.dropWhile_append_of_pos back]
  cases reversed : (first::rest).reverse with
  | nil => simp at reversed
  | cons c others =>
    have kept : (c::others).dropWhile (· ≤ ' ') = c::others :=
      List.dropWhile_cons_of_neg (last c (by rw [reversed]; rfl))
    rw [kept,← reversed,List.reverse_reverse]

theorem split_plain {separates : Char → Bool} {text part : String} (inside : part ∈ split separates text) :
    ∀ c ∈ part.toList, separates c = false ∧ c ∈ text.toList := by
  unfold split at inside
  split at inside
  next =>
    obtain ⟨piece,member,rfl⟩ := List.mem_map.mp inside
    rw [String.toList_ofList]
    exact splitOnP_plain _ piece ((List.rdropWhile_prefix _ _).subset member)
  next whole =>
    rw [List.mem_singleton.mp inside]
    rw [List.any_eq_true] at whole
    exact fun c member => ⟨eq_false_of_ne_true fun bad => whole ⟨c,member,bad⟩,member⟩

theorem split_full {separates : Char → Bool} {text : String}
    (full : [] ∉ text.toList.splitOnP separates) :
    split separates text = (text.toList.splitOnP separates).map String.ofList := by
  unfold split
  split
  next =>
    refine congrArg _ (List.rdropWhile_eq_self_iff.mpr fun some empty => full ?_)
    rw [← List.isEmpty_iff.mp empty]
    exact List.getLast_mem some
  next whole =>
    have plain : ∀ c ∈ text.toList, separates c = false := fun c inside =>
      eq_false_of_ne_true fun found => whole (List.any_eq_true.mpr ⟨c,inside,found⟩)
    rw [List.splitOnP_eq_singleton plain,List.map_singleton,String.ofList_toList]

/-- Pieces without the separator, the last of them not empty, come back from their join. -/
theorem split_joined (separator : Char) (pieces : List String) (last : String) (some : last ≠ "")
    (plain : ∀ piece ∈ pieces, separator ∉ piece.toList) (alsoPlain : separator ∉ last.toList)
    {text : String} (joined : text.toList =
      (pieces.map fun piece => piece.toList ++ [separator]).flatten ++ last.toList) :
    split (· == separator) text = pieces ++ [last] := by
  have whole : text.toList.splitOnP (· == separator) = pieces.map String.toList ++ [last.toList] := by
    rw [joined]
    clear joined
    induction pieces with
    | nil =>
      exact List.splitOnP_eq_singleton (plain_iff.mpr alsoPlain)
    | cons piece rest ih =>
      rw [List.forall_mem_cons] at plain
      have outside := plain_iff.mpr plain.1
      simp only [List.map_cons,List.flatten_cons,List.append_assoc,List.cons_append,List.nil_append]
      rw [List.splitOnP_append_cons_of_forall_mem outside separator (beq_self_eq_true separator),
        ih plain.2]
  have ended : ¬ List.isEmpty last.toList = true := by
    rw [List.isEmpty_iff]
    exact fun empty => some (String.toList_inj.mp empty)
  unfold split
  split
  next =>
    rw [whole,List.rdropWhile_concat_neg _ _ _ ended,List.map_append,List.map_map]
    simp
  next single =>
    cases pieces with
    | nil => exact congrArg (fun piece => [piece]) (String.toList_inj.mp (by simpa using joined))
    | cons piece rest =>
      refine (single (List.any_eq_true.mpr ⟨separator,?_,beq_self_eq_true separator⟩)).elim
      rw [joined]
      simp

theorem split_ended (separator : Char) {piece : String} (some : piece ≠ "")
    (plain : separator ∉ piece.toList) {text : String}
    (ended : text.toList = piece.toList ++ [separator]) :
    split (· == separator) text = [piece] := by
  have outside := plain_iff.mpr plain
  have held : ¬ List.isEmpty piece.toList = true := by
    rw [List.isEmpty_iff]
    exact fun empty => some (String.toList_inj.mp empty)
  have pieces : text.toList.splitOnP (· == separator) = [] ++ [piece.toList] ++ [[]] := by
    rw [ended,List.splitOnP_append_cons_of_forall_mem outside separator (beq_self_eq_true separator)]
    rfl
  have separated : text.toList.any (· == separator) = true :=
    List.any_eq_true.mpr ⟨separator,by simp [ended],beq_self_eq_true separator⟩
  rw [split,if_pos separated,pieces,List.rdropWhile_concat_pos _ _ _ rfl,
    List.rdropWhile_concat_neg _ _ _ held]
  simp

theorem tokens_append {separates : Char → Bool} {piece : String} (some : piece ≠ "")
    (plain : ∀ c ∈ piece.toList, separates c = false) (separator : Char)
    (separated : separates separator = true) {text rest : String}
    (joined : text.toList = piece.toList ++ separator::rest.toList) :
    tokens separates text = piece::tokens separates rest := by
  have held : piece.toList.isEmpty = false :=
    List.isEmpty_eq_false_iff.mpr fun empty => some (String.toList_inj.mp empty)
  rw [tokens,joined,List.splitOnP_append_cons_of_forall_mem plain separator separated,
    List.filter_cons_of_pos (by rw [held]; rfl),List.map_cons,String.ofList_toList]
  rfl

theorem tokens_joined {separates : Char → Bool} {separator : Char} (separated : separates separator = true)
    {text first second : String} (joined : text.toList = first.toList ++ separator::second.toList) :
    tokens separates text = tokens separates first ++ tokens separates second := by
  rw [tokens,joined,List.splitOnP_append_cons _ _ separated,List.filter_append,List.map_append]
  rfl

theorem tokens_flatten (separates : Char → Bool) (text : String) :
    (tokens separates text).flatMap String.toList = text.toList.filter fun c => !separates c := by
  have pieces : ∀ text : List Char, ((text.splitOnP separates).filter fun part => !part.isEmpty).flatten =
      text.filter fun c => !separates c := by
    intro text
    rw [List.flatten_filter_not_isEmpty]
    induction text with
    | nil => rfl
    | cons first rest ih =>
      rw [List.splitOnP_cons_eq_if_modifyHead,List.filter_cons]
      split
      next separated => simp [separated,ih]
      next plain =>
        obtain ⟨head,parts,same⟩ := List.exists_cons_of_ne_nil (List.splitOnP_ne_nil separates rest)
        rw [same] at ih ⊢
        simp [plain,← ih]
  rw [← pieces,tokens,List.flatMap_def,List.map_map,Function.comp_def]
  simp only [String.toList_ofList,List.map_id']

theorem tokens_self {separates : Char → Bool} {text : String} (some : text ≠ "")
    (plain : ∀ c ∈ text.toList, separates c = false) : tokens separates text = [text] := by
  have held : text.toList.isEmpty = false :=
    List.isEmpty_eq_false_iff.mpr fun empty => some (String.toList_inj.mp empty)
  rw [tokens,List.splitOnP_eq_singleton plain,List.filter_cons_of_pos (by rw [held]; rfl)]
  simp

theorem tokens_plain {separates : Char → Bool} {text token : String}
    (inside : token ∈ tokens separates text) : ∀ c ∈ token.toList, separates c = false := by
  obtain ⟨part,listed,rfl⟩ := List.mem_map.mp inside
  rw [String.toList_ofList]
  exact fun c member => (splitOnP_plain _ part (List.mem_of_mem_filter listed) c member).1

theorem tokens_eq_nil {separates : Char → Bool} {text : String} :
    tokens separates text = [] ↔ ∀ c ∈ text.toList, separates c = true := by
  have empty : ∀ text : List Char, (∀ part ∈ text.splitOnP separates, part = []) ↔
      ∀ c ∈ text, separates c = true := by
    intro text
    induction text with
    | nil => simp
    | cons first rest ih =>
      rw [List.splitOnP_cons_eq_if_modifyHead,List.forall_mem_cons]
      split
      next separated => simp [ih,separated]
      next plain =>
        obtain ⟨head,parts,same⟩ := List.exists_cons_of_ne_nil (List.splitOnP_ne_nil separates rest)
        rw [same]
        simp [plain]
  rw [tokens,List.map_eq_nil_iff,List.filter_eq_nil_iff,← empty]
  simp

theorem startsWith_iff (text start : String) :
    startsWith text start = true ↔ start.toList <+: text.toList := List.isPrefixOf_iff_prefix

theorem rdropWhile_append {drops : Char → Bool} (before : List Char) {c : Char}
    (stays : ¬ drops c = true) (after : List Char) :
    (before ++ c::after).rdropWhile drops = before ++ c::after.rdropWhile drops := by
  induction after using List.reverseRecOn with
  | nil => exact List.rdropWhile_concat_neg _ _ _ stays
  | append_singleton rest last ih =>
    have joined : before ++ c::(rest ++ [last]) = before ++ c::rest ++ [last] := by simp
    rw [joined]
    by_cases dropped : drops last = true
    · rw [List.rdropWhile_concat_pos _ _ _ dropped,List.rdropWhile_concat_pos _ _ _ dropped,ih]
    · rw [List.rdropWhile_concat_neg _ _ _ dropped,List.rdropWhile_concat_neg _ _ _ dropped,joined]

theorem dropWhile_append {drops : Char → Bool} (before : List Char) {c : Char}
    (stays : ¬ drops c = true) (after : List Char) :
    (before ++ c::after).dropWhile drops = before.dropWhile drops ++ c::after := by
  rw [List.dropWhile_append,List.dropWhile_cons_of_neg stays]
  split
  next empty => rw [List.isEmpty_iff.mp empty,List.nil_append]
  next => rfl

theorem beforeLast_append {separator : Char} (before : List Char) {last : List Char}
    (plain : separator ∉ last) : beforeLast separator (before ++ separator::last) = before := by
  have dropped : last.rdropWhile (· ≠ separator) = [] :=
    List.rdropWhile_eq_nil_iff.mpr fun c inside => decide_eq_true fun same => plain (same ▸ inside)
  rw [beforeLast,rdropWhile_append before (by simp),dropped,List.dropLast_concat]

theorem beforeLast_none {separator : Char} {text : List Char} (plain : separator ∉ text) :
    beforeLast separator text = [] := by
  have dropped : text.rdropWhile (· ≠ separator) = [] :=
    List.rdropWhile_eq_nil_iff.mpr fun c inside => decide_eq_true fun same => plain (same ▸ inside)
  rw [beforeLast,dropped]
  rfl

def afterLast (separator : Char) (text : List Char) : List Char := text.rtakeWhile (· ≠ separator)

theorem afterLast_append {separator : Char} (before : List Char) {last : List Char}
    (plain : separator ∉ last) : afterLast separator (before ++ separator::last) = last := by
  have reversed : (before ++ separator::last).reverse = last.reverse ++ separator::before.reverse := by simp
  have taken : ∀ c ∈ last.reverse, decide (c ≠ separator) = true := fun c inside =>
    decide_eq_true fun same => plain (same ▸ List.mem_reverse.mp inside)
  rw [afterLast,List.rtakeWhile,reversed,List.takeWhile_append_of_pos taken]
  simp

theorem last_split {separator : Char} {text : List Char} (inside : separator ∈ text) :
    ∃ before after, text = before ++ separator::after ∧ separator ∉ after := by
  obtain ⟨after,before,split,plain⟩ := List.eq_append_cons_of_mem (List.mem_reverse.mpr inside)
  refine ⟨before.reverse,after.reverse,?_,fun listed => plain (List.mem_reverse.mp listed)⟩
  rw [← List.reverse_inj,split]
  simp

theorem last_split_unique {separator : Char} {before after other rest : List Char}
    (plain : separator ∉ after) (alsoPlain : separator ∉ rest)
    (same : before ++ separator::after = other ++ separator::rest) : other = before ∧ rest = after := by
  have begun : other = before := by
    rw [← beforeLast_append other alsoPlain,← same,beforeLast_append before plain]
  subst begun
  exact ⟨rfl,(List.cons.inj (List.append_cancel_left same)).2.symm⟩

theorem forall_last_split {separator : Char} {before after : List Char} (plain : separator ∉ after)
    (held : List Char → List Char → Prop) :
    (∀ other rest, before ++ separator::after = other ++ separator::rest → separator ∉ rest →
      held other rest) ↔ held before after := by
  refine ⟨fun all => all before after rfl plain,fun here other rest same alsoPlain => ?_⟩
  obtain ⟨rfl,rfl⟩ := last_split_unique plain alsoPlain same
  exact here

theorem mem_afterLast {separator c : Char} (apart : c ≠ separator) (before : List Char)
    {after : List Char} (plain : c ∉ after) :
    c ∈ afterLast separator (before ++ c::after) ↔ separator ∉ after := by
  constructor
  · intro held inside
    obtain ⟨upper,last,rfl,outside⟩ := last_split inside
    have split : before ++ c::(upper ++ separator::last) = before ++ c::upper ++ separator::last := by simp
    rw [split,afterLast_append _ outside] at held
    exact plain (List.mem_append_right _ (List.mem_cons_of_mem _ held))
  · intro outside
    have reversed : (before ++ c::after).reverse = (c::after).reverse ++ before.reverse := by simp
    have taken : ∀ other ∈ (c::after).reverse, decide (other ≠ separator) = true := by
      intro other listed
      rw [List.mem_reverse] at listed
      apply decide_eq_true
      intro same
      rw [same] at listed
      exact (List.mem_cons.mp listed).elim (fun equal => apart equal.symm) outside
    rw [afterLast,List.rtakeWhile,reversed,List.takeWhile_append_of_pos taken]
    simp

/-- The second text continues the first pair's first part beyond a separator. -/
def Shifted (separator : Char) (first second : List Char × List Char) : Prop :=
  ∃ between, first.1 = second.1 ++ separator::between ∧ second.2 = between ++ separator::first.2

/-- Pairs are joined to the same text if and only if they are the same, or a separator
inside a part is taken for the one between them. -/
theorem joined_eq_iff (separator : Char) (first second : List Char × List Char) :
    first.1 ++ separator::first.2 = second.1 ++ separator::second.2 ↔
      first = second ∨ Shifted separator first second ∨ Shifted separator second first := by
  obtain ⟨left,right⟩ := first
  obtain ⟨otherLeft,otherRight⟩ := second
  constructor
  · intro same
    rcases List.append_eq_append_iff.mp same with ⟨more,longer,rest⟩ | ⟨more,longer,rest⟩
    · cases more with
      | nil =>
        rw [List.append_nil] at longer
        cases longer
        cases rest
        exact .inl rfl
      | cons c between =>
        cases rest
        exact .inr (.inr ⟨between,longer,rfl⟩)
    · cases more with
      | nil =>
        rw [List.append_nil] at longer
        cases longer
        cases rest
        exact .inl rfl
      | cons c between =>
        cases rest
        exact .inr (.inl ⟨between,longer,rfl⟩)
  · rintro (same | ⟨between,longer,rest⟩ | ⟨between,longer,rest⟩)
    · cases same
      rfl
    · simp only at longer rest
      rw [longer,rest]
      simp
    · simp only at longer rest
      rw [longer,rest]
      simp

theorem beforeLast_length {separator : Char} {text : List Char}
    (some : beforeLast separator text ≠ []) : (beforeLast separator text).length < text.length := by
  have shorter := (List.rdropWhile_prefix (fun c => decide (c ≠ separator)) text).length_le
  have begun : text.rdropWhile (· ≠ separator) ≠ [] := fun empty => some (by rw [beforeLast,empty]; rfl)
  have positive := List.length_pos_iff.mpr begun
  rw [beforeLast,List.length_dropLast]
  omega

theorem intercalate_concat (separator : Char) {upper : List (List Char)} (some : upper ≠ [])
    (last : List Char) : [separator].intercalate (upper ++ [last]) =
      [separator].intercalate upper ++ separator::last := by
  induction upper with
  | nil => contradiction
  | cons first rest ih =>
    cases rest with
    | nil => simp
    | cons second others =>
      have later := ih (List.cons_ne_nil _ _)
      rw [List.cons_append] at later
      simp [later]

/-- The loop that appends a separator to every piece and then takes the last one off. -/
def chain (separator : Char) (pieces : List String) : String :=
  String.ofList (pieces.flatMap fun piece => piece.toList ++ [separator]).dropLast

theorem chain_single (separator : Char) (piece : String) : chain separator [piece] = piece := by
  simp [chain]

theorem chain_cons (separator : Char) (piece : String) {rest : List String} (some : rest ≠ []) :
    (chain separator (piece::rest)).toList = piece.toList ++ separator::(chain separator rest).toList := by
  have held : (rest.flatMap fun piece => piece.toList ++ [separator]) ≠ [] := by
    obtain ⟨next,others,rfl⟩ := List.exists_cons_of_ne_nil some
    simp
  rw [chain,chain,String.toList_ofList,String.toList_ofList,List.flatMap_cons,
    List.dropLast_append_of_ne_nil held]
  simp

theorem tokens_chain {separates : Char → Bool} {separator : Char} (separated : separates separator = true)
    (pieces : List String) :
    tokens separates (chain separator pieces) = pieces.flatMap (tokens separates) := by
  induction pieces with
  | nil => rfl
  | cons piece rest ih =>
    cases rest with
    | nil => rw [chain_single,List.flatMap_singleton]
    | cons next others =>
      rw [tokens_joined separated (chain_cons separator piece (List.cons_ne_nil next others)),ih]
      exact List.flatMap_cons.symm

theorem chain_concat (separator : Char) (pieces : List String) (last : String) :
    (chain separator (pieces ++ [last])).toList =
      (pieces.map fun piece => piece.toList ++ [separator]).flatten ++ last.toList := by
  rw [chain,String.toList_ofList,List.flatMap_append,List.flatMap_singleton,← List.append_assoc,
    List.dropLast_concat]
  rfl

theorem split_chain (separator : Char) (pieces : List String) {last : String} (some : last ≠ "")
    (plain : ∀ piece ∈ pieces, separator ∉ piece.toList) (alsoPlain : separator ∉ last.toList) :
    split (· == separator) (chain separator (pieces ++ [last])) = pieces ++ [last] :=
  split_joined separator pieces last some plain alsoPlain (chain_concat separator pieces last)

def digits (text : List Char) : Bool := !text.isEmpty && text.all Char.isDigit

def number (text : List Char) : ℕ := text.foldl (fun read c => 10*read+(c.toNat-48)) 0

example : split (· == ',') ",10000,,0,," = ["","10000","","0"] := by decide +kernel

end YzFramework.Library.Text
