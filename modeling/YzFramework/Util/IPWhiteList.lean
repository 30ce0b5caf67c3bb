import YzFramework.Library.Glob
import YzFramework.Library.Text

/-! The white list of `NetUtils.isMatchIPByPattern`. Expressions that are not made of plain
characters, escaped dots and `.*` are left to `other`. -/
namespace YzFramework.Util.IPWhiteList
open Library

def octet (part : List Char) : Bool :=
  Text.digits part && decide (part.length ≤ 3) && decide (Text.number part ≤ 255)

/-- `IPV4_PATTERN` matches the whole text. -/
def isIPv4Host (host : List Char) : Bool :=
  let parts := host.splitOnP (· == '.')
  parts.length == 4 && parts.all octet

variable (other : List Char → List Char → Bool)

/-- A syntax error is logged and the item passed over. -/
def find (regex text : List Char) : Bool :=
  match Glob.compile regex with
  | some tokens => Glob.find tokens text
  | none => other regex text

def isMatchItem (localIP ips : List Char) : Bool :=
  if '*' ∈ ips then
    find other (Search.replace ['*'] ['.','*'] (Search.replace ['.'] ['\\','.'] (Text.trim ips))) localIP
  else if !isIPv4Host ips then find other (Search.replace ['.'] ['\\','.'] (Text.trim ips)) localIP
  else ips == localIP

def isMatchIPByPattern (whiteList localIP : List Char) : Bool :=
  if Text.isBlank (String.ofList whiteList) then false
  else if whiteList = ['*'] then true
  else ((whiteList.map fun c => if c = ',' then ';' else c).splitOnP (· == ';')).any
    (isMatchItem other localIP)

structure Item where
  before : List Char
  core : List Char
  after : List Char
  blanks : ∀ c ∈ before ++ after, c ≤ ' '
  written : isIPv4Host core = true ∨
    '*' ∈ core ∧ ∀ c ∈ core, c.isDigit = true ∨ c = '.' ∨ c = '*'

inductive Separator where
  | comma
  | semicolon

def Separator.char : Separator → Char
  | .comma => ','
  | .semicolon => ';'

namespace Item

def text (item : Item) : List Char := item.before ++ item.core ++ item.after

/-- The item is the address, or a pattern for the whole of it. -/
def Lists (item : Item) (address : List Char) : Prop :=
  item.core = address ∨ '*' ∈ item.core ∧ Glob.glob item.core address = true

/-- A pattern, or an address with blanks around it, that stands for a part of the address only. -/
def Part (item : Item) (address : List Char) : Prop :=
  ('*' ∈ item.core ∨ item.before ++ item.after ≠ []) ∧
    ∃ part, part <:+: address ∧ part ≠ address ∧ Glob.glob item.core part = true

end Item

def whiteList (front : List (Item × Separator)) (last : Item) : List Char :=
  (front.flatMap fun item => item.1.text ++ [item.2.char]) ++ last.text

def items (front : List (Item × Separator)) (last : Item) : List Item := front.map Prod.fst ++ [last]

theorem isIPv4Host_letters {host : List Char} (ip : isIPv4Host host = true) :
    host ≠ [] ∧ ∀ c ∈ host, c.isDigit = true ∨ c = '.' := by
  rw [isIPv4Host,Bool.and_eq_true,beq_iff_eq,List.all_eq_true] at ip
  constructor
  · rintro rfl
    exact absurd ip.1 (by decide)
  · intro c inside
    rcases @Text.mem_splitOnP (· == '.') host c inside with separated | ⟨part,listed,member⟩
    · exact .inr (beq_iff_eq.mp separated)
    · have digits := ip.2 part listed
      simp only [octet,Text.digits,Bool.and_eq_true,List.all_eq_true] at digits
      exact .inl (digits.1.1.2 c member)

theorem core_letters (item : Item) : item.core ≠ [] ∧
    ∀ c ∈ item.core, c.isDigit = true ∨ c = '.' ∨ c = '*' := by
  rcases item.written with ip | ⟨star,letters⟩
  · obtain ⟨some,letters⟩ := isIPv4Host_letters ip
    exact ⟨some,fun c inside => (letters c inside).imp_right .inl⟩
  · exact ⟨List.ne_nil_of_mem star,letters⟩

theorem letter_range {c : Char} (letter : c.isDigit = true ∨ c = '.' ∨ c = '*') :
    42 ≤ c.toNat ∧ c.toNat ≤ 57 := by
  rcases letter with digit | rfl | rfl
  · rw [Char.isDigit,Bool.and_eq_true,decide_eq_true_eq,decide_eq_true_eq] at digit
    have low : 48 ≤ c.toNat := UInt32.le_iff_toNat_le.mp digit.1
    have high : c.toNat ≤ 57 := UInt32.le_iff_toNat_le.mp digit.2
    omega
  · decide
  · decide

theorem blank_range {c : Char} (blank : c ≤ ' ') : c.toNat ≤ 32 := UInt32.le_iff_toNat_le.mp blank

theorem trim_text (item : Item) : Text.trim item.text = item.core := by
  obtain ⟨some,letters⟩ := core_letters item
  apply Text.trim_padded some item.blanks
  intro c inside blank
  have range := letter_range (letters c inside)
  have low := blank_range blank
  omega

theorem text_letters (item : Item) {c : Char} (inside : c ∈ item.text) :
    c ≤ ' ' ∨ (c.isDigit = true ∨ c = '.' ∨ c = '*') ∧ c ∈ item.core := by
  rw [Item.text,List.append_assoc,List.mem_append,List.mem_append] at inside
  rcases inside with front | middle | back
  · exact .inl (item.blanks c (List.mem_append_left _ front))
  · exact .inr ⟨(core_letters item).2 c middle,middle⟩
  · exact .inl (item.blanks c (List.mem_append_right _ back))

theorem text_plain (item : Item) : ',' ∉ item.text ∧ ';' ∉ item.text := by
  constructor <;>
    · intro inside
      rcases text_letters item inside with blank | ⟨letter,_⟩
      · exact absurd blank (by decide)
      · exact absurd letter (by decide)

private theorem star_text (item : Item) : '*' ∈ item.text ↔ '*' ∈ item.core := by
  constructor
  · intro inside
    rcases text_letters item inside with blank | ⟨_,middle⟩
    · exact absurd blank (by decide)
    · exact middle
  · intro inside
    rw [Item.text]
    simp [inside]

theorem find_core (item : Item) {address : List Char} (ip : isIPv4Host address = true) :
    find other (Glob.regex item.core) address = true ↔
      ∃ part, part <:+: address ∧ Glob.glob item.core part = true := by
  have simple : ∀ c ∈ item.core, Glob.plain c = true ∨ c = '.' ∨ c = '*' := fun c inside =>
    ((core_letters item).2 c inside).imp_left fun digit => by
      simp [Glob.plain,Char.isAlphanum,digit]
  have line : ∀ c ∈ address, Glob.terminator c = false := by
    intro c inside
    have range := letter_range (((isIPv4Host_letters ip).2 c inside).imp_right Or.inl)
    simp only [Glob.terminator,Bool.or_eq_false_iff,beq_eq_false_iff_ne]
    refine ⟨⟨⟨⟨?_,?_⟩,?_⟩,?_⟩,?_⟩ <;>
      · rintro rfl
        revert range
        decide
  rw [find,Glob.compile_regex item.core simple]
  exact Glob.find_tokens item.core line

theorem found_iff {item : Item} {address : List Char} (ip : isIPv4Host address = true)
    (searched : '*' ∈ item.core ∨ item.before ++ item.after ≠ []) :
    (∃ part, part <:+: address ∧ Glob.glob item.core part = true) ↔
      item.Lists address ∨ item.Part address := by
  constructor
  · rintro ⟨part,inside,matched⟩
    by_cases whole : part = address
    · subst whole
      by_cases star : '*' ∈ item.core
      · exact .inl (.inr ⟨star,matched⟩)
      · exact .inl (.inl ((Glob.glob_plain star part).mp matched))
    · exact .inr ⟨searched,part,inside,whole,matched⟩
  · rintro ((same | ⟨_,matched⟩) | ⟨_,part,inside,_,matched⟩)
    · have plain : '*' ∉ item.core := by
        rw [same]
        intro inside
        rcases (isIPv4Host_letters ip).2 '*' inside with digit | dot
        · exact absurd digit (by decide)
        · exact absurd dot (by decide)
      exact ⟨address,List.infix_rfl,(Glob.glob_plain plain address).mpr same⟩
    · exact ⟨address,List.infix_rfl,matched⟩
    · exact ⟨part,inside,matched⟩

theorem padded_text {item : Item} (padded : item.before ++ item.after ≠ []) :
    isIPv4Host item.text = false := by
  apply eq_false_of_ne_true
  intro ip
  obtain ⟨c,inside⟩ := List.exists_mem_of_ne_nil _ padded
  have listed : c ∈ item.text := by
    rw [Item.text]
    rcases List.mem_append.mp inside with front | back
    · simp [front]
    · simp [back]
  have range := letter_range (((isIPv4Host_letters ip).2 c listed).imp_right Or.inl)
  have low := blank_range (item.blanks c inside)
  omega

theorem isMatchItem_text (item : Item) {address : List Char} (ip : isIPv4Host address = true) :
    isMatchItem other address item.text = true ↔ item.Lists address ∨ item.Part address := by
  rw [isMatchItem,trim_text]
  by_cases star : '*' ∈ item.core
  · rw [if_pos ((star_text item).mpr star)]
    exact (find_core other item ip).trans (found_iff ip (.inl star))
  · rw [if_neg fun inside => star ((star_text item).mp inside)]
    by_cases padded : item.before ++ item.after = []
    · obtain ⟨front,back⟩ := List.append_eq_nil_iff.mp padded
      have text : item.text = item.core := by rw [Item.text,front,back,List.nil_append,List.append_nil]
      have host : isIPv4Host item.core = true := item.written.resolve_right fun both => star both.1
      rw [text,host,Bool.not_true,if_neg Bool.false_ne_true,beq_iff_eq]
      constructor
      · exact fun same => .inl (.inl same)
      · rintro ((same | ⟨inside,_⟩) | ⟨searched,_⟩)
        · exact same
        · exact absurd inside star
        · exact absurd padded (searched.resolve_left star)
    · have regex : Search.replace ['.'] ['\\','.'] item.core = Glob.regex item.core := by
        refine (Search.replace_none (fun inside => ?_) _).symm
        rcases Search.mem_replaceFrom ((List.singleton_infix_iff _ _).mp inside) with put | held
        · exact absurd put (by decide)
        · exact star held
      rw [padded_text padded,Bool.not_false,if_pos rfl,regex]
      exact (find_core other item ip).trans (found_iff ip (.inr padded))

theorem items_split (front : List (Item × Separator)) (last : Item) :
    ((whiteList front last).map fun c => if c = ',' then ';' else c).splitOnP (· == ';') =
      (items front last).map Item.text := by
  have kept : ∀ item : Item, item.text.map (fun c => if c = ',' then ';' else c) = item.text := by
    intro item
    refine (List.map_congr_left fun c inside => if_neg fun same => ?_).trans (List.map_id _)
    exact (text_plain item).1 (same ▸ inside)
  have plain : ∀ item : Item, ∀ c ∈ item.text, (c == ';') = false := fun item c inside =>
    beq_eq_false_iff_ne.mpr fun same => (text_plain item).2 (same ▸ inside)
  induction front with
  | nil =>
    rw [whiteList,List.flatMap_nil,List.nil_append,kept,List.splitOnP_eq_singleton (plain last)]
    rfl
  | cons first rest ih =>
    obtain ⟨item,separator⟩ := first
    have joined : whiteList ((item,separator)::rest) last =
        item.text ++ separator.char::whiteList rest last := by simp [whiteList]
    have mark : (if separator.char = ',' then ';' else separator.char) = ';' := by cases separator <;> rfl
    rw [joined,List.map_append,List.map_cons,kept,mark,
      List.splitOnP_append_cons_of_forall_mem (plain item) ';' rfl,ih]
    rfl

theorem whiteList_shown (front : List (Item × Separator)) (last : Item) :
    Text.isBlank (String.ofList (whiteList front last)) = false := by
  obtain ⟨some,letters⟩ := core_letters last
  obtain ⟨c,inside⟩ := List.exists_mem_of_ne_nil _ some
  have range := letter_range (letters c inside)
  have listed : c ∈ whiteList front last := by simp [whiteList,Item.text,inside]
  have shown : Text.isWhitespace c = false := by
    simp only [Text.isWhitespace,Bool.or_eq_false_iff,Bool.and_eq_false_iff,decide_eq_false_iff_not,
      beq_eq_false_iff_ne]
    omega
  apply eq_false_of_ne_true
  intro blank
  rw [Text.isBlank,String.toList_ofList] at blank
  rw [List.all_eq_true.mp blank c listed] at shown
  cases shown

private theorem lists_star {item : Item} (text : item.text = ['*']) (address : List Char) :
    item.Lists address := by
  have core : item.core = ['*'] := by
    rw [← trim_text item,text]
    decide
  refine .inr ⟨core ▸ List.mem_singleton_self _,?_⟩
  rw [core,Glob.glob_star]
  exact ⟨[],List.nil_suffix,rfl⟩

theorem isMatchIPByPattern_items (front : List (Item × Separator)) (last : Item) {address : List Char}
    (ip : isIPv4Host address = true) :
    isMatchIPByPattern other (whiteList front last) address = true ↔
      ∃ item ∈ items front last, item.Lists address ∨ item.Part address := by
  have pieces := items_split front last
  rw [isMatchIPByPattern,if_neg (by rw [whiteList_shown]; exact Bool.false_ne_true)]
  split
  next whole =>
    rw [whole] at pieces
    have star : ['*'] ∈ (items front last).map Item.text := by
      rw [← pieces]
      decide
    obtain ⟨item,listed,text⟩ := List.mem_map.mp star
    exact ⟨fun _ => ⟨item,listed,.inl (lists_star text address)⟩,fun _ => rfl⟩
  next =>
    rw [pieces,List.any_map,List.any_eq_true]
    simp only [Function.comp_apply,isMatchItem_text other _ ip]

/-- The white list lets in what it lists unless an unanchored search finds more: a part of
the address, for a pattern or an item with blanks, while no item lists the address. -/
theorem isMatchIPByPattern_iff (front : List (Item × Separator)) (last : Item) {address : List Char}
    (ip : isIPv4Host address = true) :
    (isMatchIPByPattern other (whiteList front last) address = true ↔
      ∃ item ∈ items front last, item.Lists address) ↔
    ((∃ item ∈ items front last, item.Part address) → ∃ item ∈ items front last, item.Lists address) := by
  rw [isMatchIPByPattern_items other front last ip]
  constructor
  · rintro right ⟨item,listed,part⟩
    exact right.mp ⟨item,listed,.inr part⟩
  · intro covered
    constructor
    · rintro ⟨item,listed,lists | part⟩
      · exact ⟨item,listed,lists⟩
      · exact covered ⟨item,listed,part⟩
    · rintro ⟨item,listed,lists⟩
      exact ⟨item,listed,.inl lists⟩

def wildcard : Item where
  before := []
  core := "10.0.*".toList
  after := []
  blanks := nofun
  written := by
    have letters : "10.0.*".toList.all (fun c => c.isDigit || c == '.' || c == '*') = true := by decide +kernel
    refine .inr ⟨by decide +kernel,fun c inside => ?_⟩
    simpa [or_assoc] using List.all_eq_true.mp letters c inside

theorem isMatchIPByPattern_iff_sample :
    (isMatchIPByPattern (fun _ _ => false) (whiteList [] wildcard) "10.0.0.1".toList = true ↔
      ∃ item ∈ items [] wildcard, item.Lists "10.0.0.1".toList) ↔
    ((∃ item ∈ items [] wildcard, item.Part "10.0.0.1".toList) →
      ∃ item ∈ items [] wildcard, item.Lists "10.0.0.1".toList) :=
  isMatchIPByPattern_iff _ [] wildcard (by decide +kernel)

def padded : Item where
  before := [' ']
  core := "10.0.0.1".toList
  after := []
  blanks := by
    intro c inside
    obtain rfl := List.mem_singleton.mp inside
    exact Char.le_refl _
  written := .inl (by decide +kernel)

/-- A pattern that stands for the end of an address, and an address with a blank that
stands for it. -/
theorem isMatchIPByPattern_part :
    let address := "110.0.0.1".toList
    isIPv4Host address = true ∧
    isMatchIPByPattern (fun _ _ => false) (whiteList [] wildcard) address = true ∧
    ¬ wildcard.Lists address ∧
    isMatchIPByPattern (fun _ _ => false) (whiteList [] padded) address = true ∧
    ¬ padded.Lists address := by
  refine ⟨by decide +kernel,by decide +kernel,?_,by decide +kernel,?_⟩
  · rintro (same | ⟨_,matched⟩)
    · exact absurd same (by decide +kernel)
    · exact absurd matched (by decide +kernel)
  · rintro (same | ⟨star,_⟩)
    · exact absurd same (by decide +kernel)
    · exact absurd star (by decide +kernel)

end YzFramework.Util.IPWhiteList
