import YzFramework.Http.CookieHttpSessionStrategy
import YzFramework.Library.UrlEncoding
import Mathlib.Tactic.Tauto

/-! Links that carry a session alias: what `CookieHttpSessionStrategy.encodeURL` writes and
which alias a request for such a link selects. The parameter's name is made of word
characters, so that the regular expression reads it as it is; `decode` is how the servlet
container reads a name or a value, `none` where it passes the part over. -/
namespace YzFramework.Http
open Library

structure ParameterName (text : String) : Prop where
  some : text ≠ ""
  word : ∀ c ∈ text.toList, wordChar c = true

/-- Word characters and hyphens stand for themselves. -/
def Decodes (decode : String → Option String) : Prop :=
  ∀ text : String, (∀ c ∈ text.toList, (wordChar c || c == '-') = true) → decode text = some text

section
variable (decode : String → Option String)

/-- The container's reading of one part of a query: a part without `=` has an empty value. -/
def parameterOf (part : List Char) : Option (String × String) :=
  if part.isEmpty then none
  else do
    let name ← decode (String.ofList (part.takeWhile (· ≠ '=')))
    let value ← decode (String.ofList (part.dropWhile (· ≠ '=')).tail)
    some (name,value)

def queryOf (url : List Char) : List Char := ((url.takeWhile (· ≠ '#')).dropWhile (· ≠ '?')).tail

def given (parts : List (List Char)) (name : String) : Option String :=
  (parts.filterMap (parameterOf decode)).lookup name

/-- `getParameter` of a request for a link: the first value under a name. -/
def getParameter (url name : String) : Option String := given decode ((queryOf url.toList).splitOn '&') name

end

/-- The part starts with the parameter and an equals sign. -/
def assigns (key part : List Char) : Bool := (key ++ ['=']).isPrefixOf part

/-- What is left from a part on that matches: the first group is the ampersand in front of
the part, which belongs to the match, and the assignment. -/
def replaceHit (key : List Char) (replacement : Option (List Char)) (first : Bool) (rest : List (List Char)) :
    List (List Char) :=
  match replacement with
  | some encodedSessionAlias => (key ++ '='::encodedSessionAlias)::rest
  | none => if first then []::rest else rest

/-- `((^|&)_s=)([^&]+)?` replaced in the first part it matches: by its first group and the
alias, or by nothing. -/
def replaceIn (key : List Char) (replacement : Option (List Char)) : Bool → List (List Char) → List (List Char)
  | _, [] => []
  | first, part::rest =>
    if assigns key part then replaceHit key replacement first rest
    else part::replaceIn key replacement false rest

def replaceFirst (key : List Char) (replacement : Option (List Char)) (query : List Char) : List Char :=
  ['&'].intercalate (replaceIn key replacement true (query.splitOn '&'))

def splitUrl (url : List Char) : Option (List Char × List Char) :=
  if '?' ∈ url then some (url.takeWhile (· ≠ '?'),(url.dropWhile (· ≠ '?')).tail) else none

def appendAlias (query assignment : List Char) : List Char :=
  if query.getLast? = some '&' ∨ query = [] then query ++ assignment else query ++ '&'::assignment

namespace CookieHttpSessionStrategy

variable (strategy : CookieHttpSessionStrategy)

def encodeURL (url sessionAlias : String) : String :=
  let encodedSessionAlias := UrlCodec.utf8.encode sessionAlias
  let isDefaultAlias : Bool := encodedSessionAlias == DEFAULT_ALIAS
  let key := (strategy.sessionParam.getD "null").toList
  let assignment := key ++ '='::encodedSessionAlias.toList
  match splitUrl url.toList with
  | none => if isDefaultAlias then url else String.ofList (url.toList ++ '?'::assignment)
  | some (path,query) =>
    let query := replaceFirst key (if isDefaultAlias then none else some encodedSessionAlias.toList) query
    -- no existing alias
    let query := if !isDefaultAlias && query.isSuffixOf url.toList then appendAlias query assignment else query
    String.ofList (path ++ '?'::query)

end CookieHttpSessionStrategy

private theorem aliasChar_lt {c : Char} (inside : (wordChar c || c == '-') = true) : c.toNat < 128 := by
  change (((decide ('A'.val ≤ c.val ∧ c.val ≤ 'Z'.val) || (decide ('a'.val ≤ c.val) && decide (c.val ≤ 'z'.val))) ||
    (decide ('0'.val ≤ c.val) && decide (c.val ≤ '9'.val)) || c == '_') || c == '-') = true at inside
  simp only [Bool.or_eq_true,Bool.and_eq_true,decide_eq_true_eq,beq_iff_eq] at inside
  rcases inside with ((((upper | lower) | digit)) | rfl) | rfl
  · exact lt_of_le_of_lt (UInt32.le_iff_toNat_le.mp upper.2) (by decide)
  · exact lt_of_le_of_lt (UInt32.le_iff_toNat_le.mp lower.2) (by decide)
  · exact lt_of_le_of_lt (UInt32.le_iff_toNat_le.mp digit.2) (by decide)
  · decide
  · decide

/-- Word characters and hyphens are written as they are. -/
theorem encode_aliasChars {text : String} (inside : ∀ c ∈ text.toList, (wordChar c || c == '-') = true) :
    UrlCodec.utf8.encode text = text := by
  have table : ∀ n : Fin 128, (wordChar (Char.ofNat n) || Char.ofNat n == '-') = true →
      (String.utf8EncodeChar (Char.ofNat n)).flatMap UrlCodec.encodeByte = [Char.ofNat n] := by
    decide +kernel
  have each : ∀ c ∈ text.toList, (String.utf8EncodeChar c).flatMap UrlCodec.encodeByte = [c] := by
    intro c member
    have found := table ⟨c.toNat,aliasChar_lt (inside c member)⟩
    rw [Char.ofNat_toNat] at found
    exact found (inside c member)
  change String.ofList ((text.toList.flatMap String.utf8EncodeChar).flatMap UrlCodec.encodeByte) = text
  rw [List.flatMap_assoc,List.flatMap_congr each,List.flatMap_singleton',String.ofList_toList]

theorem pattern_chars {sessionAlias : String} (valid : ALIAS_PATTERN sessionAlias = true) :
    ∀ c ∈ sessionAlias.toList, (wordChar c || c == '-') = true := by
  simp only [ALIAS_PATTERN,Bool.and_eq_true,decide_eq_true_eq] at valid
  exact fun c inside => List.all_eq_true.mp valid.2 c inside

theorem encode_pattern {sessionAlias : String} (valid : ALIAS_PATTERN sessionAlias = true) :
    UrlCodec.utf8.encode sessionAlias = sessionAlias := encode_aliasChars (pattern_chars valid)

private theorem decodes_utf8 : Decodes UrlCodec.utf8.decode := by
  intro text inside
  have back := UrlCodec.utf8.inverts text
  rwa [encode_aliasChars inside] at back

theorem given_append (decode : String → Option String) (first second : List (List Char)) (name : String) :
    given decode (first ++ second) name = (given decode first name).or (given decode second name) := by
  rw [given,List.filterMap_append,List.lookup_append]
  rfl

theorem cut_at {separator : Char} {before : List Char} (plain : separator ∉ before) (after : List Char) :
    (before ++ separator::after).takeWhile (· ≠ separator) = before ∧
      (before ++ separator::after).dropWhile (· ≠ separator) = separator::after := by
  have apart : ∀ c ∈ before, decide (c ≠ separator) = true := fun c inside =>
    decide_eq_true fun same => plain (same ▸ inside)
  rw [List.takeWhile_append_of_pos apart,List.dropWhile_append_of_pos apart]
  simp

section
variable {decode : String → Option String} {sessionParam sessionAlias : String}

theorem param_plain (named : ParameterName sessionParam) {c : Char} (other : wordChar c = false) :
    c ∉ sessionParam.toList :=
  fun inside => absurd (named.word c inside) (by rw [other]; decide)

variable (decodes : Decodes decode) (word : ParameterName sessionParam) (valid : ALIAS_PATTERN sessionAlias = true)
include decodes word valid

theorem parameterOf_assignment :
    parameterOf decode (sessionParam.toList ++ '='::(UrlCodec.utf8.encode sessionAlias).toList) =
      some (sessionParam,sessionAlias) := by
  obtain ⟨before,after⟩ := cut_at (param_plain word (c := '=') (by decide))
    (UrlCodec.utf8.encode sessionAlias).toList
  have name : decode sessionParam = some sessionParam :=
    decodes sessionParam fun c inside => by rw [word.word c inside]; rfl
  have value : decode (UrlCodec.utf8.encode sessionAlias) = some sessionAlias := by
    rw [encode_pattern valid]
    exact decodes sessionAlias (pattern_chars valid)
  have some : (sessionParam.toList ++ '='::(UrlCodec.utf8.encode sessionAlias).toList).isEmpty = false := by simp
  rw [parameterOf,some,before,after,List.tail_cons,String.ofList_toList,String.ofList_toList,name,
    value]
  rfl

theorem given_assignment (rest : List (List Char)) :
    given decode ((sessionParam.toList ++ '='::(UrlCodec.utf8.encode sessionAlias).toList)::rest) sessionParam =
      some sessionAlias := by
  rw [given,List.filterMap_cons_some (parameterOf_assignment decodes word valid)]
  simp

/-- The first part that gave the parameter gives the alias now; parts before it that are
read as the parameter under another spelling go first. -/
theorem given_replaced (first : Bool) (parts : List (List Char)) :
    given decode (replaceIn sessionParam.toList (some (UrlCodec.utf8.encode sessionAlias).toList) first parts) sessionParam =
      (given decode (parts.takeWhile fun part => !assigns sessionParam.toList part) sessionParam).or
        (if parts.any (assigns sessionParam.toList) then some sessionAlias else none) := by
  induction parts generalizing first with
  | nil => rfl
  | cons part rest ih =>
    rw [replaceIn,List.takeWhile_cons,List.any_cons]
    cases hit : assigns sessionParam.toList part with
    | true =>
      rw [if_pos rfl]
      exact given_assignment decodes word valid rest
    | false =>
      rw [if_neg (by decide),Bool.not_false,if_pos rfl,Bool.false_or]
      change given decode ([part] ++ _) _ = (given decode ([part] ++ _) _).or _
      rw [given_append,given_append,ih,Option.or_assoc]

omit decodes word valid in
theorem given_removed (key : List Char) (first : Bool) (parts : List (List Char)) (name : String) :
    given decode (replaceIn key none first parts) name = given decode (parts.eraseP (assigns key)) name := by
  induction parts generalizing first with
  | nil => rfl
  | cons part rest ih =>
    rw [replaceIn,List.eraseP_cons]
    cases hit : assigns key part with
    | true => cases first <;> rfl
    | false =>
      rw [if_neg (by decide)]
      change given decode ([part] ++ _) _ = given decode ([part] ++ _) _
      rw [given_append,given_append,ih]

theorem given_appended (query : List Char) :
    given decode ((appendAlias query (sessionParam.toList ++ '='::(UrlCodec.utf8.encode sessionAlias).toList)).splitOn '&')
        sessionParam = (given decode (query.splitOn '&') sessionParam).or (some sessionAlias) := by
  have alone : (sessionParam.toList ++ '='::(UrlCodec.utf8.encode sessionAlias).toList).splitOn '&' =
      [sessionParam.toList ++ '='::(UrlCodec.utf8.encode sessionAlias).toList] := by
    apply List.splitOn_eq_singleton
    rw [List.mem_append,List.mem_cons,not_or,not_or]
    exact ⟨param_plain word (by decide),by decide,(UrlCodec.utf8.clean sessionAlias).1⟩
  unfold appendAlias
  by_cases empty : query = []
  · subst empty
    rw [if_pos (Or.inr rfl),List.nil_append,alone,given_assignment decodes word valid]
    rfl
  by_cases ended : query.getLast? = some '&'
  · obtain ⟨before,rfl⟩ : ∃ before, query = before ++ ['&'] := by
      have last := List.dropLast_append_getLast? _ ended
      exact ⟨query.dropLast,last.symm⟩
    rw [if_pos (Or.inl ended),List.append_assoc,List.cons_append,List.nil_append,List.splitOn_append_cons_self,
      List.splitOn_append_cons_self,given_append,given_append,alone,given_assignment decodes word valid,Option.or_assoc]
    rfl
  · rw [if_neg (by tauto),List.splitOn_append_cons_self,given_append,alone,given_assignment decodes word valid]

end

theorem replaceIn_none_hit {key : List Char} {parts : List (List Char)} (replacement : Option (List Char))
    (first : Bool) (none : parts.any (assigns key) = false) : replaceIn key replacement first parts = parts := by
  induction parts generalizing first with
  | nil => rfl
  | cons part rest ih =>
    rw [List.any_cons,Bool.or_eq_false_iff] at none
    rw [replaceIn,if_neg (by rw [none.1]; decide),ih false none.2]

theorem replaceIn_clean {key : List Char} {replacement : Option (List Char)} {c : Char} (inKey : c ∉ key)
    (sign : c ≠ '=') (inAlias : ∀ text, replacement = some text → c ∉ text) {parts : List (List Char)} (first : Bool)
    (clean : ∀ part ∈ parts, c ∉ part) : ∀ part ∈ replaceIn key replacement first parts, c ∉ part := by
  induction parts generalizing first with
  | nil => exact clean
  | cons part rest ih =>
    obtain ⟨here,later⟩ := List.forall_mem_cons.mp clean
    rw [replaceIn]
    split
    next =>
      cases replacement with
      | none =>
        cases first with
        | true => exact List.forall_mem_cons.mpr ⟨List.not_mem_nil,later⟩
        | false => exact later
      | some text =>
        refine List.forall_mem_cons.mpr ⟨?_,later⟩
        rw [List.mem_append,List.mem_cons,not_or,not_or]
        exact ⟨inKey,sign,inAlias text rfl⟩
    next => exact List.forall_mem_cons.mpr ⟨here,ih false later⟩

theorem replaceIn_ne_nil {key : List Char} {replacement : Option (List Char)} {parts : List (List Char)}
    (some : parts ≠ []) : replaceIn key replacement true parts ≠ [] := by
  cases parts with
  | nil => exact absurd rfl some
  | cons part rest =>
    rw [replaceIn]
    split
    · cases replacement <;> exact List.cons_ne_nil _ _
    · exact List.cons_ne_nil _ _

private theorem splitOn_replaceFirst {key : List Char} {replacement : Option (List Char)} (inKey : '&' ∉ key)
    (inAlias : ∀ text, replacement = some text → '&' ∉ text) (query : List Char) :
    (replaceFirst key replacement query).splitOn '&' = replaceIn key replacement true (query.splitOn '&') := by
  apply List.splitOn_intercalate
  · apply replaceIn_clean inKey (by decide) inAlias
    intro part inside
    rw [List.splitOn_eq_splitOnP] at inside
    exact Text.plain_iff.mp fun c member => (Text.splitOnP_plain query part inside c member).1
  · exact replaceIn_ne_nil (List.splitOn_ne_nil _ _)

private theorem mem_intercalate {x c : Char} {parts : List (List Char)} (inside : c ∈ [x].intercalate parts) :
    c = x ∨ ∃ part ∈ parts, c ∈ part := by
  induction parts with
  | nil => cases inside
  | cons part rest ih =>
    cases rest with
    | nil => exact Or.inr ⟨part,List.mem_singleton_self part,by simpa using inside⟩
    | cons next others =>
      rw [List.intercalate_cons_cons,List.append_assoc,List.mem_append,List.singleton_append,List.mem_cons] at inside
      rcases inside with here | same | later
      · exact Or.inr ⟨part,List.mem_cons_self,here⟩
      · exact Or.inl same
      · rcases ih later with same | ⟨other,listed,held⟩
        · exact Or.inl same
        · exact Or.inr ⟨other,List.mem_cons_of_mem _ listed,held⟩

theorem replaceFirst_clean {key query : List Char} {replacement : Option (List Char)} {c : Char} (inKey : c ∉ key)
    (signs : c ≠ '=' ∧ c ≠ '&') (inAlias : ∀ text, replacement = some text → c ∉ text) (clean : c ∉ query) :
    c ∉ replaceFirst key replacement query := by
  intro inside
  rcases mem_intercalate inside with same | ⟨part,listed,held⟩
  · exact signs.2 same
  · refine replaceIn_clean inKey signs.1 inAlias true ?_ part listed held
    intro part inside member
    rw [List.splitOn_eq_splitOnP] at inside
    exact clean (Text.splitOnP_plain query part inside c member).2

theorem splitUrl_some {url path query : List Char} (split : splitUrl url = some (path,query)) :
    url = path ++ '?'::query ∧ '?' ∉ path := by
  unfold splitUrl at split
  split at split
  next inside =>
    obtain ⟨before,after,rfl,plain⟩ := List.eq_append_cons_of_mem inside
    obtain ⟨left,right⟩ := cut_at plain after
    rw [left,right,List.tail_cons,Option.some.injEq,Prod.mk.injEq] at split
    obtain ⟨rfl,rfl⟩ := split
    exact ⟨rfl,plain⟩
  next => cases split

theorem queryOf_split {path query : List Char} (noQuery : '?' ∉ path) (plainPath : '#' ∉ path)
    (plainQuery : '#' ∉ query) : queryOf (path ++ '?'::query) = query := by
  have whole : (path ++ '?'::query).takeWhile (· ≠ '#') = path ++ '?'::query := by
    rw [List.takeWhile_eq_self_iff]
    intro c inside
    apply decide_eq_true
    rintro rfl
    rcases List.mem_append.mp inside with left | right
    · exact plainPath left
    · exact (List.mem_cons.mp right).elim (by decide) plainQuery
  rw [queryOf,whole,(cut_at noQuery query).2,List.tail_cons]

theorem queryOf_none {url : List Char} (noQuery : '?' ∉ url) : queryOf url = [] := by
  have none : (url.takeWhile (· ≠ '#')).dropWhile (· ≠ '?') = [] := by
    rw [List.dropWhile_eq_nil_iff]
    intro c inside
    apply decide_eq_true
    rintro rfl
    exact noQuery (List.takeWhile_subset _ inside)
  rw [queryOf,none,List.tail_nil]

theorem appendAlias_clean {query assignment : List Char} {c : Char} (clean : c ∉ query) (sign : c ≠ '&')
    (assigned : c ∉ assignment) : c ∉ appendAlias query assignment := by
  unfold appendAlias
  split
  · exact fun inside => (List.mem_append.mp inside).elim clean assigned
  · intro inside
    rcases List.mem_append.mp inside with before | after
    · exact clean before
    · exact (List.mem_cons.mp after).elim sign assigned

namespace CookieHttpSessionStrategy

variable {strategy : CookieHttpSessionStrategy} {decode : String → Option String}
  {sessionParam sessionAlias url : String}

section
variable (configured : strategy.sessionParam = some sessionParam) (word : ParameterName sessionParam) (plain : '#' ∉ url.toList)
include configured word plain

/-- Behind a link for the default alias the first assignment of the parameter is gone. -/
theorem getParameter_default : getParameter decode (strategy.encodeURL url DEFAULT_ALIAS) sessionParam =
    given decode (((queryOf url.toList).splitOn '&').eraseP (assigns sessionParam.toList)) sessionParam := by
  have default : UrlCodec.utf8.encode DEFAULT_ALIAS = DEFAULT_ALIAS := encode_pattern (by decide)
  have noHash : '#' ∉ sessionParam.toList := param_plain word (by decide)
  have noAmpersand : '&' ∉ sessionParam.toList := param_plain word (by decide)
  unfold encodeURL getParameter
  simp only [configured,default,beq_self_eq_true,Option.getD_some,if_true,Bool.not_true,Bool.false_and]
  cases split : splitUrl url.toList with
  | none =>
    have none : '?' ∉ url.toList := fun inside => by
      rw [splitUrl,if_pos inside] at split
      cases split
    have miss : assigns sessionParam.toList [] = false := by
      rw [assigns]
      cases sessionParam.toList <;> rfl
    rw [queryOf_none none,List.splitOn_nil,List.eraseP_cons,miss]
    rfl
  | some pair =>
    obtain ⟨path,query⟩ := pair
    obtain ⟨shape,noQuery⟩ := splitUrl_some split
    rw [shape,List.mem_append,List.mem_cons,not_or,not_or] at plain
    have clean : '#' ∉ replaceFirst sessionParam.toList none query :=
      replaceFirst_clean noHash (by decide) (by simp) plain.2.2
    dsimp only
    rw [if_neg (by decide),String.toList_ofList,queryOf_split noQuery plain.1 clean,
      splitOn_replaceFirst noAmpersand (by simp),given_removed,shape,queryOf_split noQuery plain.1 plain.2.2]

/-- Behind a link for another alias the parameter is the alias, unless a part in front of
the assignment is read as the parameter under another spelling. -/
theorem getParameter_other (decodes : Decodes decode) (valid : ALIAS_PATTERN sessionAlias = true) (other : sessionAlias ≠ DEFAULT_ALIAS) :
    getParameter decode (strategy.encodeURL url sessionAlias) sessionParam =
      (given decode (((queryOf url.toList).splitOn '&').takeWhile fun part => !assigns sessionParam.toList part)
        sessionParam).or (some sessionAlias) := by
  have named : (UrlCodec.utf8.encode sessionAlias == DEFAULT_ALIAS) = false := by
    rw [encode_pattern valid]
    exact beq_eq_false_iff_ne.mpr other
  have noHash : '#' ∉ sessionParam.toList := param_plain word (by decide)
  have noAmpersand : '&' ∉ sessionParam.toList := param_plain word (by decide)
  have hash : '#' ∉ (UrlCodec.utf8.encode sessionAlias).toList := by
    rw [encode_pattern valid]
    exact fun inside => absurd (pattern_chars valid '#' inside) (by decide)
  have ampersand := (UrlCodec.utf8.clean sessionAlias).1
  have assigned : '#' ∉ sessionParam.toList ++ '='::(UrlCodec.utf8.encode sessionAlias).toList := by
    rw [List.mem_append,List.mem_cons,not_or,not_or]
    exact ⟨noHash,by decide,hash⟩
  unfold encodeURL getParameter
  simp only [configured,named,Option.getD_some,Bool.not_false,Bool.true_and,Bool.false_eq_true,if_false]
  cases split : splitUrl url.toList with
  | none =>
    have none : '?' ∉ url.toList := fun inside => by
      rw [splitUrl,if_pos inside] at split
      cases split
    have miss : assigns sessionParam.toList [] = false := by
      rw [assigns]
      cases sessionParam.toList <;> rfl
    have appended : given decode ((appendAlias [] (sessionParam.toList ++ '='::(UrlCodec.utf8.encode sessionAlias).toList)).splitOn
        '&') sessionParam = _ := given_appended decodes word valid []
    rw [appendAlias,if_pos (Or.inr rfl),List.nil_append] at appended
    dsimp only
    rw [String.toList_ofList,queryOf_split none plain assigned,appended,queryOf_none none,List.splitOn_nil,
      List.takeWhile_cons,miss]
    rfl
  | some pair =>
    obtain ⟨path,query⟩ := pair
    obtain ⟨shape,noQuery⟩ := splitUrl_some split
    rw [shape,List.mem_append,List.mem_cons,not_or,not_or] at plain
    have clean : '#' ∉ replaceFirst sessionParam.toList (some (UrlCodec.utf8.encode sessionAlias).toList) query :=
      replaceFirst_clean noHash (by decide) (by simpa using hash) plain.2.2
    have parts : (replaceFirst sessionParam.toList (some (UrlCodec.utf8.encode sessionAlias).toList) query).splitOn '&' = _ :=
      splitOn_replaceFirst noAmpersand (by simpa using ampersand) query
    have replaced : given decode (replaceIn sessionParam.toList (some (UrlCodec.utf8.encode sessionAlias).toList) true
        (query.splitOn '&')) sessionParam = _ := given_replaced decodes word valid true _
    rw [← parts] at replaced
    dsimp only
    rw [shape,queryOf_split noQuery plain.1 plain.2.2,String.toList_ofList]
    generalize fresh : replaceFirst sessionParam.toList (some (UrlCodec.utf8.encode sessionAlias).toList) query = after
      at clean replaced parts
    cases hit : (query.splitOn '&').any (assigns sessionParam.toList) with
    | true =>
      rw [hit,if_pos rfl] at replaced
      split
      · rw [queryOf_split noQuery plain.1 (appendAlias_clean clean (by decide) assigned),given_appended decodes word valid,replaced,
          Option.or_assoc]
        rfl
      · rw [queryOf_split noQuery plain.1 clean,replaced]
    | false =>
      rw [replaceIn_none_hit _ true hit] at parts
      have same : after = query := by
        have back : ['&'].intercalate (after.splitOn '&') = after := List.intercalate_splitOn '&'
        rw [parts,List.intercalate_splitOn] at back
        exact back.symm
      have suffix : after.isSuffixOf (path ++ '?'::query) = true := by
        rw [same,List.isSuffixOf_iff_suffix]
        exact ⟨path ++ ['?'],by simp⟩
      have whole : (query.splitOn '&').takeWhile (fun part => !assigns sessionParam.toList part) = query.splitOn '&' := by
        rw [List.takeWhile_eq_self_iff]
        intro part inside
        rw [List.any_eq_false.mp hit part inside |> eq_false_of_ne_true]
        rfl
      rw [if_pos suffix,queryOf_split noQuery plain.1 (appendAlias_clean clean (by decide) assigned),
        given_appended decodes word valid,parts,whole]

end

end CookieHttpSessionStrategy

/-- What a link must not already say for the alias to be selected: for the default alias,
a further valid alias; for another one, another value under a different spelling of the
parameter in front of the first assignment. -/
def Selects (decode : String → Option String) (sessionParam sessionAlias url : String) : Prop :=
  let parts := (queryOf url.toList).splitOn '&'
  if sessionAlias = DEFAULT_ALIAS then
    ∀ value, given decode (parts.eraseP (assigns sessionParam.toList)) sessionParam = some value →
      ALIAS_PATTERN value = true → value = DEFAULT_ALIAS
  else ∀ value, given decode (parts.takeWhile fun part => !assigns sessionParam.toList part) sessionParam = some value →
    value = sessionAlias

namespace CookieHttpSessionStrategy

/-- A request for an encoded link selects the alias it was encoded with. -/
theorem encodeURL_selects_iff {strategy : CookieHttpSessionStrategy} {sessionParam sessionAlias url : String}
    {decode : String → Option String} (decodes : Decodes decode)
    (configured : strategy.sessionParam = some sessionParam) (word : ParameterName sessionParam)
    (valid : ALIAS_PATTERN sessionAlias = true) (plain : '#' ∉ url.toList) (request : Request)
    (followed : request.parameter = getParameter decode (strategy.encodeURL url sessionAlias)) :
    strategy.getCurrentSessionAlias request = sessionAlias ↔ Selects decode sessionParam sessionAlias url := by
  unfold getCurrentSessionAlias Selects
  rw [configured,followed]
  dsimp only
  by_cases default : sessionAlias = DEFAULT_ALIAS
  · rw [if_pos default,default,getParameter_default configured word plain]
    cases found : given decode (((queryOf url.toList).splitOn '&').eraseP (assigns sessionParam.toList)) sessionParam with
    | none => simp
    | some value =>
      by_cases matched : ALIAS_PATTERN value = true <;> simp [matched]
  · rw [if_neg default,getParameter_other configured word plain decodes valid default]
    cases found : given decode (((queryOf url.toList).splitOn '&').takeWhile fun part => !assigns sessionParam.toList part)
        sessionParam with
    | none => simp [valid]
    | some value =>
      have apart : DEFAULT_ALIAS ≠ sessionAlias := fun same => default same.symm
      by_cases matched : ALIAS_PATTERN value = true
      · simp [matched]
      · have differs : value ≠ sessionAlias := by
          rintro rfl
          exact matched valid
        simp [matched,apart,differs]

theorem encodeURL_selects_account : getCurrentSessionAlias {}
    {cookies := none,parameter := getParameter UrlCodec.utf8.decode (encodeURL {} "/a?_s=2&x=1" "1f"),isSecure := true} = "1f" := by
  have word : ParameterName "_s" :=
    ⟨by decide,List.forall_mem_cons.mpr ⟨rfl,List.forall_mem_singleton.mpr rfl⟩⟩
  have selects : Selects UrlCodec.utf8.decode "_s" "1f" "/a?_s=2&x=1" := by
    have front : ((queryOf "/a?_s=2&x=1".toList).splitOn '&').takeWhile (fun part => !assigns "_s".toList part) = [] := by
      decide
    rw [Selects,if_neg (by decide),front]
    intro value none
    cases none
  generalize followed : getParameter UrlCodec.utf8.decode (encodeURL {} "/a?_s=2&x=1" "1f") = parameter
  exact (encodeURL_selects_iff decodes_utf8 rfl word (by decide) (by decide) ⟨none,parameter,true,[]⟩ followed.symm).mpr selects

end CookieHttpSessionStrategy

end YzFramework.Http
