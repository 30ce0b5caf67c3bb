import YzFramework.Library.Table
import YzFramework.Library.Text
import YzFramework.Library.UrlEncoding

/-! The bodies of `HttpRequestUtil.post` and `post2` as a form decoder reads them. -/
namespace YzFramework.Http.FormPost
open Library

abbrev Data := Table String (Option String)

/-- What `post` appends for an entry; a null value is appended as `null`. -/
def field (entry : String × Option String) : String := entry.1 ++ "=" ++ entry.2.getD "null"

def post (data : Option Data) : String :=
  Text.chain '&' (((data.map Table.pairs).getD []).map field)

def parameters (data : Data) : List (String × String) :=
  data.pairs.filterMap fun entry => entry.2.map fun value => (entry.1,value)

/-- The entity of `post2`, with `format` for `UrlEncodedFormEntity`; no data, no entity. -/
def post2 (format : List (String × String) → String) (data : Data) : Option String :=
  if data.pairs = [] then none else some (format (parameters data))

/-- One name and its value: a piece is cut at its first equals sign. -/
def decodeField (codec : UrlCodec) (piece : String) : Option (String × String) := do
  let name ← codec.decode (String.ofList (piece.toList.takeWhile (· ≠ '=')))
  let value ← codec.decode (String.ofList (piece.toList.dropWhile (· ≠ '=')).tail)
  some (name,value)

/-- Standard form decoding: empty pieces between the separators are skipped. -/
def decodeForm (codec : UrlCodec) (body : String) : Option (List (String × String)) :=
  (Text.tokens (· == '&') body).mapM (decodeField codec)

def decodeEntity (codec : UrlCodec) (entity : Option String) : Option (List (String × String)) :=
  (entity.map (decodeForm codec)).getD (some [])

/-- Both bodies stand for the entries of the map without the null values. -/
def Agree (codec : UrlCodec) (format : List (String × String) → String) (data : Data) : Prop :=
  decodeForm codec (post (some data)) = decodeEntity codec (post2 format data) ∧
    decodeEntity codec (post2 format data) = some (parameters data)

/-- An entry that a decoder reads as it is written. -/
structure Verbatim (codec : UrlCodec) (key value : String) : Prop where
  whole : '&' ∉ key.toList ∧ '&' ∉ value.toList
  named : '=' ∉ key.toList
  key : codec.decode key = some key
  value : codec.decode value = some value

private theorem mapM_eq_some {α β : Type} (f : α → Option β) (items : List α) (results : List β) :
    items.mapM f = some results ↔ items.map f = results.map some := by
  induction items generalizing results with
  | nil => cases results <;> simp
  | cons item rest ih =>
    rw [List.mapM_cons]
    simp only [Option.bind_eq_bind,Option.bind_eq_some_iff,Option.pure_def,Option.some.injEq]
    constructor
    · rintro ⟨first,found,later,others,rfl⟩
      rw [List.map_cons,List.map_cons,found,(ih later).mp others]
    · intro same
      cases results with
      | nil => cases same
      | cons first later =>
        rw [List.map_cons,List.map_cons,List.cons.injEq] at same
        exact ⟨first,same.1,later,(ih later).mpr same.2,rfl⟩

private theorem length_le_flatMap {α β : Type} {pieces : α → List β} {items : List α}
    (some : ∀ item ∈ items, pieces item ≠ []) : items.length ≤ (items.flatMap pieces).length := by
  induction items with
  | nil => exact Nat.le_refl 0
  | cons item rest ih =>
    rw [List.forall_mem_cons] at some
    have bound := ih some.2
    have one := List.length_pos_iff.mpr some.1
    rw [List.flatMap_cons,List.length_append,List.length_cons]
    omega

/-- Every item has pieces, and as many results came of the pieces as items had one: then
each item has one piece, and its result came of that. -/
theorem single_pieces {α β γ : Type} (pieces : α → List β) (kept : α → Option γ) (f : β → Option γ)
    (items : List α) (some : ∀ item ∈ items, pieces item ≠ [])
    (same : (items.flatMap pieces).map f = (items.filterMap kept).map Option.some) :
    ∀ item ∈ items, ∃ piece result, pieces item = [piece] ∧ kept item = Option.some result ∧
      f piece = Option.some result := by
  induction items with
  | nil => nofun
  | cons item rest ih =>
    rw [List.forall_mem_cons] at some
    have sizes := congrArg List.length same
    have bound := (List.length_filterMap_le kept rest).trans (length_le_flatMap some.2)
    rw [List.length_map,List.length_map,List.flatMap_cons,List.length_append,List.filterMap_cons] at sizes
    have one := List.length_pos_iff.mpr some.1
    cases keeps : kept item with
    | none =>
      rw [keeps] at sizes
      simp only at sizes
      omega
    | some result =>
      rw [keeps] at sizes
      simp only [List.length_cons] at sizes
      obtain ⟨piece,single⟩ := List.length_eq_one_iff.mp (show (pieces item).length = 1 by omega)
      rw [List.flatMap_cons,single,List.filterMap_cons,keeps] at same
      simp only [List.cons_append,List.nil_append,List.map_cons,List.cons.injEq] at same
      rw [List.forall_mem_cons]
      exact ⟨⟨piece,result,single,keeps,same.1⟩,ih some.2 same.2⟩

theorem decodeForm_post (codec : UrlCodec) (data : Data) (pairs : List (String × String)) :
    decodeForm codec (post (some data)) = some pairs ↔
      (data.pairs.flatMap fun entry => Text.tokens (· == '&') (field entry)).map (decodeField codec) =
        pairs.map some := by
  have tokens := @Text.tokens_chain (· == '&') '&' rfl (data.pairs.map field)
  rw [decodeForm,post,Option.map_some,Option.getD_some,tokens,mapM_eq_some,List.flatMap_map]

theorem tokens_field (entry : String × Option String) : Text.tokens (· == '&') (field entry) ≠ [] := by
  intro none
  have equals : '=' ∈ (field entry).toList := by simp [field]
  exact absurd (Text.tokens_eq_nil.mp none '=' equals) (by decide)

theorem decodeField_parts (codec : UrlCodec) {piece name value : String}
    (plain : '=' ∉ name.toList) (joined : piece.toList = name.toList ++ '='::value.toList) :
    decodeField codec piece =
      (codec.decode name).bind fun name => (codec.decode value).map fun value => (name,value) := by
  have taken : ∀ c ∈ name.toList, decide (c ≠ '=') = true := fun c inside =>
    decide_eq_true fun same => plain (same ▸ inside)
  rw [decodeField,joined,List.takeWhile_append_of_pos taken,List.dropWhile_append_of_pos taken]
  simp [Option.map_eq_bind]

theorem decodeField_some {codec : UrlCodec} {piece : String} {pair : String × String}
    (read : decodeField codec piece = some pair) (equals : '=' ∈ piece.toList) :
    ∃ name value, '=' ∉ name.toList ∧ piece.toList = name.toList ++ '='::value.toList ∧
      codec.decode name = some pair.1 ∧ codec.decode value = some pair.2 := by
  obtain ⟨name,value,joined,plain⟩ := List.eq_append_cons_of_mem equals
  have outside : '=' ∉ (String.ofList name).toList := by rwa [String.toList_ofList]
  have parts : piece.toList = (String.ofList name).toList ++ '='::(String.ofList value).toList := by
    rw [String.toList_ofList,String.toList_ofList,joined]
  rw [decodeField_parts codec outside parts] at read
  obtain ⟨first,found,later⟩ := Option.bind_eq_some_iff.mp read
  obtain ⟨second,also,rfl⟩ := Option.map_eq_some_iff.mp later
  exact ⟨_,_,outside,parts,found,also⟩

/-- A decoder that returns an entry from a part of its text was given the whole text,
without escapes. -/
theorem verbatim_of_decodeField (codec : UrlCodec) {key value piece : String}
    (single : Text.tokens (· == '&') (field (key,some value)) = [piece])
    (read : decodeField codec piece = some (key,value)) : Verbatim codec key value := by
  have letters : (field (key,some value)).toList = key.toList ++ '='::value.toList := by simp [field]
  have kept := Text.tokens_flatten (· == '&') (field (key,some value))
  rw [single,List.flatMap_singleton,letters] at kept
  have equals : '=' ∈ piece.toList := by
    rw [kept,List.mem_filter]
    exact ⟨by simp,by decide⟩
  obtain ⟨name,rest,plain,joined,readName,readValue⟩ := decodeField_some read equals
  have shorterName : key.length ≤ name.length := codec.shrinks _ _ readName
  have shorterValue : value.length ≤ rest.length := codec.shrinks _ _ readValue
  have size := congrArg List.length (kept.symm.trans joined)
  have bound := List.length_filter_le (fun c => !(c == '&')) (key.toList ++ '='::value.toList)
  simp only [List.length_append,List.length_cons,String.length_toList] at size bound
  -- Nothing was filtered out, since the parts are as long as what they are decoded to.
  have whole : (key.toList ++ '='::value.toList).filter (fun c => !(c == '&')) =
      key.toList ++ '='::value.toList := by
    apply List.filter_sublist.eq_of_length
    simp only [List.length_append,List.length_cons,String.length_toList]
    omega
  rw [whole] at kept
  have clean := List.filter_eq_self.mp whole
  have same := kept.symm.trans joined
  have lengths : key.toList.length = name.toList.length := by
    rw [String.length_toList,String.length_toList]
    omega
  obtain ⟨sameName,sameRest⟩ := List.append_inj same lengths
  rw [List.cons.injEq] at sameRest
  have keys : key = name := String.toList_inj.mp sameName
  have values : value = rest := String.toList_inj.mp sameRest.2
  subst keys values
  exact ⟨⟨fun inside => absurd (clean '&' (by simp [inside])) (by decide),
    fun inside => absurd (clean '&' (by simp [inside])) (by decide)⟩,plain,readName,readValue⟩

theorem tokens_parts {piece name value : String}
    (joined : piece.toList = name.toList ++ '='::value.toList)
    (whole : '&' ∉ name.toList ∧ '&' ∉ value.toList) : Text.tokens (· == '&') piece = [piece] := by
  refine Text.tokens_self (fun empty => ?_) fun c inside => beq_eq_false_iff_ne.mpr fun same => ?_
  · rw [empty] at joined
    exact absurd joined (by simp)
  · rw [joined,same] at inside
    rcases List.mem_append.mp inside with first | second
    · exact whole.1 first
    · exact whole.2 ((List.mem_cons.mp second).resolve_left (by decide))

theorem decodeField_verbatim {codec : UrlCodec} {key value : String} (verbatim : Verbatim codec key value) :
    Text.tokens (· == '&') (field (key,some value)) = [field (key,some value)] ∧
      decodeField codec (field (key,some value)) = some (key,value) := by
  have letters : (field (key,some value)).toList = key.toList ++ '='::value.toList := by simp [field]
  refine ⟨tokens_parts letters verbatim.whole,?_⟩
  rw [decodeField_parts codec verbatim.named letters,verbatim.key,verbatim.value]
  rfl

theorem decodeForm_post_iff (codec : UrlCodec) (data : Data) :
    decodeForm codec (post (some data)) = some (parameters data) ↔
      ∀ key value, data.lookup key = some value →
        ∃ text, value = some text ∧ Verbatim codec key text := by
  rw [decodeForm_post]
  constructor
  · intro same key value held
    obtain ⟨piece,result,single,kept,read⟩ := single_pieces _ _ _ data.pairs
      (fun entry _ => tokens_field entry) same (key,value) ((data.mem_pairs key value).mpr held)
    obtain ⟨text,rfl,rfl⟩ := Option.map_eq_some_iff.mp kept
    exact ⟨text,rfl,verbatim_of_decodeField codec single read⟩
  · intro all
    have entries : ∀ entry ∈ data.pairs, ∃ text, entry.2 = some text ∧ Verbatim codec entry.1 text :=
      (data.forall_pairs _).mp all
    rw [parameters]
    generalize data.pairs = list at entries
    induction list with
    | nil => rfl
    | cons entry rest ih =>
      rw [List.forall_mem_cons] at entries
      obtain ⟨⟨text,value,verbatim⟩,later⟩ := entries
      obtain ⟨key,_⟩ := entry
      subst value
      obtain ⟨single,read⟩ := decodeField_verbatim verbatim
      rw [List.flatMap_cons,single,List.filterMap_cons,List.cons_append,List.nil_append,List.map_cons,
        read,ih later]
      rfl

/-- The two ways of posting agree on a map if and only if none of its entries needs
an escape or is null. -/
theorem agree_iff (codec : UrlCodec) (format : List (String × String) → String)
    (formats : ∀ pairs, decodeForm codec (format pairs) = some pairs) (data : Data) :
    Agree codec format data ↔ ∀ key value, data.lookup key = some value →
      ∃ text, value = some text ∧ Verbatim codec key text := by
  have entity : decodeEntity codec (post2 format data) = some (parameters data) := by
    rw [post2]
    split
    next none =>
      rw [parameters,none]
      rfl
    next => exact formats _
  rw [Agree,entity,decodeForm_post_iff]
  exact and_iff_left rfl

/-- `UrlEncodedFormEntity` as it is documented. -/
def urlEncodedForm (codec : UrlCodec) (pairs : List (String × String)) : String :=
  Text.chain '&' (pairs.map fun pair => codec.encode pair.1 ++ "=" ++ codec.encode pair.2)

theorem decodeForm_urlEncodedForm (codec : UrlCodec) (pairs : List (String × String)) :
    decodeForm codec (urlEncodedForm codec pairs) = some pairs := by
  rw [decodeForm,urlEncodedForm,@Text.tokens_chain (· == '&') '&' rfl,mapM_eq_some]
  induction pairs with
  | nil => rfl
  | cons pair rest ih =>
    have letters : (codec.encode pair.1 ++ "=" ++ codec.encode pair.2).toList =
        (codec.encode pair.1).toList ++ '='::(codec.encode pair.2).toList := by simp
    have single := tokens_parts letters ⟨(codec.clean _).1,(codec.clean _).1⟩
    rw [List.map_cons,List.flatMap_cons,single,List.cons_append,List.nil_append,List.map_cons,ih,
      decodeField_parts codec (codec.clean _).2 letters,codec.inverts,codec.inverts]
    rfl

private theorem decode_plain (codec : UrlCodec) {text : String} (plain : codec.encode text = text) :
    codec.decode text = some text := by
  have inverts := codec.inverts text
  rwa [plain] at inverts

theorem agree_iff_utf8 :
    Agree UrlCodec.utf8 (urlEncodedForm UrlCodec.utf8) (AList.insert "a" (some "1") (AList.insert "b" (some "x-2") ∅)) := by
  refine (agree_iff UrlCodec.utf8 (urlEncodedForm UrlCodec.utf8) (decodeForm_urlEncodedForm UrlCodec.utf8) _).mpr
    ((Table.forall_pairs _ _).mpr ?_)
  change ∀ entry ∈ [("a",some "1"),("b",some "x-2")], _
  rw [List.forall_mem_cons,List.forall_mem_singleton]
  exact ⟨⟨_,rfl,by decide,by decide,decode_plain _ (by decide),decode_plain _ (by decide)⟩,
    ⟨_,rfl,by decide,by decide,decode_plain _ (by decide),decode_plain _ (by decide)⟩⟩

/-- Agreement on a map of one entry leaves the entry without escapes. -/
private theorem agree_single {codec : UrlCodec} {format : List (String × String) → String} {key : String}
    {value : Option String} (agree : Agree codec format (AList.insert key value ∅)) :
    ∃ text, value = some text ∧ Verbatim codec key text :=
  (decodeForm_post_iff _ _).mp (agree.1.trans agree.2) key value (AList.lookup_insert ∅)

theorem not_agree :
    ¬ Agree UrlCodec.utf8 (urlEncodedForm UrlCodec.utf8) (AList.insert "a" (some "1&b=2") ∅) ∧
    ¬ Agree UrlCodec.utf8 (urlEncodedForm UrlCodec.utf8) (AList.insert "a" none ∅) ∧
    ¬ Agree UrlCodec.utf8 (urlEncodedForm UrlCodec.utf8) (AList.insert "a" (some "1+1") ∅) := by
  refine ⟨fun agree => ?_,fun agree => ?_,fun agree => ?_⟩
  · obtain ⟨text,same,verbatim⟩ := agree_single agree
    cases same
    exact verbatim.whole.2 (by decide)
  · obtain ⟨text,same,_⟩ := agree_single agree
    cases same
  · obtain ⟨text,same,verbatim⟩ := agree_single agree
    cases same
    have spaced : UrlCodec.utf8.encode "1 1" = "1+1" := by decide
    have decoded := UrlCodec.utf8.inverts "1 1"
    rw [spaced,verbatim.value] at decoded
    exact absurd decoded (by decide)

end YzFramework.Http.FormPost
