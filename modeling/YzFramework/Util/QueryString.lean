import YzFramework.Library.Table
import YzFramework.Library.Text
import YzFramework.Library.UrlEncoding

/-! Query strings that `MapUtil` writes and reads. `none` is an exception of the decoder. -/
namespace YzFramework.Util.QueryString
open Library
open Library.Text (isBlank)

def encode (codec : UrlCodec) (value : Option String) : String := (value.map codec.encode).getD ""

def item (codec : UrlCodec) (entry : String × Option String) : String :=
  entry.1 ++ "=" ++ encode codec entry.2

def map2QueryString (codec : UrlCodec) (map : Option (Table String (Option String))) : String :=
  Text.chain '&' (((map.map Table.pairs).getD []).map (item codec))

def putItem (codec : UrlCodec) (map : Table String (Option String)) (item : String) :
    Option (Table String (Option String)) :=
  match Text.split (· == '=') item with
  | [key,value] =>
    if isBlank key then some map
    else (codec.decode value).map fun value => map.insert key (some value)
  | _ => some map

def queryString2Map (codec : UrlCodec) (queryString : String) : Option (Table String (Option String)) :=
  if isBlank queryString then some ∅
  else (Text.split (· == '&') queryString).foldlM (putItem codec) ∅

def RoundTrip (codec : UrlCodec) (map : Table String (Option String)) : Prop :=
  ∃ result, queryString2Map codec (map2QueryString codec (some map)) = some result ∧
    ∀ key, result.lookup key = map.lookup key

def Plain (key : String) : Prop := '&' ∉ key.toList ∧ '=' ∉ key.toList

/-- The entry that an item brings back: none for a null or empty value. -/
def kept (entry : String × Option String) : Option (String × Option String) :=
  (entry.2.filter (· ≠ "")).map fun value => (entry.1,some value)

theorem putItem_plain {codec : UrlCodec} {map result : Table String (Option String)} {item : String}
    (put : putItem codec map item = some result) (clean : '&' ∉ item.toList)
    (before : ∀ key ∈ map, Plain key) : ∀ key ∈ result, Plain key := by
  rw [putItem] at put
  split at put
  next key value parts =>
    split at put
    next =>
      cases put
      exact before
    next =>
      obtain ⟨read,_,rfl⟩ := Option.map_eq_some_iff.mp put
      intro other held
      rcases (AList.mem_insert _).mp held with same | held
      · subst same
        have pieces := Text.split_plain (parts ▸ List.mem_cons_self : other ∈ Text.split (· == '=') item)
        exact ⟨fun inside => clean (pieces _ inside).2,
          fun inside => beq_eq_false_iff_ne.mp (pieces _ inside).1 rfl⟩
      · exact before other held
  next =>
    cases put
    exact before

theorem queryString2Map_plain {codec : UrlCodec} {queryString : String}
    {result : Table String (Option String)} (read : queryString2Map codec queryString = some result) :
    ∀ key ∈ result, Plain key := by
  have run : ∀ (items : List String) (map : Table String (Option String)),
      (∀ item ∈ items, '&' ∉ item.toList) → (∀ key ∈ map, Plain key) →
      items.foldlM (putItem codec) map = some result → ∀ key ∈ result, Plain key := by
    intro items
    induction items with
    | nil =>
      intro map _ before done
      cases done
      exact before
    | cons item rest ih =>
      intro map clean before done
      rw [List.forall_mem_cons] at clean
      rw [List.foldlM_cons] at done
      obtain ⟨next,put,later⟩ := Option.bind_eq_some_iff.mp done
      exact ih next clean.2 (putItem_plain put clean.1 before) later
  rw [queryString2Map] at read
  split at read
  next =>
    cases read
    exact fun key held => absurd held (AList.notMem_empty key)
  next =>
    refine run _ ∅ (fun item listed inside => ?_) (fun key held => absurd held (AList.notMem_empty key)) read
    exact beq_eq_false_iff_ne.mp (Text.split_plain listed _ inside).1 rfl

theorem putItem_item (codec : UrlCodec) (map : Table String (Option String))
    {entry : String × Option String} (plain : '=' ∉ entry.1.toList) (shown : isBlank entry.1 = false) :
    putItem codec map (item codec entry) =
      some (Table.putAll map (kept entry).toList) := by
  obtain ⟨key,value⟩ := entry
  have held : key ≠ "" := by
    rintro rfl
    cases shown
  by_cases empty : encode codec value = ""
  · have ended : (item codec (key,value)).toList = key.toList ++ ['='] := by simp [item,empty]
    have none : kept (key,value) = none := by
      cases value with
      | none => rfl
      | some value =>
        have same : value = "" := by
          by_contra written
          exact codec.encode_ne_empty written empty
        simp [kept,same]
    rw [putItem,Text.split_ended '=' held plain ended,none]
    rfl
  · obtain ⟨text,rfl⟩ : ∃ text, value = some text := by
      cases value with
      | none => exact absurd rfl empty
      | some text => exact ⟨text,rfl⟩
    have written : text ≠ "" := fun same => empty (by rw [same]; exact codec.empty)
    have joined : (item codec (key,some text)).toList =
        ([key].map fun piece => piece.toList ++ ['=']).flatten ++ (codec.encode text).toList := by
      simp [item,encode]
    have keeps : kept (key,some text) = some (key,some text) := by simp [kept,Option.filter,written]
    rw [putItem,Text.split_joined '=' [key] (codec.encode text) empty (by simpa using plain)
      (codec.clean text).2 joined,keeps]
    simp [shown,codec.inverts,Table.putAll]

private theorem foldlM_putItem (codec : UrlCodec) (entries : List (String × Option String))
    (plain : ∀ entry ∈ entries, Plain entry.1) (shown : ∀ entry ∈ entries, isBlank entry.1 = false)
    (map : Table String (Option String)) :
    (entries.map (item codec)).foldlM (putItem codec) map =
      some (Table.putAll map (entries.filterMap kept)) := by
  induction entries generalizing map with
  | nil => rfl
  | cons entry rest ih =>
    rw [List.forall_mem_cons] at plain shown
    rw [List.map_cons,List.foldlM_cons,putItem_item codec map plain.1.2 shown.1,Option.bind_eq_bind,
      Option.bind_some,ih plain.2 shown.2,List.filterMap_cons]
    cases kept entry <;> rfl

theorem item_clean (codec : UrlCodec) {entry : String × Option String} (plain : '&' ∉ entry.1.toList) :
    '&' ∉ (item codec entry).toList := by
  have value : '&' ∉ (encode codec entry.2).toList := by
    cases entry.2 with
    | none => exact List.not_mem_nil
    | some value => exact (codec.clean value).1
  simp [item,plain,value]

theorem item_ne_empty (codec : UrlCodec) (entry : String × Option String) : item codec entry ≠ "" := by
  intro same
  have inside : '=' ∈ (item codec entry).toList := by simp [item]
  rw [same] at inside
  exact absurd inside List.not_mem_nil

theorem queryString2Map_items (codec : UrlCodec) (map : Table String (Option String))
    (plain : ∀ entry ∈ map.pairs, Plain entry.1) (shown : ∀ entry ∈ map.pairs, isBlank entry.1 = false) :
    queryString2Map codec (map2QueryString codec (some map)) =
      some (Table.putAll ∅ (map.pairs.filterMap kept)) := by
  rw [← foldlM_putItem codec map.pairs plain shown,map2QueryString,Option.map_some,Option.getD_some]
  generalize map.pairs = entries at plain
  rcases List.eq_nil_or_concat' entries with rfl | ⟨before,last,rfl⟩
  · rfl
  · have clean : ∀ piece ∈ before.map (item codec), '&' ∉ piece.toList := by
      intro piece listed
      obtain ⟨entry,inside,rfl⟩ := List.mem_map.mp listed
      exact item_clean codec (plain entry (List.mem_append_left _ inside)).1
    rw [List.map_append,List.map_singleton,queryString2Map,
      Text.split_chain '&' _ (item_ne_empty codec last) clean (item_clean codec (plain last (by simp)).1),
      if_neg]
    intro blank
    have equals : '=' ∈ (Text.chain '&' (before.map (item codec) ++ [item codec last])).toList := by
      rw [Text.chain_concat]
      exact List.mem_append_right _ (by simp [item])
    exact absurd (List.all_eq_true.mp blank _ equals) (by decide)

theorem RoundTrip.written {codec : UrlCodec} {map : Table String (Option String)}
    (shown : ∀ entry ∈ map.pairs, isBlank entry.1 = false) (trip : RoundTrip codec map) :
    ∀ key value, map.lookup key = some value → Plain key ∧ ∃ text, value = some text ∧ text ≠ "" := by
  obtain ⟨result,read,same⟩ := trip
  have plain : ∀ key value, map.lookup key = some value → Plain key := fun key value held =>
    queryString2Map_plain read key (AList.lookup_isSome.mp (by rw [same,held]; rfl))
  intro key value held
  refine ⟨plain key value held,?_⟩
  rw [queryString2Map_items codec map (fun entry listed =>
    plain entry.1 entry.2 ((map.mem_pairs _ _).mp listed)) shown,Option.some.injEq] at read
  have found := (same key).trans held
  rw [← read] at found
  by_cases inside : ∃ pair ∈ map.pairs.filterMap kept, pair.1 = key
  · obtain ⟨pair,listed,rfl,put⟩ := Table.lookup_putAll_inside ∅ _ key inside
    rw [put,Option.some.injEq] at found
    obtain ⟨entry,_,keeps⟩ := List.mem_filterMap.mp listed
    obtain ⟨text,written,rfl⟩ := Option.map_eq_some_iff.mp keeps
    exact ⟨text,found.symm,of_decide_eq_true (Option.filter_eq_some_iff.mp written).2⟩
  · rw [Table.lookup_putAll_outside ∅ _ key fun pair listed same => inside ⟨pair,listed,same⟩,
      AList.lookup_empty] at found
    cases found

private theorem filterMap_kept {entries : List (String × Option String)}
    (written : ∀ entry ∈ entries, ∃ text, entry.2 = some text ∧ text ≠ "") :
    entries.filterMap kept = entries := by
  induction entries with
  | nil => rfl
  | cons entry rest ih =>
    rw [List.forall_mem_cons] at written
    obtain ⟨⟨text,value,held⟩,later⟩ := written
    obtain ⟨key,_⟩ := entry
    subst value
    have keeps : kept (key,some text) = some (key,some text) := by simp [kept,Option.filter,held]
    rw [List.filterMap_cons,keeps,ih later]

/-- A map comes back if and only if no key has a separator in it and every value is a
text that is not empty. -/
theorem queryString2Map_iff (codec : UrlCodec) (map : Table String (Option String))
    (shown : ∀ key ∈ map.keys, isBlank key = false) :
    RoundTrip codec map ↔ ∀ key value, map.lookup key = some value →
      Plain key ∧ ∃ text, value = some text ∧ text ≠ "" := by
  have entries : ∀ entry ∈ map.pairs, isBlank entry.1 = false := fun entry listed =>
    shown entry.1 (map.pairs_keys ▸ List.mem_map_of_mem listed)
  refine ⟨RoundTrip.written entries,fun safe => ?_⟩
  have all : ∀ entry ∈ map.pairs, Plain entry.1 ∧ ∃ text, entry.2 = some text ∧ text ≠ "" :=
    (map.forall_pairs _).mp safe
  refine ⟨_,queryString2Map_items codec map (fun entry listed => (all entry listed).1) entries,?_⟩
  rw [filterMap_kept fun entry listed => (all entry listed).2]
  exact map.lookup_putAll_pairs

theorem queryString2Map_iff_sample :
    RoundTrip UrlCodec.utf8 (AList.insert "k" (some "a&b") (AList.insert "j" (some "c=d e") ∅)) := by
  refine (queryString2Map_iff UrlCodec.utf8 _ (by decide)).mpr ((Table.forall_pairs _ _).mpr ?_)
  change ∀ entry ∈ [("k",some "a&b"),("j",some "c=d e")], _
  rw [List.forall_mem_cons,List.forall_mem_singleton]
  exact ⟨⟨⟨by decide,by decide⟩,_,rfl,by decide⟩,⟨⟨by decide,by decide⟩,_,rfl,by decide⟩⟩

theorem roundTrip_lost :
    ¬ RoundTrip UrlCodec.utf8 (AList.insert "k" (some "") ∅) ∧
    ¬ RoundTrip UrlCodec.utf8 (AList.insert "a&b" (some "v") ∅) := by
  constructor
  · intro trip
    obtain ⟨_,text,same,written⟩ := trip.written (by decide) "k" (some "") (AList.lookup_insert ∅)
    cases same
    exact written rfl
  · intro trip
    have plain := (trip.written (by decide) "a&b" (some "v") (AList.lookup_insert ∅)).1
    exact plain.1 (by decide)

end YzFramework.Util.QueryString
