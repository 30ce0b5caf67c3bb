import Mathlib.Data.List.Forall2

/-! The maps that `BeanUtil` makes of the text of a JSON object. Fastjson is a parameter:
its reader, and its texts for structured and for other values. -/
namespace YzFramework.Util.JsonMap

/-- A value as it was read. The members of an object are in the order of their keys. -/
inductive Json (Scalar : Type)
  | null
  | scalar (value : Scalar)
  | array (elements : List (Json Scalar))
  | object (members : List (String × Json Scalar))

inductive Tree
  | text (text : String)
  | list (elements : List Tree)
  | map (entries : List (String × Tree))

structure Fastjson (Scalar : Type) where
  /-- Nothing where the text is no JSON. -/
  parse : String → Option (Json Scalar)
  print : Json Scalar → String
  toString : Scalar → String
  toJSONString : Scalar → String

variable {Scalar : Type} (fastjson : Fastjson Scalar)

def parseObject : Option String → Except String (List (String × Json Scalar))
  | none => .error "NullPointerException"
  | some text =>
    match fastjson.parse text with
    | none => .error "JSONException"
    | some (.object members) => .ok members
    | some .null => .error "NullPointerException"
    | some _ => .error "ClassCastException"

def getString : Json Scalar → Option String
  | .null => none
  | .scalar value => some (fastjson.toString value)
  | json => some (fastjson.print json)

abbrev Answer := Except String (List (String × Tree))

def json2List (json2Map : Option String → Answer) (jsonArr : List (Json Scalar)) : Except String (List Tree) :=
  jsonArr.mapM fun element => Tree.map <$> json2Map (getString fastjson element)

def entryValue (json2Map : Option String → Answer) : Json Scalar → Except String Tree
  | .object members => Tree.map <$> json2Map (some (fastjson.print (.object members)))
  | .array elements => Tree.list <$> json2List fastjson json2Map elements
  | .scalar value => .ok (.text (fastjson.toJSONString value))
  | .null => .ok (.text "null")

/-- The call on a stack with room for so many calls of the method. -/
def json2Map : ℕ → Option String → Answer
  | 0,_ => .error "StackOverflowError"
  | stack+1,json => do
    let jsonObject ← parseObject fastjson json
    jsonObject.mapM fun param => (param.1,·) <$> entryValue fastjson (json2Map stack) param.2

mutual

/-- What a value is to be mapped to. -/
def represent : Json Scalar → Tree
  | .null => .text "null"
  | .scalar value => .text (fastjson.toJSONString value)
  | .array elements => .list (representAll elements)
  | .object members => .map (representMembers members)

def representAll : List (Json Scalar) → List Tree
  | [] => []
  | element::rest => represent element::representAll rest

def representMembers : List (String × Json Scalar) → List (String × Tree)
  | [] => []
  | (key,value)::rest => (key,represent value)::representMembers rest

end

def Json.isNull : Json Scalar → Bool
  | .null => true
  | _ => false

mutual

/-- A value without the members that are null, as it is printed. -/
def dropNulls : Json Scalar → Json Scalar
  | .null => .null
  | .scalar value => .scalar value
  | .array elements => .array (dropElements elements)
  | .object members => .object (dropMembers members)

def dropElements : List (Json Scalar) → List (Json Scalar)
  | [] => []
  | element::rest => dropNulls element::dropElements rest

def dropMembers : List (String × Json Scalar) → List (String × Json Scalar)
  | [] => []
  | (key,value)::rest => if value.isNull then dropMembers rest else (key,dropNulls value)::dropMembers rest

end

/-- The values of which a value is made. -/
inductive Part : Json Scalar → Json Scalar → Prop
  | whole (json) : Part json json
  | element {json element elements} (inside : element ∈ elements) (part : Part json element) : Part json (.array elements)
  | member {json member members} (inside : member ∈ members) (part : Part json member.2) : Part json (.object members)

def Json.Structured : Json Scalar → Prop
  | .array _ | .object _ => True
  | .null | .scalar _ => False

/-- What was read is printed without its null members, and read again. -/
def Fastjson.Rereads : Prop := ∀ text json part, fastjson.parse text = some json → Part part json →
  part.Structured → fastjson.parse (fastjson.print part) = some (dropNulls part)

/-- A value whose arrays hold objects, and whose objects have no member that is null. -/
inductive Convertible : Json Scalar → Prop
  | null : Convertible .null
  | scalar (value) : Convertible (.scalar value)
  | array {elements} (objects : ∀ element ∈ elements, ∃ members, element = .object members)
    (each : ∀ element ∈ elements, Convertible element) : Convertible (.array elements)
  | object {members : List (String × Json Scalar)} (present : ∀ member ∈ members, member.2.isNull = false)
    (each : ∀ member ∈ members, Convertible member.2) : Convertible (.object members)

/-- The call returns the map that represents the members, with room enough on the stack. -/
def Right (text : String) (members : List (String × Json Scalar)) : Prop :=
  ∃ enough, ∀ stack, enough ≤ stack → json2Map fastjson stack (some text) = .ok (representMembers fastjson members)

theorem dropMembers_eq (members : List (String × Json Scalar)) :
    dropMembers members = (members.filter (!·.2.isNull)).map fun member => (member.1,dropNulls member.2) := by
  induction members with
  | nil => rfl
  | cons member rest ih =>
    obtain ⟨key,value⟩ := member
    rw [dropMembers,ih]
    cases void : value.isNull <;> simp [void]

theorem dropElements_eq (elements : List (Json Scalar)) : dropElements elements = elements.map dropNulls := by
  induction elements with
  | nil => rfl
  | cons element rest ih => rw [dropElements,ih,List.map_cons]

theorem dropNulls_isNull (json : Json Scalar) : (dropNulls json).isNull = json.isNull := by
  cases json <;> rfl

mutual

theorem dropNulls_dropNulls : ∀ json : Json Scalar, dropNulls (dropNulls json) = dropNulls json
  | .null => rfl
  | .scalar _ => rfl
  | .array elements => congrArg Json.array (dropElements_dropElements elements)
  | .object members => congrArg Json.object (dropMembers_dropMembers members)

theorem dropElements_dropElements : ∀ elements : List (Json Scalar),
    dropElements (dropElements elements) = dropElements elements
  | [] => rfl
  | element::rest => by
    rw [dropElements,dropElements,dropNulls_dropNulls element,dropElements_dropElements rest]

theorem dropMembers_dropMembers : ∀ members : List (String × Json Scalar),
    dropMembers (dropMembers members) = dropMembers members
  | [] => rfl
  | (key,value)::rest => by
    have later := dropMembers_dropMembers rest
    rw [dropMembers]
    cases void : value.isNull with
    | true => exact later
    | false =>
      rw [if_neg Bool.false_ne_true,dropMembers,dropNulls_isNull,void,if_neg Bool.false_ne_true,
        dropNulls_dropNulls value,later]

end

theorem Convertible.dropNulls {json : Json Scalar} (convertible : Convertible json) : dropNulls json = json := by
  induction convertible with
  | null => rfl
  | scalar value => rfl
  | array _ _ ih =>
    rw [JsonMap.dropNulls,dropElements_eq,List.map_congr_left ih,List.map_id']
  | object present _ ih =>
    have whole : ∀ member ∈ _, (member.1,JsonMap.dropNulls member.2) = member := fun member inside => by
      rw [ih member inside]
    rw [JsonMap.dropNulls,dropMembers_eq,List.filter_eq_self.mpr fun member inside => by rw [present member inside]; rfl,
      List.map_congr_left whole,List.map_id']

variable {fastjson}

theorem representAll_eq (elements : List (Json Scalar)) :
    representAll fastjson elements = elements.map (represent fastjson) := by
  induction elements with
  | nil => rfl
  | cons element rest ih => rw [representAll,ih,List.map_cons]

theorem representMembers_eq (members : List (String × Json Scalar)) :
    representMembers fastjson members = members.map fun member => (member.1,represent fastjson member.2) := by
  induction members with
  | nil => rfl
  | cons member rest ih => rw [representMembers,ih,List.map_cons]

private theorem mapM_ok_iff {Item Result : Type} (f : Item → Except String Result) (items : List Item)
    (results : List Result) :
    items.mapM f = .ok results ↔ List.Forall₂ (fun item result => f item = .ok result) items results := by
  induction items generalizing results with
  | nil =>
    rw [List.forall₂_nil_left_iff]
    constructor
    · intro same
      exact (Except.ok.inj same).symm
    · rintro rfl
      rfl
  | cons item rest ih =>
    rw [List.mapM_cons,List.forall₂_cons_left_iff]
    cases first : f item with
    | error fault => exact ⟨nofun,nofun⟩
    | ok result =>
      constructor
      · intro returned
        cases later : rest.mapM f with
        | error fault =>
          rw [later] at returned
          cases returned
        | ok others =>
          rw [later] at returned
          cases returned
          exact ⟨result,others,rfl,(ih others).mp later,rfl⟩
      · rintro ⟨_,others,same,later,rfl⟩
        cases same
        rw [(ih others).mpr later]
        rfl

theorem mapM_map_iff {Item Result : Type} (f : Item → Except String Result) (g : Item → Result) (items : List Item) :
    items.mapM f = .ok (items.map g) ↔ ∀ item ∈ items, f item = .ok (g item) := by
  rw [mapM_ok_iff,List.forall₂_map_right_iff,List.forall₂_same]

theorem map_ok_iff {Item Result : Type} (f : Item → Result) (answer : Except String Item) (result : Result) :
    f <$> answer = .ok result ↔ ∃ item, answer = .ok item ∧ f item = result := by
  cases answer with
  | error fault => exact ⟨nofun,nofun⟩
  | ok item =>
    constructor
    · intro same
      exact ⟨item,rfl,Except.ok.inj same⟩
    · rintro ⟨_,same,rfl⟩
      cases same
      rfl

theorem json2Map_members {stack : ℕ} {text : String} {members : List (String × Json Scalar)}
    (read : fastjson.parse text = some (.object members)) : json2Map fastjson (stack+1) (some text) =
      members.mapM fun param => (param.1,·) <$> entryValue fastjson (json2Map fastjson stack) param.2 := by
  rw [json2Map,parseObject,read]
  rfl

theorem json2Map_ok (rereads : fastjson.Rereads) (stack : ℕ) {text : String} {members : List (String × Json Scalar)}
    (read : fastjson.parse text = some (.object members)) (each : ∀ member ∈ members, Convertible member.2)
    (room : sizeOf members < stack) :
    json2Map fastjson stack (some text) = .ok (representMembers fastjson members) := by
  induction stack generalizing text members with
  | zero => exact absurd room (Nat.not_lt_zero _)
  | succ stack ih =>
    have inner : ∀ value ∈ members.map Prod.snd, ∀ inner, Part (.object inner) value → Convertible (.object inner) →
        sizeOf inner < sizeOf members →
        Tree.map <$> json2Map fastjson stack (some (fastjson.print (.object inner))) =
          .ok (represent fastjson (.object inner)) := by
      intro value inside inner part convertible smaller
      obtain ⟨member,among,rfl⟩ := List.mem_map.mp inside
      have again := rereads text _ _ read (.member among part) trivial
      rw [convertible.dropNulls] at again
      cases convertible with
      | object _ eachInner =>
        rw [ih again eachInner (by omega)]
        rfl
    rw [json2Map_members read,representMembers_eq,mapM_map_iff]
    intro member inside
    obtain ⟨key,value⟩ := member
    apply (map_ok_iff _ _ _).mpr
    refine ⟨represent fastjson value,?_,rfl⟩
    have among := List.mem_map_of_mem (f := Prod.snd) inside
    have smaller : sizeOf value < sizeOf members := by
      have := List.sizeOf_lt_of_mem inside
      simp only [Prod.mk.sizeOf_spec] at this
      omega
    have convertible : Convertible value := each _ inside
    cases value with
    | null => rfl
    | scalar value => rfl
    | object more =>
      apply inner _ among more (.whole _) convertible
      simp only [Json.object.sizeOf_spec] at smaller
      omega
    | array elements =>
      rw [entryValue,represent,representAll_eq]
      refine (map_ok_iff _ _ _).mpr ⟨_,(mapM_map_iff _ _ _).mpr ?_,rfl⟩
      cases convertible with
      | array objects eachElement =>
        intro element member
        obtain ⟨more,rfl⟩ := objects element member
        apply inner _ among more (.element member (.whole _)) (eachElement _ member)
        have := List.sizeOf_lt_of_mem member
        simp only [Json.object.sizeOf_spec,Json.array.sizeOf_spec] at this smaller
        omega

theorem getString_object (members : List (String × Json Scalar)) :
    getString fastjson (.object members) = some (fastjson.print (.object members)) := rfl

theorem Part.trans {part json whole : Json Scalar} (inner : Part part json) (outer : Part json whole) : Part part whole := by
  induction outer with
  | whole => exact inner
  | element inside _ ih => exact .element inside ih
  | member inside _ ih => exact .member inside ih

/-- A value is as it was read or as it was printed. -/
def AsPrinted (print : Json Scalar → Json Scalar) : Prop := print = id ∨ print = dropNulls

theorem AsPrinted.object {print : Json Scalar → Json Scalar} (printed : AsPrinted print)
    (members : List (String × Json Scalar)) : ∃ others, print (.object members) = .object others := by
  rcases printed with rfl | rfl
  · exact ⟨members,rfl⟩
  · exact ⟨_,rfl⟩

theorem AsPrinted.array {print : Json Scalar → Json Scalar} (printed : AsPrinted print)
    (elements : List (Json Scalar)) : print (.array elements) = .array (elements.map print) := by
  rcases printed with rfl | rfl
  · rw [List.map_id_fun]
    rfl
  · exact congrArg Json.array (dropElements_eq elements)

theorem AsPrinted.dropNulls {print : Json Scalar → Json Scalar} (printed : AsPrinted print) (json : Json Scalar) :
    dropNulls (print json) = JsonMap.dropNulls json := by
  rcases printed with rfl | rfl
  · rfl
  · exact dropNulls_dropNulls json

private theorem convertible_of_entry (rereads : fastjson.Rereads) {stack : ℕ}
    (ih : ∀ text members, fastjson.parse text = some (dropNulls (.object members)) →
      json2Map fastjson stack (some text) = .ok (representMembers fastjson members) → Convertible (.object members))
    {text : String} {whole : Json Scalar} (read : fastjson.parse text = some whole)
    {print : Json Scalar → Json Scalar} (printed : AsPrinted print) {value : Json Scalar}
    (part : Part (print value) whole)
    (returned : entryValue fastjson (json2Map fastjson stack) (print value) = .ok (represent fastjson value)) :
    Convertible value := by
  have inner : ∀ members, Part (print (.object members)) whole →
      Tree.map <$> json2Map fastjson stack (some (fastjson.print (print (.object members)))) =
        .ok (represent fastjson (.object members)) → Convertible (.object members) := by
    intro members part answered
    obtain ⟨entries,ran,same⟩ := (map_ok_iff _ _ _).mp answered
    cases same
    obtain ⟨others,shape⟩ := printed.object members
    have again := rereads text whole _ read part (by rw [shape]; trivial)
    rw [printed.dropNulls] at again
    exact ih _ members again ran
  cases value with
  | null => exact .null
  | scalar value => exact .scalar value
  | object members =>
    obtain ⟨others,shape⟩ := printed.object members
    rw [shape,entryValue,← shape] at returned
    exact inner members part returned
  | array elements =>
    rw [printed.array] at part returned
    obtain ⟨results,ran,same⟩ := (map_ok_iff _ _ _).mp returned
    cases same
    rw [representAll_eq,json2List,List.mapM_map,mapM_map_iff] at ran
    have objects : ∀ element ∈ elements, ∃ members, element = .object members := by
      intro element inside
      obtain ⟨entries,_,same⟩ := (map_ok_iff _ _ _).mp (ran element inside)
      cases element with
      | object members => exact ⟨members,rfl⟩
      | null => cases same
      | scalar value => cases same
      | array elements => cases same
    refine .array objects fun element inside => ?_
    obtain ⟨members,rfl⟩ := objects element inside
    have answered := ran _ inside
    obtain ⟨others,shape⟩ := printed.object members
    rw [Function.comp_apply,shape,getString_object,← shape] at answered
    exact inner members (.trans (.element (List.mem_map_of_mem inside) (.whole _)) part) answered

/-- The text of an inner object is mapped right only if no member was lost in it. -/
theorem convertible_of_printed (rereads : fastjson.Rereads) (stack : ℕ) (text : String)
    (members : List (String × Json Scalar)) (read : fastjson.parse text = some (dropNulls (.object members)))
    (returned : json2Map fastjson stack (some text) = .ok (representMembers fastjson members)) :
    Convertible (.object members) := by
  induction stack generalizing text members with
  | zero => cases returned
  | succ stack ih =>
    rw [json2Map_members read,mapM_ok_iff,dropMembers_eq,representMembers_eq] at returned
    have lengths := returned.length_eq
    rw [List.length_map,List.length_map,List.length_filter_eq_length_iff] at lengths
    have present : ∀ member ∈ members, member.2.isNull = false := fun member inside =>
      (Bool.not_eq_true' _).mp (lengths member inside)
    rw [List.filter_eq_self.mpr lengths,List.forall₂_map_left_iff,List.forall₂_map_right_iff,List.forall₂_same] at returned
    refine .object present fun member inside => ?_
    obtain ⟨value,ran,same⟩ := (map_ok_iff _ _ _).mp (returned member inside)
    cases same
    apply convertible_of_entry rereads ih read (.inr rfl) _ ran
    rw [dropNulls,dropMembers_eq,List.filter_eq_self.mpr lengths]
    exact .member (List.mem_map_of_mem inside) (.whole _)

private theorem convertible_of_right (rereads : fastjson.Rereads) {text : String}
    {members : List (String × Json Scalar)}
    (read : fastjson.parse text = some (.object members)) (right : Right fastjson text members) :
    ∀ member ∈ members, Convertible member.2 := by
  obtain ⟨enough,returned⟩ := right
  have answer := returned (enough+1) (Nat.le_succ enough)
  rw [json2Map_members read,representMembers_eq,mapM_map_iff] at answer
  intro member inside
  obtain ⟨value,ran,same⟩ := (map_ok_iff _ _ _).mp (answer member inside)
  cases same
  exact convertible_of_entry rereads (convertible_of_printed rereads enough) read (.inl rfl)
    (.member inside (.whole _)) ran

theorem json2Map_right_iff (rereads : fastjson.Rereads) {text : String} {members : List (String × Json Scalar)}
    (read : fastjson.parse text = some (.object members)) :
    Right fastjson text members ↔ ∀ member ∈ members, Convertible member.2 :=
  ⟨convertible_of_right rereads read,fun each =>
    ⟨sizeOf members+1,fun stack room => json2Map_ok rereads stack read each room⟩⟩

def sample : Fastjson ℕ where
  parse text :=
    if text = "\x7b\"a\":\x7b\"b\":1\x7d\x7d" then some (.object [("a",.object [("b",.scalar 1)])])
    else if text = "\x7b\"b\":1\x7d" then some (.object [("b",.scalar 1)])
    else if text = "\x7b\"a\":[1]\x7d" then some (.object [("a",.array [.scalar 1])])
    else if text = "[1]" then some (.array [.scalar 1])
    else if text = "1" then some (.scalar 1)
    else none
  print
    | .object [(_,.object _)] => "\x7b\"a\":\x7b\"b\":1\x7d\x7d"
    | .object [(_,.scalar _)] => "\x7b\"b\":1\x7d"
    | .object _ => "\x7b\"a\":[1]\x7d"
    | _ => "[1]"
  toString := Nat.repr
  toJSONString := Nat.repr

theorem part_object {key : String} {part value : Json ℕ} (inside : Part part (.object [(key,value)])) :
    part = .object [(key,value)] ∨ Part part value := by
  cases inside with
  | whole => exact .inl rfl
  | member member part =>
    rw [List.mem_singleton.mp member] at part
    exact .inr part

theorem sample_rereads : sample.Rereads := by
  have number : ∀ {part : Json ℕ}, Part part (.scalar 1) → part.Structured → False := by
    rintro _ ⟨⟩ structured
    exact structured
  have list : ∀ part : Json ℕ, Part part (.array [.scalar 1]) → part.Structured →
      sample.parse (sample.print part) = some (dropNulls part) := by
    intro part inside structured
    cases inside with
    | whole => simp [sample,dropNulls,dropElements]
    | element member part =>
      rw [List.mem_singleton.mp member] at part
      exact absurd structured (number part)
  have inner : ∀ part : Json ℕ, Part part (.object [("b",.scalar 1)]) → part.Structured →
      sample.parse (sample.print part) = some (dropNulls part) := by
    intro part inside structured
    rcases part_object inside with rfl | deeper
    · simp [sample,dropNulls,dropMembers,Json.isNull]
    · exact absurd structured (number deeper)
  intro text json part read inside structured
  have cases_ : json = .object [("a",.object [("b",.scalar 1)])] ∨ json = .object [("b",.scalar 1)] ∨
      json = .object [("a",.array [.scalar 1])] ∨ json = .array [.scalar 1] ∨ json = .scalar 1 := by
    simp only [sample] at read
    split_ifs at read <;> cases read <;> simp
  rcases cases_ with rfl | rfl | rfl | rfl | rfl
  · rcases part_object inside with rfl | deeper
    · simp [sample,dropNulls,dropMembers,Json.isNull]
    · exact inner part deeper structured
  · exact inner part inside structured
  · rcases part_object inside with rfl | deeper
    · simp [sample,dropNulls,dropMembers,dropElements,Json.isNull]
    · exact list part deeper structured
  · exact list part inside structured
  · exact absurd structured (number inside)

theorem json2Map_right_nested : Right sample "\x7b\"a\":\x7b\"b\":1\x7d\x7d" [("a",.object [("b",.scalar 1)])] := by
  apply (json2Map_right_iff sample_rereads (by simp [sample])).mpr
  rw [List.forall_mem_singleton]
  exact .object (List.forall_mem_singleton.mpr rfl) (List.forall_mem_singleton.mpr (.scalar 1))

theorem json2Map_fails : ¬ Right sample "\x7b\"a\":[1]\x7d" [("a",.array [.scalar 1])] := by
  intro right
  have convertible := convertible_of_right sample_rereads (by simp [sample]) right _ List.mem_cons_self
  cases convertible with
  | array objects _ =>
    obtain ⟨members,same⟩ := objects _ List.mem_cons_self
    cases same

end YzFramework.Util.JsonMap
