import YzFramework.Library.BigDecimal
import YzFramework.Util.BeanUtil

/-! The differences that `CompareDifferenceUtil` reports between two objects of a class.
The set of fields and the set of methods come in any order; null is `none`. -/
namespace YzFramework.Util.ObjectDifference
open Library BeanUtil

/-- A value, the same as others by its `equals`. -/
inductive Value (Other : Type)
  | decimal (value : BigDecimal)
  | other (value : Other)
deriving DecidableEq

structure Difference (Other : Type) where
  oldValue : Option (Value Other)
  newValue : Option (Value Other)

structure DifferenceWapper (Other : Type) where
  column : String
  difference : Difference Other

structure Field where
  name : String
  typeName : String

/-- A method; its result is `none` where it throws. -/
structure Method (Reference Other : Type) where
  name : String
  parameterCount : ℕ
  accessible : Bool
  result : Reference → Option (Option (Value Other))

structure Class (Reference Other : Type) where
  fields : List Field
  methods : List (Method Reference Other)

variable (casing : Casing) {Reference Other : Type}

def ignoreFileds : List String := ["serialVersionUID","createBy","createTime","updateBy","updateTime"]

def filterMethod (methods : List (Method Reference Other)) (methodName : String) :
    Option (Method Reference Other) :=
  methods.find? fun method => method.name = methodName

/-- The match of [A-Z] with one letter. -/
def isUpperString (letter : Char) : Bool := 'A' ≤ letter && letter ≤ 'Z'

/-- The name of the getter of a boolean that has no method named by "get". -/
def booleanName (fieldName : String) : Except String String :=
  if "is".toList <+: fieldName.toList then
    match (fieldName.toList.drop 2).head? with
    | none => .error "StringIndexOutOfBoundsException"
    | some letter => .ok (if isUpperString letter then fieldName else "is" ++ casing.capital fieldName)
  else .ok ("is" ++ casing.capital fieldName)

def findMethod (methods : List (Method Reference Other)) (field : Field) :
    Except String (Option (Method Reference Other)) :=
  if field.name ∈ ignoreFileds then .ok none
  else
    match filterMethod methods ("get" ++ casing.capital field.name) with
    | some method => .ok (some method)
    | none =>
      if field.typeName = "boolean" then (booleanName casing field.name).map (filterMethod methods)
      else .ok none

def Method.invoke (method : Method Reference Other) (reference : Reference) :
    Except String (Option (Value Other)) :=
  if method.accessible = false then .error "IllegalAccessException"
  else if method.parameterCount ≠ 0 then .error "IllegalArgumentException"
  else
    match method.result reference with
    | none => .error "InvocationTargetException"
    | some value => .ok value

def isName (fieldName : String) : String :=
  if "is".toList <+: fieldName.toList ∧ (fieldName.toList.drop 2).head?.any isUpperString then fieldName
  else "is" ++ casing.capital fieldName

variable (methods : List (Method Reference Other))

/-- The method by which a field is compared. -/
inductive Getter (field : Field) (method : Method Reference Other) : Prop
  | get (found : filterMethod methods ("get" ++ casing.capital field.name) = some method)
  | is (absent : filterMethod methods ("get" ++ casing.capital field.name) = none)
    (boolean : field.typeName = "boolean") (found : filterMethod methods (isName casing field.name) = some method)

variable {casing methods} {field : Field}

theorem getter_unique {first second : Field} {method other : Method Reference Other} (names : first.name = second.name)
    (getter : Getter casing methods first method) (alsoGetter : Getter casing methods second other) : method = other := by
  cases getter with
  | get found =>
    rw [names] at found
    cases alsoGetter with
    | get alsoFound => exact Option.some.inj (found.symm.trans alsoFound)
    | is absent => cases found.symm.trans absent
  | is absent _ found =>
    rw [names] at absent found
    cases alsoGetter with
    | get alsoFound => cases absent.symm.trans alsoFound
    | is _ _ alsoFound => exact Option.some.inj (found.symm.trans alsoFound)

theorem booleanName_ok {fieldName : String} (longer : fieldName ≠ "is") :
    booleanName casing fieldName = .ok (isName casing fieldName) := by
  by_cases starts : "is".toList <+: fieldName.toList
  · obtain ⟨rest,whole⟩ := starts
    have starts : "is".toList <+: fieldName.toList := ⟨rest,whole⟩
    rw [booleanName,isName,if_pos starts]
    have tail : fieldName.toList.drop 2 = rest := by
      rw [← whole]
      rfl
    rw [tail]
    cases rest with
    | nil => exact absurd (String.toList_inj.mp (whole.symm.trans (List.append_nil _))) longer
    | cons letter rest =>
      cases upper : isUpperString letter with
      | false => simp [upper]
      | true => simp [upper,show ['i','s'] <+: fieldName.toList from starts]
  · rw [booleanName,isName,if_neg starts,if_neg fun both => starts both.1]

theorem findMethod_ok (kept : field.name ∉ ignoreFileds)
    (named : field.typeName = "boolean" → field.name = "is" →
      filterMethod methods ("get" ++ casing.capital field.name) ≠ none) :
    ∃ found, findMethod casing methods field = .ok found ∧
      ∀ method, found = some method ↔ Getter casing methods field method := by
  rw [findMethod,if_neg kept]
  cases got : filterMethod methods ("get" ++ casing.capital field.name) with
  | some method =>
    refine ⟨some method,rfl,fun other => ⟨fun same => .get (got.trans same),fun getter => ?_⟩⟩
    exact congrArg some (getter_unique rfl (.get got) getter)
  | none =>
    by_cases boolean : field.typeName = "boolean"
    · have name : booleanName casing field.name = _ := booleanName_ok fun short => named boolean short got
      refine ⟨_,(if_pos boolean).trans (congrArg _ name),fun other => ⟨fun found => .is got boolean found,fun getter => ?_⟩⟩
      cases getter with
      | get found => cases got.symm.trans found
      | is _ _ found => exact found
    · refine ⟨none,if_neg boolean,fun other => ⟨nofun,fun getter => ?_⟩⟩
      cases getter with
      | get found => cases got.symm.trans found
      | is _ also => exact absurd also boolean

theorem findMethod_is (boolean : field.typeName = "boolean") (short : field.name = "is")
    (absent : filterMethod methods ("get" ++ casing.capital field.name) = none) :
    findMethod casing methods field = .error "StringIndexOutOfBoundsException" := by
  rw [findMethod,absent,short,if_neg (by decide)]
  exact if_pos boolean

variable (casing methods) (old : Option Reference) (new : Reference)

/-- The value of the old object, null where there is no old object. -/
def oldResult (method : Method Reference Other) : Option (Option (Value Other)) :=
  match old with
  | none => some none
  | some reference => method.result reference

structure Compared (field : Field) (oldValue newValue : Option (Value Other)) : Prop where
  kept : field.name ∉ ignoreFileds
  getter : ∃ method, Getter casing methods field method ∧ oldResult old method = some oldValue ∧
    method.result new = some newValue

/-- A decimal that is compared with another value. -/
def Miscast (oldValue newValue : Option (Value Other)) : Prop :=
  ∃ first second, oldValue = some (.other first) ∧ newValue = some (.decimal second)

/-- A field whose getter can be named and called, and whose values can be compared. -/
structure Comparable (field : Field) : Prop where
  named : field.typeName = "boolean" → field.name = "is" →
    filterMethod methods ("get" ++ casing.capital field.name) ≠ none
  callable : ∀ method, Getter casing methods field method → method.accessible = true ∧ method.parameterCount = 0
  castable : ∀ oldValue newValue, Compared casing methods old new field oldValue newValue → ¬ Miscast oldValue newValue

/-- The getter of a field throws in neither object. -/
def Calm (field : Field) : Prop := ∀ method, Getter casing methods field method → method.parameterCount = 0 →
  method.result new ≠ none ∧ oldResult old method ≠ none

def entry (field : Field) (oldValue newValue : Option (Value Other)) : DifferenceWapper Other :=
  ⟨field.name,⟨oldValue,newValue⟩⟩

/-- The value of a column after the reported new values are taken over. -/
def patched (report : List (DifferenceWapper Other)) (column : String) (oldValue : Option (Value Other)) :
    Option (Value Other) :=
  match report.find? fun entry => entry.column = column with
  | none => oldValue
  | some entry => entry.difference.newValue

variable {casing methods old new}

private theorem compared_unique {first second : Field}
    {oldValue newValue oldOther newOther : Option (Value Other)}
    (names : first.name = second.name) (compared : Compared casing methods old new first oldValue newValue)
    (alsoCompared : Compared casing methods old new second oldOther newOther) :
    oldValue = oldOther ∧ newValue = newOther := by
  obtain ⟨method,getter,oldRead,newRead⟩ := compared.getter
  obtain ⟨other,alsoGetter,alsoOld,alsoNew⟩ := alsoCompared.getter
  cases getter_unique names getter alsoGetter
  exact ⟨Option.some.inj (oldRead.symm.trans alsoOld),Option.some.inj (newRead.symm.trans alsoNew)⟩

theorem getter_mem {method : Method Reference Other} (getter : Getter casing methods field method) : method ∈ methods := by
  cases getter with
  | get found => exact List.mem_of_find?_eq_some found
  | is _ _ found => exact List.mem_of_find?_eq_some found

theorem invoke_ok {method : Method Reference Other} {reference : Reference} {value : Option (Value Other)}
    (callable : method.accessible = true ∧ method.parameterCount = 0) (read : method.result reference = some value) :
    method.invoke reference = .ok value := by
  rw [Method.invoke,callable.1,callable.2,read]
  rfl

theorem invoke_error {method : Method Reference Other} (wrong : ¬ (method.accessible = true ∧ method.parameterCount = 0))
    (reference : Reference) : ∃ fault, method.invoke reference = .error fault := by
  rw [Method.invoke]
  cases open_ : method.accessible with
  | false => exact ⟨_,rfl⟩
  | true => exact ⟨_,if_pos fun none => wrong ⟨open_,none⟩⟩

def selected (report : List (DifferenceWapper Other)) : List (DifferenceWapper Other) :=
  report.filter fun reported => reported.difference.newValue.isSome

theorem selected_flatMap (fields : List Field) (found : Field → List (DifferenceWapper Other)) :
    selected (fields.flatMap found) = fields.flatMap fun field => selected (found field) := List.filter_flatMap

variable [DecidableEq Other] (casing)

/-- The values are equal, decimals up to their scale. -/
def same : Option (Value Other) → Option (Value Other) → Bool
  | some (.decimal oldValue),some (.decimal newValue) => newValue.compareTo oldValue == .eq
  | oldValue,newValue => oldValue == newValue

def compareValues (selective : Bool) (fieldName : String) (oldValue newValue : Option (Value Other)) :
    Except String (List (DifferenceWapper Other)) :=
  let report := [⟨fieldName,⟨oldValue,newValue⟩⟩]
  match oldValue with
  | none =>
    match newValue with
    | none => .ok []
    | some _ => .ok report
  | some oldValue =>
    match newValue with
    | some (.decimal newValue1) =>
      match oldValue with
      | .decimal oldValue1 => .ok (if newValue1.compareTo oldValue1 ≠ .eq then report else [])
      | .other _ => .error "ClassCastException"
    | some newValue => .ok (if oldValue ≠ newValue then report else [])
    | none => .ok (if !selective then report else [])

/-- The handler of the exceptions of a call by reflection. -/
def rethrow {Reply : Type} : Except String Reply → Except String Reply
  | .ok reply => .ok reply
  | .error fault =>
    if fault ∈ ["IllegalAccessException","IllegalArgumentException","InvocationTargetException"] then
      .error "RuntimeException"
    else .error fault

/-- One pass of the loop; it adds nothing where the source continues. -/
def compareField (selective : Bool) (methods : List (Method Reference Other)) (oldObj : Option Reference)
    (newObj : Reference) (field : Field) : Except String (List (DifferenceWapper Other)) := do
  match ← findMethod casing methods field with
  | none => pure []
  | some method => rethrow do
    let oldValue ← match oldObj with
      | none => pure none
      | some oldObj => method.invoke oldObj
    let newValue ← method.invoke newObj
    compareValues selective field.name oldValue newValue

def compareFields (onlyCheck selective : Bool) (methods : List (Method Reference Other))
    (oldObj : Option Reference) (newObj : Reference) :
    List Field → List (DifferenceWapper Other) → Except String (List (DifferenceWapper Other))
  | [],result => .ok result
  | field::fields,result =>
    match compareField casing selective methods oldObj newObj field with
    | .error fault => .error fault
    | .ok found =>
      if onlyCheck && !(result ++ found).isEmpty then .ok (result ++ found)
      else compareFields onlyCheck selective methods oldObj newObj fields (result ++ found)

variable {casing}

theorem same_self (value : Option (Value Other)) : same value value = true := by
  cases value with
  | none => rfl
  | some value =>
    cases value with
    | decimal value => exact beq_iff_eq.mpr (compare_eq_iff_eq.mpr rfl)
    | other value => exact beq_self_eq_true _

theorem compareValues_ok (selective : Bool) {oldValue newValue : Option (Value Other)}
    (castable : ¬ Miscast oldValue newValue) :
    compareValues selective field.name oldValue newValue =
      .ok (if same oldValue newValue = true ∨ (selective = true ∧ newValue = none) then []
        else [entry field oldValue newValue]) := by
  cases oldValue with
  | none => cases newValue <;> simp [compareValues,same,entry]
  | some first =>
    cases newValue with
    | none => cases selective <;> simp [compareValues,same,entry]
    | some second =>
      cases second with
      | decimal second =>
        cases first with
        | decimal first => by_cases equal : second.compareTo first = .eq <;> simp [compareValues,same,entry,equal]
        | other first => exact absurd ⟨first,second,rfl,rfl⟩ castable
      | other second => by_cases equal : first = .other second <;> cases first <;> simp_all [compareValues,same,entry]

theorem rethrow_error (Reply : Type) (fault : String) : ∃ thrown, rethrow (.error fault : Except String Reply) = .error thrown := by
  rw [rethrow]
  split <;> exact ⟨_,rfl⟩

theorem compareField_method (selective : Bool) {method : Method Reference Other}
    (found : findMethod casing methods field = .ok (some method)) {oldValue newValue : Option (Value Other)}
    (callable : method.accessible = true ∧ method.parameterCount = 0) (oldRead : oldResult old method = some oldValue)
    (newRead : method.result new = some newValue) :
    compareField casing selective methods old new field =
      rethrow (compareValues selective field.name oldValue newValue) := by
  have later := invoke_ok callable newRead
  cases old with
  | none =>
    cases oldRead
    simp [compareField,found,later,bind,Except.bind,pure,Except.pure]
  | some reference =>
    have earlier := invoke_ok callable (show method.result reference = some oldValue from oldRead)
    simp [compareField,found,later,earlier,bind,Except.bind]

variable (old new) in
theorem compareField_uncallable (selective : Bool) {method : Method Reference Other}
    (found : findMethod casing methods field = .ok (some method))
    (wrong : ¬ (method.accessible = true ∧ method.parameterCount = 0)) :
    ∃ fault, compareField casing selective methods old new field = .error fault := by
  obtain ⟨later,newFails⟩ := invoke_error wrong new
  cases old with
  | none =>
    obtain ⟨thrown,same⟩ := rethrow_error (List (DifferenceWapper Other)) later
    exact ⟨thrown,by simp [compareField,found,newFails,bind,Except.bind,pure,Except.pure,same]⟩
  | some reference =>
    obtain ⟨earlier,oldFails⟩ := invoke_error wrong reference
    obtain ⟨thrown,same⟩ := rethrow_error (List (DifferenceWapper Other)) earlier
    exact ⟨thrown,by simp [compareField,found,oldFails,bind,Except.bind,same]⟩

variable (casing methods old new)

/-- The entries that one field adds in both modes. -/
structure Adds (field : Field) (found : List (DifferenceWapper Other)) : Prop where
  all : compareField casing false methods old new field = .ok found
  present : compareField casing true methods old new field = .ok (selected found)
  entries : ∀ reported, reported ∈ found ↔ ∃ oldValue newValue,
    Compared casing methods old new field oldValue newValue ∧ same oldValue newValue = false ∧
      reported = entry field oldValue newValue

variable {casing methods old new}

theorem adds_nothing (skipped : findMethod casing methods field = .ok none)
    (absent : ∀ oldValue newValue, ¬ Compared casing methods old new field oldValue newValue) :
    Adds casing methods old new field [] := by
  have nothing : ∀ selective, compareField casing selective methods old new field = .ok [] := by
    intro selective
    rw [compareField,skipped]
    rfl
  refine ⟨nothing false,nothing true,fun reported => ⟨nofun,?_⟩⟩
  rintro ⟨oldValue,newValue,compared,_⟩
  exact absurd compared (absent oldValue newValue)

theorem adds_values {oldValue newValue : Option (Value Other)}
    (compared : Compared casing methods old new field oldValue newValue)
    (added : ∀ selective, compareField casing selective methods old new field =
      .ok (if same oldValue newValue = true ∨ (selective = true ∧ newValue = none) then []
        else [entry field oldValue newValue])) :
    Adds casing methods old new field (if same oldValue newValue = true then [] else [entry field oldValue newValue]) where
  all := by
    rw [added false]
    simp
  present := by
    rw [added true]
    apply congrArg
    by_cases equal : same oldValue newValue = true
    · simp [equal,selected]
    · cases newValue <;> simp [equal,selected,entry]
  entries := by
    intro reported
    constructor
    · intro member
      by_cases equal : same oldValue newValue = true
      · simp [equal] at member
      · exact ⟨oldValue,newValue,compared,Bool.not_eq_true _ ▸ equal,by simpa [equal] using member⟩
    · rintro ⟨oldOther,newOther,alsoCompared,unequal,rfl⟩
      obtain ⟨rfl,rfl⟩ := compared_unique rfl compared alsoCompared
      simp [unequal]

theorem compareField_ok (calm : Calm casing methods old new field)
    (fine : field.name ∉ ignoreFileds → Comparable casing methods old new field) :
    ∃ found, Adds casing methods old new field found := by
  by_cases ignored : field.name ∈ ignoreFileds
  · exact ⟨[],adds_nothing (if_pos ignored) fun _ _ compared => compared.kept ignored⟩
  · obtain ⟨found,name,getters⟩ := findMethod_ok ignored (fine ignored).named
    cases found with
    | none =>
      refine ⟨[],adds_nothing name ?_⟩
      intro oldValue newValue compared
      obtain ⟨method,getter,_⟩ := compared.getter
      cases (getters method).mpr getter
    | some method =>
      have getter := (getters method).mp rfl
      have callable := (fine ignored).callable method getter
      obtain ⟨newCalm,oldCalm⟩ := calm method getter callable.2
      obtain ⟨newValue,newRead⟩ := Option.ne_none_iff_exists'.mp newCalm
      obtain ⟨oldValue,oldRead⟩ := Option.ne_none_iff_exists'.mp oldCalm
      have compared : Compared casing methods old new field oldValue newValue :=
        ⟨ignored,method,getter,oldRead,newRead⟩
      have castable := (fine ignored).castable _ _ compared
      have added : ∀ selective, compareField casing selective methods old new field =
          .ok (if same oldValue newValue = true ∨ (selective = true ∧ newValue = none) then []
            else [entry field oldValue newValue]) := fun selective => by
        rw [compareField_method selective name callable oldRead newRead,compareValues_ok _ castable]
        rfl
      exact ⟨_,adds_values compared added⟩

private theorem comparable_of_ok {found : List (DifferenceWapper Other)}
    (returned : compareField casing false methods old new field = .ok found) (kept : field.name ∉ ignoreFileds) :
    Comparable casing methods old new field := by
  have named : field.typeName = "boolean" → field.name = "is" →
      filterMethod methods ("get" ++ casing.capital field.name) ≠ none := by
    intro boolean short absent
    rw [compareField,findMethod_is boolean short absent] at returned
    cases returned
  obtain ⟨method?,name,getters⟩ := findMethod_ok kept named
  have callable : ∀ method, Getter casing methods field method →
      method.accessible = true ∧ method.parameterCount = 0 := by
    intro method getter
    by_contra wrong
    rw [(getters method).mpr getter] at name
    obtain ⟨fault,failed⟩ := compareField_uncallable old new false name wrong
    cases returned.symm.trans failed
  refine ⟨named,callable,?_⟩
  rintro _ _ compared ⟨first,second,rfl,rfl⟩
  obtain ⟨method,getter,oldRead,newRead⟩ := compared.getter
  rw [(getters method).mpr getter] at name
  have failed := compareField_method false name (callable method getter) oldRead newRead
  cases returned.symm.trans failed

theorem compareFields_all {selective : Bool} {found : Field → List (DifferenceWapper Other)} (fields : List Field)
    (each : ∀ field ∈ fields, compareField casing selective methods old new field = .ok (found field))
    (result : List (DifferenceWapper Other)) :
    compareFields casing false selective methods old new fields result = .ok (result ++ fields.flatMap found) := by
  induction fields generalizing result with
  | nil => simp [compareFields]
  | cons field rest ih =>
    rw [List.forall_mem_cons] at each
    rw [compareFields,each.1]
    simp [ih each.2]

theorem compareFields_check {selective : Bool} {found : Field → List (DifferenceWapper Other)} (fields : List Field)
    (each : ∀ field ∈ fields, compareField casing selective methods old new field = .ok (found field)) :
    ∃ report, compareFields casing true selective methods old new fields [] = .ok report ∧
      report.isEmpty = (fields.flatMap found).isEmpty := by
  induction fields with
  | nil => exact ⟨[],rfl,rfl⟩
  | cons field rest ih =>
    rw [List.forall_mem_cons] at each
    obtain ⟨report,ran,same⟩ := ih each.2
    rw [compareFields,each.1,List.flatMap_cons]
    cases first : found field with
    | nil => exact ⟨report,ran,same⟩
    | cons reported more => exact ⟨reported::more,rfl,rfl⟩

theorem compareFields_each {selective : Bool} (fields : List Field) {result report : List (DifferenceWapper Other)}
    (ran : compareFields casing false selective methods old new fields result = .ok report) :
    ∀ field ∈ fields, ∃ found, compareField casing selective methods old new field = .ok found := by
  induction fields generalizing result with
  | nil => nofun
  | cons field rest ih =>
    rw [compareFields] at ran
    cases first : compareField casing selective methods old new field with
    | error fault =>
      rw [first] at ran
      cases ran
    | ok found =>
      rw [first] at ran
      exact List.forall_mem_cons.mpr ⟨⟨found,first⟩,ih ran⟩

variable (casing methods old new)

/-- A report of the fields that differ, from which the new values can be restored. -/
structure Reports (fields : List Field) (report : List (DifferenceWapper Other)) : Prop where
  patches : ∀ field ∈ fields, ∀ oldValue newValue, Compared casing methods old new field oldValue newValue →
    same (patched report field.name oldValue) newValue = true
  unequal : ∀ reported ∈ report, ∃ field ∈ fields, ∃ oldValue newValue,
    Compared casing methods old new field oldValue newValue ∧ same oldValue newValue = false ∧
      reported = entry field oldValue newValue

variable {casing methods old new}

private theorem reports_flatMap {fields : List Field} {found : Field → List (DifferenceWapper Other)}
    (each : ∀ field ∈ fields, Adds casing methods old new field (found field)) :
    Reports casing methods old new fields (fields.flatMap found) where
  patches := by
    intro field member oldValue newValue compared
    rw [patched]
    cases hit : (fields.flatMap found).find? fun reported => reported.column = field.name with
    | some reported =>
      obtain ⟨other,inside,added⟩ := List.mem_flatMap.mp (List.mem_of_find?_eq_some hit)
      obtain ⟨oldOther,newOther,alsoCompared,_,rfl⟩ := ((each other inside).entries reported).mp added
      have test := List.find?_some hit
      have names : other.name = field.name := of_decide_eq_true test
      obtain ⟨_,rfl⟩ := compared_unique names alsoCompared compared
      exact same_self newOther
    | none =>
      by_contra unequal
      rw [Bool.not_eq_true] at unequal
      have added := ((each field member).entries _).mpr ⟨oldValue,newValue,compared,unequal,rfl⟩
      exact List.find?_eq_none.mp hit _ (List.mem_flatMap_of_mem member added) (decide_eq_true rfl)
  unequal := by
    intro reported member
    obtain ⟨field,inside,added⟩ := List.mem_flatMap.mp member
    exact ⟨field,inside,((each field inside).entries reported).mp added⟩

variable (casing) [DecidableEq Reference] (getClass : Reference → String) (shape : String → Class Reference Other)

def getDiffernceList (oldObj newObj : Option Reference) (onlyCheck selective : Bool) :
    Except String (List (DifferenceWapper Other)) :=
  match newObj with
  | none =>
    match oldObj with
    | none => .ok []
    | some _ => .error "更改后的对象不能为null"
  | some newObj =>
    if oldObj.any fun oldObj => getClass newObj ≠ getClass oldObj then .error "两个需要比较的对象必须为同一类型"
    else if oldObj = some newObj then .ok []
    else
      let type := shape (getClass newObj)
      compareFields casing onlyCheck selective type.methods oldObj newObj type.fields []

def isDifference (oldObj newObj : Option Reference) : Except String Bool :=
  (getDiffernceList casing getClass shape oldObj newObj true false).map fun result => !result.isEmpty

def isDifferenceSelective (oldObj newObj : Option Reference) : Except String Bool :=
  (getDiffernceList casing getClass shape oldObj newObj true true).map fun result => !result.isEmpty

variable (old new)

/-- The comparisons of two objects return, and all four agree with the values. -/
def Right : Prop := ∃ report,
  Reports casing (shape (getClass new)).methods old new (shape (getClass new)).fields report ∧
  getDiffernceList casing getClass shape old (some new) false false = .ok report ∧
  getDiffernceList casing getClass shape old (some new) false true = .ok (selected report) ∧
  isDifference casing getClass shape old (some new) = .ok (!report.isEmpty) ∧
  isDifferenceSelective casing getClass shape old (some new) = .ok (!(selected report).isEmpty)

variable {casing old new getClass shape}

theorem getDiffernceList_loop (onlyCheck selective : Bool) (sameClass : ∀ reference ∈ old, getClass new = getClass reference)
    (different : old ≠ some new) : getDiffernceList casing getClass shape old (some new) onlyCheck selective =
      compareFields casing onlyCheck selective (shape (getClass new)).methods old new (shape (getClass new)).fields [] := by
  rw [getDiffernceList,if_neg,if_neg different]
  rw [Option.any_eq_true]
  rintro ⟨reference,held,unequal⟩
  exact absurd (sameClass reference held) (of_decide_eq_true unequal)

private theorem right_self : Right casing (some new) new getClass shape := by
  have nothing : ∀ onlyCheck selective,
      getDiffernceList casing getClass shape (some new) (some new) onlyCheck selective = .ok [] := by
    intro onlyCheck selective
    simp [getDiffernceList]
  refine ⟨[],⟨?_,fun _ member => absurd member List.not_mem_nil⟩,nothing _ _,nothing _ _,?_,?_⟩
  · intro field _ oldValue newValue compared
    obtain ⟨method,_,oldRead,newRead⟩ := compared.getter
    cases Option.some.inj (oldRead.symm.trans newRead)
    exact same_self oldValue
  · rw [isDifference,nothing]
    rfl
  · rw [isDifferenceSelective,nothing]
    rfl

private theorem comparable_of_right (sameClass : ∀ reference ∈ old, getClass new = getClass reference)
    (different : old ≠ some new) (right : Right casing old new getClass shape) :
    ∀ field ∈ (shape (getClass new)).fields, field.name ∉ ignoreFileds →
      Comparable casing (shape (getClass new)).methods old new field := by
  obtain ⟨report,_,ran,_⟩ := right
  rw [getDiffernceList_loop _ _ sameClass different] at ran
  intro field member kept
  obtain ⟨found,returned⟩ := compareFields_each _ ran field member
  exact comparable_of_ok returned kept

private theorem right_of_comparable (sameClass : ∀ reference ∈ old, getClass new = getClass reference)
    (different : old ≠ some new)
    (calm : ∀ field ∈ (shape (getClass new)).fields, Calm casing (shape (getClass new)).methods old new field)
    (fine : ∀ field ∈ (shape (getClass new)).fields, field.name ∉ ignoreFileds →
      Comparable casing (shape (getClass new)).methods old new field) : Right casing old new getClass shape := by
  have loop : ∀ onlyCheck selective, getDiffernceList casing getClass shape old (some new) onlyCheck selective = _ :=
    fun onlyCheck selective => getDiffernceList_loop onlyCheck selective sameClass different
  have adds : ∀ field, ∃ found, field ∈ (shape (getClass new)).fields →
      Adds casing (shape (getClass new)).methods old new field found := by
    intro field
    by_cases member : field ∈ (shape (getClass new)).fields
    · obtain ⟨found,added⟩ := compareField_ok (calm field member) (fine field member)
      exact ⟨found,fun _ => added⟩
    · exact ⟨[],fun inside => absurd inside member⟩
  choose found added using adds
  have all := fun field member => (added field member).all
  have present := fun field member => (added field member).present
  obtain ⟨early,ranEarly,sameEarly⟩ := compareFields_check _ all
  obtain ⟨earlySome,ranEarlySome,sameEarlySome⟩ := compareFields_check _ present
  refine ⟨_,reports_flatMap added,(loop _ _).trans (compareFields_all _ all []),?_,?_,?_⟩
  · rw [selected_flatMap]
    exact (loop _ _).trans (compareFields_all _ present [])
  · rw [isDifference,loop,ranEarly,← sameEarly]
    rfl
  · rw [isDifferenceSelective,loop,ranEarlySome,selected_flatMap,← sameEarlySome]
    rfl

theorem getDiffernceList_right_iff (sameClass : ∀ reference ∈ old, getClass new = getClass reference)
    (calm : ∀ field ∈ (shape (getClass new)).fields, Calm casing (shape (getClass new)).methods old new field) :
    Right casing old new getClass shape ↔
      old = some new ∨ ∀ field ∈ (shape (getClass new)).fields, field.name ∉ ignoreFileds →
        Comparable casing (shape (getClass new)).methods old new field := by
  by_cases different : old = some new
  · rw [different]
    exact ⟨fun _ => .inl rfl,fun _ => right_self⟩
  · rw [or_iff_right different]
    exact ⟨comparable_of_right sameClass different,right_of_comparable sameClass different calm⟩

def flag : Class Bool ℕ where
  fields := [⟨"is","boolean"⟩]
  methods := [⟨"isIs",0,true,fun set => some (some (.other set.toNat))⟩]

def getFlag : Class Bool ℕ where
  fields := [⟨"is","boolean"⟩]
  methods := [⟨"getIs",0,true,fun set => some (some (.other set.toNat))⟩]

theorem getDiffernceList_right_get : Right ascii (some false) true (fun _ => "Flag") (fun _ => getFlag) := by
  have only : ∀ field method, Getter ascii getFlag.methods field method →
      method = ⟨"getIs",0,true,fun set => some (some (.other set.toNat))⟩ := fun field method getter =>
    List.mem_singleton.mp (getter_mem getter)
  apply (getDiffernceList_right_iff (fun _ _ => rfl) ?_).mpr
  · apply Or.inr
    rintro field member -
    cases List.mem_singleton.mp member
    refine ⟨fun _ _ => by decide +kernel,fun method getter => ?_,?_⟩
    · rw [only _ _ getter]
      exact ⟨rfl,rfl⟩
    · rintro _ _ compared ⟨first,second,rfl,rfl⟩
      obtain ⟨method,getter,_,newRead⟩ := compared.getter
      rw [only _ _ getter] at newRead
      cases newRead
  · intro field _ method getter _
    rw [only _ _ getter]
    exact ⟨nofun,nofun⟩

theorem getDiffernceList_fails : ¬ Right ascii (some false) true (fun _ => "Flag") (fun _ => flag) := by
  intro right
  have fine := comparable_of_right (fun _ _ => rfl) (by decide) right ⟨"is","boolean"⟩ List.mem_cons_self
  exact (fine (by decide)).named rfl rfl (by decide +kernel)

end YzFramework.Util.ObjectDifference
