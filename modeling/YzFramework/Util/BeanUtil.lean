import Mathlib.Logic.Function.Basic
import Mathlib.Data.List.Infix
import YzFramework.Library.Script

/-! The property copies of `BeanUtil` between two beans. The letter cases of Java are
given by `Casing`; null is `none`, and the errors are the names of the exceptions. -/
namespace YzFramework.Util.BeanUtil
open Library Library.Script

structure Casing where
  toUpperCase : String → String
  toLowerCase : String → String

def substring (text : String) (start : ℕ) : String := String.ofList (text.toList.drop start)

def contains (text part : String) : Bool := decide (part.toList <:+: text.toList)

namespace Casing

variable (casing : Casing)

/-- The name of a property as it stands in the names of its methods. -/
def capital (property : String) : String :=
  casing.toUpperCase (String.ofList (property.toList.take 1)) ++ substring property 1

/-- `str.substring(0, 1).toLowerCase() + str.substring(1)` -/
def decapital (str : String) : String :=
  casing.toLowerCase (String.ofList (str.toList.take 1)) ++ substring str 1

/-- A name in camel case, which its capital form gives back. -/
def Camel (property : String) : Prop :=
  casing.capital property ≠ "" ∧ casing.decapital (casing.capital property) = property

end Casing

inductive Method
  | getter (property : String)
  | setter (property : String)
deriving DecidableEq

def Method.property : Method → String
  | getter property => property
  | setter property => property

def Method.name (casing : Casing) : Method → String
  | getter property => "get" ++ casing.capital property
  | setter property => "set" ++ casing.capital property

abbrev Values (Value : Type) := String → Option Value

/-- A bean: the methods that its class declares, in any order, and its properties. -/
structure Bean (casing : Casing) (Value : Type) where
  methods : List Method
  values : Values Value
  camel : ∀ method ∈ methods, casing.Camel method.property

variable (casing : Casing) {Value : Type} (empty : Value → Bool)

def findMethodByName (methods : List Method) (name : String) : Option Method :=
  methods.find? fun method => method.name casing = name

/-- One pass of either loop; `accepts` is its check of the list, `none` an exception. -/
def copyMethod (accepts : String → Option Bool) (source : Values Value) (toMethods : List Method)
    (fromMethod : Method) : Script (Values Value) Unit := fun target =>
  let fromMethodName := fromMethod.name casing
  if !contains fromMethodName "get" then (.ok (),target)
  else
    match accepts (substring fromMethodName 3) with
    | none => (.error "StringIndexOutOfBoundsException",target)
    | some false => (.ok (),target)
    | some true =>
      match findMethodByName casing toMethods ("set" ++ substring fromMethodName 3) with
      | none => (.ok (),target)
      | some toMethod =>
        match fromMethod with
        | .setter _ => (.error "IllegalArgumentException",target)
        | .getter property =>
          match source property with
          | none => (.ok (),target)
          | some value =>
            if empty value then (.ok (),target)
            else
              match toMethod with
              | .getter _ => (.error "IllegalArgumentException",target)
              | .setter property => (.ok (),Function.update target property (some value))

def notExcluded (excludesList : List String) (str : String) : Option Bool :=
  some (casing.toLowerCase str ∉ excludesList)

def isIncluded (includesList : List String) (str : String) : Option Bool :=
  if str = "" then none else some (casing.decapital str ∈ includesList)

def copyPropertiesExclude (source target : Bean casing Value) (excludsArray : Option (List String)) :
    Script (Values Value) Unit :=
  let excludesList := excludsArray.getD []
  source.methods.forM <| copyMethod casing empty (notExcluded casing excludesList) source.values target.methods

def copyPropertiesInclude (source target : Bean casing Value) (includsArray : Option (List String)) :
    Script (Values Value) Unit :=
  let includesList := includsArray.getD []
  if includesList = [] then pure ()
  else source.methods.forM <| copyMethod casing empty (isIncluded casing includesList) source.values target.methods

variable {casing} {accepts : String → Option Bool} (source : Values Value) {toMethods : List Method}

theorem substring_append (first second : String) : substring (first ++ second) first.toList.length = second := by
  rw [substring,String.toList_append,List.drop_left,String.ofList_toList]

theorem substring_name (method : Method) : substring (method.name casing) 3 = casing.capital method.property := by
  cases method with
  | getter property => exact substring_append "get" _
  | setter property => exact substring_append "set" _

theorem capital_inj {first second : String} (camel : casing.Camel first) (alsoCamel : casing.Camel second)
    (same : casing.capital first = casing.capital second) : first = second := by
  rw [← camel.2,same,alsoCamel.2]

theorem name_setter {method : Method} {property : String} (camel : casing.Camel method.property)
    (alsoCamel : casing.Camel property) :
    method.name casing = "set" ++ casing.capital property ↔ method = .setter property := by
  constructor
  · intro same
    cases method with
    | getter other =>
      have letters := congrArg (fun name => name.toList.head?) same
      simp [Method.name] at letters
    | setter other =>
      rw [Method.name,String.append_right_inj] at same
      exact congrArg Method.setter (capital_inj camel alsoCamel same)
  · rintro rfl
    rfl

theorem findMethodByName_setter (camels : ∀ method ∈ toMethods, casing.Camel method.property) {property : String}
    (camel : casing.Camel property) :
    findMethodByName casing toMethods ("set" ++ casing.capital property) =
      if .setter property ∈ toMethods then some (.setter property) else none := by
  have named : ∀ method ∈ toMethods, decide (method.name casing = "set" ++ casing.capital property) = true ↔
      method = .setter property := fun method inside => by
    rw [decide_eq_true_eq,name_setter (camels method inside) camel]
  rw [findMethodByName]
  cases found : toMethods.find? fun method => method.name casing = "set" ++ casing.capital property with
  | none =>
    rw [if_neg]
    intro member
    exact List.find?_eq_none.mp found _ member ((named _ member).mpr rfl)
  | some method =>
    have inside := List.mem_of_find?_eq_some found
    have test := List.find?_some found
    have same := (named method inside).mp test
    rw [same] at inside ⊢
    rw [if_pos inside]

def copyable (empty : Value → Bool) : Option Value → Bool
  | none => false
  | some value => !empty value

/-- A setter that is taken for a getter. -/
def offends (casing : Casing) (accepts : String → Option Bool) (toMethods : List Method) (property : String) : Bool :=
  contains ((Method.setter property).name casing) "get" && accepts (casing.capital property) == some true &&
    decide (.setter property ∈ toMethods)

/-- A property that the loop copies. -/
def copies (casing : Casing) (empty : Value → Bool) (accepts : String → Option Bool) (source : Values Value)
    (toMethods : List Method) (property : String) : Bool :=
  accepts (casing.capital property) == some true && decide (.setter property ∈ toMethods) &&
    copyable empty (source property)

theorem offends_iff {property : String} : offends casing accepts toMethods property = true ↔
    contains ((Method.setter property).name casing) "get" = true ∧ accepts (casing.capital property) = some true ∧
      .setter property ∈ toMethods := by
  rw [offends,Bool.and_eq_true,Bool.and_eq_true,beq_iff_eq,decide_eq_true_eq,and_assoc]

theorem copies_iff {property : String} : copies casing empty accepts source toMethods property = true ↔
    (accepts (casing.capital property) = some true ∧ .setter property ∈ toMethods) ∧
      copyable empty (source property) = true := by
  rw [copies,Bool.and_eq_true,Bool.and_eq_true,beq_iff_eq,decide_eq_true_eq]

theorem copyMethod_setter (camels : ∀ method ∈ toMethods, casing.Camel method.property) {property : String}
    (camel : casing.Camel property) (total : accepts (casing.capital property) ≠ none) (target : Values Value) :
    copyMethod casing empty accepts source toMethods (.setter property) target =
      (if offends casing accepts toMethods property then .error "IllegalArgumentException" else .ok (),target) := by
  have found := findMethodByName_setter camels camel
  rw [copyMethod,substring_name,Method.property,found,offends]
  cases named : contains ((Method.setter property).name casing) "get" with
  | false => rfl
  | true =>
    cases accepted : accepts (casing.capital property) with
    | none => exact absurd accepted total
    | some kept =>
      cases kept with
      | false => rfl
      | true => by_cases member : .setter property ∈ toMethods <;> simp [member]

theorem contains_getter (property : String) : contains ((Method.getter property).name casing) "get" = true := by
  rw [contains,decide_eq_true_eq,Method.name,String.toList_append]
  exact (List.prefix_append _ _).isInfix

theorem copyMethod_getter (camels : ∀ method ∈ toMethods, casing.Camel method.property) {property : String}
    (camel : casing.Camel property) (total : accepts (casing.capital property) ≠ none) (target : Values Value) :
    copyMethod casing empty accepts source toMethods (.getter property) target =
      (.ok (),if copies casing empty accepts source toMethods property then
        Function.update target property (source property) else target) := by
  have found := findMethodByName_setter camels camel
  rw [copyMethod,contains_getter,substring_name,Method.property,found,copies]
  cases accepted : accepts (casing.capital property) with
  | none => exact absurd accepted total
  | some kept =>
    cases kept with
    | false => rfl
    | true =>
      by_cases member : .setter property ∈ toMethods
      · cases held : source property with
        | none => simp [member,copyable,held]
        | some value => cases void : empty value <;> simp [member,copyable,held,void]
      · simp [member]

private theorem forM_ok (camels : ∀ method ∈ toMethods, casing.Camel method.property)
    (total : ∀ property, casing.Camel property → accepts (casing.capital property) ≠ none)
    (methods : List Method) (camel : ∀ method ∈ methods, casing.Camel method.property)
    (fine : ∀ property, .setter property ∈ methods → offends casing accepts toMethods property = false)
    (target : Values Value) :
    methods.forM (copyMethod casing empty accepts source toMethods) target = (.ok (),fun property =>
      if .getter property ∈ methods ∧ copies casing empty accepts source toMethods property then source property
      else target property) := by
  induction methods generalizing target with
  | nil => simp [List.forM_nil]; rfl
  | cons method rest ih =>
    rw [List.forall_mem_cons] at camel
    have later := ih camel.2 fun property member => fine property (List.mem_cons_of_mem _ member)
    cases method with
    | setter property =>
      have own : casing.Camel property := camel.1
      have first := copyMethod_setter empty source camels own (total property own) target
      rw [fine property List.mem_cons_self] at first
      refine (bind_ok _ first).trans ((later target).trans ?_)
      simp
    | getter property =>
      have own : casing.Camel property := camel.1
      have first := copyMethod_getter empty source camels own (total property own) target
      refine (bind_ok _ first).trans ((later _).trans ?_)
      congr 1
      funext other
      by_cases here : other = property
      · subst here
        by_cases copied : copies casing empty accepts source toMethods other = true <;> simp [copied]
      · by_cases copied : copies casing empty accepts source toMethods property = true <;> simp [copied,here]

private theorem forM_error (camels : ∀ method ∈ toMethods, casing.Camel method.property)
    (total : ∀ property, casing.Camel property → accepts (casing.capital property) ≠ none)
    (methods : List Method) (camel : ∀ method ∈ methods, casing.Camel method.property)
    {property : String} (member : .setter property ∈ methods) (wrong : offends casing accepts toMethods property = true)
    (target : Values Value) :
    ∃ after, methods.forM (copyMethod casing empty accepts source toMethods) target =
      (.error "IllegalArgumentException",after) := by
  induction methods generalizing target with
  | nil => cases member
  | cons method rest ih =>
    rw [List.forall_mem_cons] at camel
    cases method with
    | setter other =>
      have own : casing.Camel other := camel.1
      have first := copyMethod_setter empty source camels own (total other own) target
      by_cases now : offends casing accepts toMethods other = true
      · rw [if_pos now] at first
        exact ⟨target,bind_error _ first⟩
      · rw [if_neg now] at first
        rcases List.mem_cons.mp member with same | later
        · cases same
          exact absurd wrong now
        · obtain ⟨after,ran⟩ := ih camel.2 later target
          exact ⟨after,(bind_ok _ first).trans ran⟩
    | getter other =>
      have own : casing.Camel other := camel.1
      have first := copyMethod_getter empty source camels own (total other own) target
      have later := (List.mem_cons.mp member).resolve_left nofun
      obtain ⟨after,ran⟩ := ih camel.2 later _
      exact ⟨after,(bind_ok _ first).trans ran⟩

private theorem forM_iff (camels : ∀ method ∈ toMethods, casing.Camel method.property)
    (total : ∀ property, casing.Camel property → accepts (casing.capital property) ≠ none)
    (methods : List Method) (camel : ∀ method ∈ methods, casing.Camel method.property)
    (target after : Values Value) :
    methods.forM (copyMethod casing empty accepts source toMethods) target = (.ok (),after) ↔
      (∀ property, .setter property ∈ methods → offends casing accepts toMethods property = false) ∧
        ∀ property, after property = if .getter property ∈ methods ∧
          copies casing empty accepts source toMethods property then source property else target property := by
  constructor
  · intro ran
    have fine : ∀ property, .setter property ∈ methods → offends casing accepts toMethods property = false := by
      intro property member
      rw [← Bool.not_eq_true]
      intro wrong
      obtain ⟨other,failed⟩ := forM_error empty source camels total methods camel member wrong target
      cases ran.symm.trans failed
    refine ⟨fine,fun property => ?_⟩
    have done := forM_ok empty source camels total methods camel fine target
    rw [(Prod.mk.inj (ran.symm.trans done)).2]
  · rintro ⟨fine,values⟩
    rw [forM_ok empty source camels total methods camel fine target]
    exact congrArg _ (funext fun property => (values property).symm)

variable (bean target : Bean casing Value) (excludes : List String)

def Bean.properties (bean : Bean casing Value) : List String := bean.methods.map Method.property

def included : List String := (bean.properties ++ target.properties).filter (· ∉ excludes)

/-- The target where the excluded properties are protected. -/
def wanted : Values Value := fun property =>
  if property ∉ excludes ∧ .getter property ∈ bean.methods ∧ .setter property ∈ target.methods ∧
      copyable empty (bean.values property) then bean.values property
  else target.values property

/-- Both copies return with the wanted properties. -/
def Right : Prop :=
  copyPropertiesExclude casing empty bean target (some excludes) target.values =
      (.ok (),wanted empty bean target excludes) ∧
    copyPropertiesInclude casing empty bean target (some (included bean target excludes)) target.values =
      (.ok (),wanted empty bean target excludes)

/-- A setter in both beans that is taken for a getter. -/
def Misread (property : String) : Prop :=
  .setter property ∈ bean.methods ∧ .setter property ∈ target.methods ∧
    contains ((Method.setter property).name casing) "get" = true

/-- A property that would be changed where nothing was excluded. -/
def Changes (property : String) : Prop :=
  .getter property ∈ bean.methods ∧ .setter property ∈ target.methods ∧
    copyable empty (bean.values property) = true ∧ bean.values property ≠ target.values property

private theorem choice_iff {Held : Type} (has sets copied allowed excluded : Prop) [Decidable has]
    [Decidable sets]
    [Decidable copied] [Decidable allowed] [Decidable excluded] (value old : Held) :
    (if ¬ excluded ∧ has ∧ sets ∧ copied then value else old) =
        (if has ∧ (allowed ∧ sets) ∧ copied then value else old) ↔
      (has ∧ sets ∧ copied ∧ value ≠ old → (¬ allowed ↔ excluded)) := by
  by_cases bean : has ∧ sets ∧ copied
  · by_cases same : value = old
    · simp [same]
    · obtain ⟨one,two,three⟩ := bean
      by_cases kept : allowed <;> by_cases listed : excluded <;> simp [one,two,three,kept,listed,same,Ne.symm same]
  · have first : ¬ (¬ excluded ∧ has ∧ sets ∧ copied) := fun all => bean all.2
    have second : ¬ (has ∧ (allowed ∧ sets) ∧ copied) := fun all => bean ⟨all.1,all.2.1.2,all.2.2⟩
    rw [if_neg first,if_neg second]
    exact ⟨fun _ all => absurd ⟨all.1,all.2.1,all.2.2.1⟩ bean,fun _ => rfl⟩

private theorem exclude_iff : copyPropertiesExclude casing empty bean target (some excludes) target.values =
      (.ok (),wanted empty bean target excludes) ↔
    (∀ property, Misread bean target property → casing.toLowerCase (casing.capital property) ∈ excludes) ∧
      ∀ property, Changes empty bean target property →
        (casing.toLowerCase (casing.capital property) ∈ excludes ↔ property ∈ excludes) := by
  have accepted : ∀ property, notExcluded casing excludes (casing.capital property) = some true ↔
      casing.toLowerCase (casing.capital property) ∉ excludes := fun property => by
    rw [notExcluded,Option.some_inj,decide_eq_true_eq]
  refine (forM_iff empty bean.values target.camel (fun _ _ => Option.some_ne_none _) bean.methods bean.camel _ _).trans
    (and_congr (forall_congr' fun property => ?_) (forall_congr' fun property => ?_))
  · rw [← Bool.not_eq_true,offends_iff,Option.getD_some,accepted]
    constructor
    · rintro calm ⟨own,other,read⟩
      by_contra kept
      exact calm own ⟨read,kept,other⟩
    · intro lower own wrong
      exact wrong.2.1 (lower ⟨own,wrong.2.2,wrong.1⟩)
  · have choice := choice_iff (.getter property ∈ bean.methods) (.setter property ∈ target.methods)
      (copyable empty (bean.values property) = true) (casing.toLowerCase (casing.capital property) ∉ excludes)
      (property ∈ excludes) (bean.values property) (target.values property)
    rw [not_not] at choice
    simp only [wanted,copies_iff,Changes,Option.getD_some,accepted]
    exact choice

private theorem mem_included {method : Method} (member : method ∈ bean.methods) :
    method.property ∈ included bean target excludes ↔ method.property ∉ excludes := by
  rw [included,List.mem_filter,decide_eq_true_eq]
  exact and_iff_right (List.mem_append_left _ (List.mem_map_of_mem member))

theorem isIncluded_capital (list : List String) {property : String} (camel : casing.Camel property) :
    isIncluded casing list (casing.capital property) = some (decide (property ∈ list)) := by
  rw [isIncluded,if_neg camel.1,camel.2]

private theorem include_iff : copyPropertiesInclude casing empty bean target
    (some (included bean target excludes)) target.values =
      (.ok (),wanted empty bean target excludes) ↔
    ∀ property, Misread bean target property → property ∈ excludes := by
  rw [copyPropertiesInclude,Option.getD_some]
  by_cases none : included bean target excludes = []
  · have excluded : ∀ method ∈ bean.methods, method.property ∈ excludes := by
      intro method member
      by_contra kept
      rw [← mem_included bean target excludes member,none] at kept
      cases kept
    have same : wanted empty bean target excludes = target.values := by
      funext property
      exact if_neg fun all => all.1 (excluded _ all.2.1)
    rw [if_pos none,same]
    exact ⟨fun _ property misread => excluded _ misread.1,fun _ => rfl⟩
  · have total : ∀ property, casing.Camel property →
        isIncluded casing (included bean target excludes) (casing.capital property) ≠ Option.none := by
      intro property camel
      rw [isIncluded_capital _ camel]
      exact Option.some_ne_none _
    have accepted : ∀ method ∈ bean.methods,
        isIncluded casing (included bean target excludes) (casing.capital method.property) = some true ↔
          method.property ∉ excludes := by
      intro method member
      rw [isIncluded_capital _ (bean.camel _ member),Option.some_inj,decide_eq_true_eq,mem_included _ _ _ member]
    rw [if_neg none]
    refine (forM_iff empty bean.values target.camel total bean.methods bean.camel _ _).trans ⟨?_,?_⟩
    · rintro ⟨fine,_⟩ property ⟨own,other,read⟩
      by_contra kept
      have calm := fine property own
      rw [← Bool.not_eq_true,offends_iff] at calm
      exact calm ⟨read,(accepted _ own).mpr kept,other⟩
    · intro guarded
      refine ⟨fun property own => ?_,fun property => ?_⟩
      · rw [← Bool.not_eq_true,offends_iff]
        rintro ⟨read,kept,other⟩
        exact (accepted _ own).mp kept (guarded property ⟨own,other,read⟩)
      · by_cases read : .getter property ∈ bean.methods
        · have kept := accepted _ read
          rw [Method.property] at kept
          simp only [wanted,copies_iff,read,true_and,kept,and_assoc]
        · simp [wanted,read]

theorem copyProperties_right_iff : Right empty bean target excludes ↔
    (∀ property, Changes empty bean target property →
      (casing.toLowerCase (casing.capital property) ∈ excludes ↔ property ∈ excludes)) ∧
    ∀ property, Misread bean target property →
      property ∈ excludes ∧ casing.toLowerCase (casing.capital property) ∈ excludes := by
  rw [Right,exclude_iff,include_iff]
  constructor
  · rintro ⟨⟨lower,changes⟩,own⟩
    exact ⟨changes,fun property misread => ⟨own property misread,lower property misread⟩⟩
  · rintro ⟨changes,both⟩
    exact ⟨⟨fun property misread => (both property misread).2,changes⟩,fun property misread => (both property misread).1⟩

def ascii : Casing where
  toUpperCase text := String.ofList (text.toList.map Char.toUpper)
  toLowerCase text := String.ofList (text.toList.map Char.toLower)

def user (name : Option ℕ) : Bean ascii ℕ where
  methods := [.getter "userName",.setter "userName"]
  values property := if property = "userName" then name else none
  camel := by
    rw [List.forall_mem_cons,List.forall_mem_singleton]
    exact ⟨⟨by decide +kernel,by decide +kernel⟩,⟨by decide +kernel,by decide +kernel⟩⟩

theorem copyProperties_fails : ¬ Right (fun _ => false) (user (some 1)) (user none) ["userName"] := by
  rintro ⟨copied,_⟩
  have changes : Changes (fun _ => false) (user (some 1)) (user none) "userName" :=
    ⟨by decide +kernel,by decide +kernel,by decide +kernel,by decide +kernel⟩
  have lower := ((exclude_iff _ _ _ _).mp copied).2 "userName" changes
  exact absurd (lower.mpr (by decide)) (by decide +kernel)

end YzFramework.Util.BeanUtil
