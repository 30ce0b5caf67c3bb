import YzFramework.Library.Run
import YzFramework.Library.Table
import YzFramework.Library.Text

/-! `ServiceRegistry`: beans by name, and the index of their mapped methods, which the first
lookup generates. -/
namespace YzFramework.Registry
open Library Library.Run

/-- What is used of Spring's class of this name. -/
structure StringUtils where
  trimLeadingCharacter : List Char → Char → List Char
  trimTrailingCharacter : List Char → Char → List Char
  leading : ∀ text c, trimLeadingCharacter text c = text.dropWhile (· == c)
  trailing : ∀ text c, trimTrailingCharacter text c = text.rdropWhile (· == c)

structure Method where
  name : String
  requestMapping : Option (List String) := none
deriving DecidableEq

/-- A class; those without a named package have no package object. -/
structure Class where
  package : Option String
  requestMapping : Option (List String)
  methods : List Method

structure ApiServiceObject (Bean : Type*) where
  api : String
  serviceObject : Option Bean
  method : Method

structure Registrations (Bean : Type*) where
  serviceClassMap : Table String Class := ∅
  serviceObjectMap : Table String Bean := ∅

structure ServiceRegistry (Bean : Type*) extends Registrations Bean where
  apiServiceObjectCache : Table String (ApiServiceObject Bean) := ∅
  services : List String := []
  isServiceGenerated : Bool := false

/-- The order in which a hash map hands out its keys. -/
structure HashOrder where
  keySet : Table String Class → List String
  perm : ∀ table, (keySet table).Perm table.keys

def Registrations.addService {Bean : Type*} (registrations : Registrations Bean) (bean : Bean)
    (beanName : String) (beanClass : Class) : Registrations Bean where
  serviceClassMap := registrations.serviceClassMap.insert beanName beanClass
  serviceObjectMap := registrations.serviceObjectMap.insert beanName bean

namespace ServiceRegistry

variable (utils : StringUtils)

theorem dropWhile_shorter {name : List Char} {c : Char} (starts : name.head? = some c) :
    (name.dropWhile (· == c)).length < name.length := by
  obtain ⟨rest,rfl⟩ := List.head?_eq_some_iff.mp starts
  rw [List.dropWhile_cons_of_pos (by simp)]
  exact Nat.lt_succ_of_le (List.dropWhile_sublist _).length_le

theorem rdropWhile_shorter {name : List Char} {c : Char} (ends : name.getLast? = some c) :
    (name.rdropWhile (· == c)).length < name.length := by
  obtain ⟨rest,rfl⟩ := List.getLast?_eq_some_iff.mp ends
  rw [List.rdropWhile_concat_pos _ _ _ (by simp),List.length_append]
  exact Nat.lt_succ_of_le (List.rdropWhile_prefix _ _).length_le

/-- The loop `while (name.startsWith("/"))`. -/
def trimLeading (name : List Char) : List Char :=
  if name.head? = some '/' then trimLeading (utils.trimLeadingCharacter name '/') else name
termination_by name.length
decreasing_by
  rw [utils.leading]
  exact dropWhile_shorter ‹_›

/-- The loop `while (name.endsWith("/"))`. -/
def trimTrailing (name : List Char) : List Char :=
  if name.getLast? = some '/' then trimTrailing (utils.trimTrailingCharacter name '/') else name
termination_by name.length
decreasing_by
  rw [utils.trailing]
  exact rdropWhile_shorter ‹_›

def getMappingName : List String → Option String
  | [] => none
  | value::_ =>
    let name := value.toList
    -- not empty if and only if `lastDotIndex > 0`
    let beforeDot := Text.beforeLast '.' name
    let name := if beforeDot = [] then name else beforeDot
    some (String.ofList (trimTrailing utils (trimLeading utils name)))

variable {Bean : Type*} (appName : String)

/-- The loop over the methods of a bean; a mapping without a name is written "null". -/
def generateMethods (servicePath apiRootName : String) (bean : Option Bean) :
    List Method → ServiceRegistry Bean → ServiceRegistry Bean
  | [],registry => registry
  | method::rest,registry =>
    match method.requestMapping with
    | none => generateMethods servicePath apiRootName bean rest registry
    | some value =>
      let methodMappingName := (getMappingName utils value).getD "null"
      let serviceFullPath := servicePath++"/"++methodMappingName
      let api := apiRootName++"."++methodMappingName
      generateMethods servicePath apiRootName bean rest {registry with
        apiServiceObjectCache := registry.apiServiceObjectCache.insert api ⟨api,bean,method⟩
        services := registry.services++[serviceFullPath]}

/-- One bean; a class without package or annotation ends in a null pointer. -/
def generateBean (beanName : String) (registry : ServiceRegistry Bean) : Option (ServiceRegistry Bean) :=
  (registry.serviceClassMap.lookup beanName).bind fun beanClass =>
    match beanClass.package,beanClass.requestMapping with
    | some pachageName,some value =>
      match getMappingName utils value with
      | none => some registry
      | some serviceMappingName =>
        some (generateMethods utils ("/"++appName++"/"++serviceMappingName)
          (pachageName++"."++serviceMappingName) (registry.serviceObjectMap.lookup beanName)
          beanClass.methods registry)
    | _,_ => none

/-- The loop over the names of the beans, and whether it ran to its end. -/
def generateBeans : List String → ServiceRegistry Bean → ServiceRegistry Bean × Bool
  | [],registry => (registry,true)
  | beanName::rest,registry =>
    match generateBean utils appName beanName registry with
    | some registry => generateBeans rest registry
    | none => (registry,false)

variable (order : HashOrder)

def generateServicePath (registry : ServiceRegistry Bean) : ServiceRegistry Bean × Bool :=
  let (registry,done) := generateBeans utils appName (order.keySet registry.serviceClassMap)
    {registry with services := []}
  ({registry with isServiceGenerated := done},done)

/-- What both lookups begin with. -/
def generated (registry : ServiceRegistry Bean) : ServiceRegistry Bean × Bool :=
  if registry.isServiceGenerated then (registry,true)
  else generateServicePath utils appName order registry

/-- The answer, which is none after an exception, and the registry. -/
def getServices (registry : ServiceRegistry Bean) : Option (List String) × ServiceRegistry Bean :=
  let (registry,done) := generated utils appName order registry
  (if done then some registry.services else none,registry)

def getApiServiceObject (api : String) (registry : ServiceRegistry Bean) :
    Option (Option (ApiServiceObject Bean)) × ServiceRegistry Bean :=
  let (registry,done) := generated utils appName order registry
  (if done then some (registry.apiServiceObjectCache.lookup api) else none,registry)

inductive Call (Bean : Type*)
  | addService (bean : Bean) (beanName : String) (beanClass : Class)
  | getServices
  | getApiServiceObject (api : String)

def Call.adds : Call Bean → Bool
  | .addService .. => true
  | _ => false

def step (registry : ServiceRegistry Bean) : Call Bean → ServiceRegistry Bean
  | .addService bean beanName beanClass =>
    {registry with toRegistrations := registry.addService bean beanName beanClass}
  | .getServices => (getServices utils appName order registry).2
  | .getApiServiceObject api => (getApiServiceObject utils appName order api registry).2

structure Entry (Bean : Type*) where
  path : String
  object : ApiServiceObject Bean

def methodEntry (servicePath apiRootName : String) (bean : Option Bean) (method : Method) :
    Option (Entry Bean) :=
  method.requestMapping.map fun value =>
    let methodMappingName := (getMappingName utils value).getD "null"
    ⟨servicePath++"/"++methodMappingName,⟨apiRootName++"."++methodMappingName,bean,method⟩⟩

/-- The mapped methods of a bean; a class without a mapping has none. -/
def entriesOf (beanClass : Class) (bean : Option Bean) : List (Entry Bean) :=
  match beanClass.requestMapping.bind (getMappingName utils) with
  | none => []
  | some serviceMappingName =>
    beanClass.methods.filterMap (methodEntry utils ("/"++appName++"/"++serviceMappingName)
      (beanClass.package.getD ""++"."++serviceMappingName) bean)

def Listed (registrations : Registrations Bean) (entry : Entry Bean) : Prop :=
  ∃ beanName beanClass, registrations.serviceClassMap.lookup beanName = some beanClass ∧
    entry ∈ entriesOf utils appName beanClass (registrations.serviceObjectMap.lookup beanName)

/-- What an api is answered with is a registered bean's mapped method, or it has none. -/
def Resolves (registrations : Registrations Bean) (api : String) :
    Option (ApiServiceObject Bean) → Prop
  | none => ∀ entry, Listed utils appName registrations entry → entry.object.api ≠ api
  | some object => object.api = api ∧
      ∃ entry, Listed utils appName registrations entry ∧ entry.object = object

/-- A lookup reflects the registrations. -/
def Reflects (registry : ServiceRegistry Bean) (registrations : Registrations Bean) : Call Bean → Prop
  | .addService .. => True
  | .getServices => ∃ services, (getServices utils appName order registry).1 = some services ∧
      ∀ path, path ∈ services ↔ ∃ entry, Listed utils appName registrations entry ∧ entry.path = path
  | .getApiServiceObject api => ∃ found, (getApiServiceObject utils appName order api registry).1 = some found ∧
      Resolves utils appName registrations api found

def register (registrations : Registrations Bean) : Call Bean → Registrations Bean
  | .addService bean beanName beanClass => registrations.addService bean beanName beanClass
  | _ => registrations

def registered (calls : List (Call Bean)) : Registrations Bean := calls.foldl register {}

def Fresh (calls : List (Call Bean)) : Prop :=
  ∀ before lookup after, calls = before++lookup::after →
    Reflects utils appName order (final (step utils appName order) {} before) (registered before) lookup

def Named (beanClass : Class) : Prop := beanClass.package ≠ none ∧ beanClass.requestMapping ≠ none

def AllNamed (registrations : Registrations Bean) : Prop :=
  ∀ beanName beanClass, registrations.serviceClassMap.lookup beanName = some beanClass →
    Named beanClass

def entriesAt (registrations : Registrations Bean) (beanName : String) : List (Entry Bean) :=
  (registrations.serviceClassMap.lookup beanName).elim [] fun beanClass =>
    entriesOf utils appName beanClass (registrations.serviceObjectMap.lookup beanName)

def entries (registrations : Registrations Bean) : List (Entry Bean) :=
  (order.keySet registrations.serviceClassMap).flatMap (entriesAt utils appName registrations)

def pairsOf (entries : List (Entry Bean)) : List (String × ApiServiceObject Bean) :=
  entries.map fun entry => (entry.object.api,entry.object)

/-- The last mapped method with the api, in the order of the hash map. -/
def resolve (registrations : Registrations Bean) (api : String) : Option (ApiServiceObject Bean) :=
  (pairsOf (entries utils appName order registrations)).reverse.lookup api

/-- The first registrations and the current ones give a lookup the same answer. -/
def Agree (first current : Registrations Bean) : Call Bean → Prop
  | .addService .. => True
  | .getServices => ∀ path, (∃ entry, Listed utils appName first entry ∧ entry.path = path) ↔
      ∃ entry, Listed utils appName current entry ∧ entry.path = path
  | .getApiServiceObject api => Resolves utils appName current api (resolve utils appName order first api)

/-- What is registered before the first lookup has packages and annotations, and gives
every lookup the answer of its own time. -/
def Settled (calls : List (Call Bean)) : Prop :=
  ∀ before lookup after, calls = before++lookup::after → lookup.adds = false →
    AllNamed (registered (before.takeWhile Call.adds)) ∧
      Agree utils appName order (registered (before.takeWhile Call.adds)) (registered before) lookup

def index (registry : ServiceRegistry Bean) (entries : List (Entry Bean)) : ServiceRegistry Bean :=
  {registry with
    apiServiceObjectCache := Table.putAll registry.apiServiceObjectCache (pairsOf entries)
    services := registry.services++entries.map Entry.path}

theorem index_nil (registry : ServiceRegistry Bean) : index registry [] = registry := by
  rw [index,List.map_nil,List.append_nil]
  rfl

theorem index_append (registry : ServiceRegistry Bean) (first second : List (Entry Bean)) :
    index (index registry first) second = index registry (first++second) := by
  simp [index,pairsOf,Table.putAll]

section Generate

variable {utils appName order} {registry : ServiceRegistry Bean}

theorem generateMethods_eq (servicePath apiRootName : String) (bean : Option Bean) (methods : List Method) :
    generateMethods utils servicePath apiRootName bean methods registry =
      index registry (methods.filterMap (methodEntry utils servicePath apiRootName bean)) := by
  induction methods generalizing registry with
  | nil => exact (index_nil registry).symm
  | cons method rest ih =>
    rw [generateMethods]
    cases mapped : method.requestMapping with
    | none =>
      have unmapped : methodEntry utils servicePath apiRootName bean method = none :=
        Option.map_eq_none_iff.mpr mapped
      rw [List.filterMap_cons_none unmapped]
      exact ih
    | some value =>
      have entry : methodEntry utils servicePath apiRootName bean method = some _ :=
        Option.map_eq_some_iff.mpr ⟨value,mapped,rfl⟩
      rw [List.filterMap_cons_some entry,← List.singleton_append,← index_append]
      exact ih

theorem generateBean_eq {beanName : String} {beanClass : Class}
    (found : registry.serviceClassMap.lookup beanName = some beanClass) (named : Named beanClass) :
    generateBean utils appName beanName registry = some (index registry
      (entriesOf utils appName beanClass (registry.serviceObjectMap.lookup beanName))) := by
  obtain ⟨pachageName,package⟩ := Option.ne_none_iff_exists'.mp named.1
  obtain ⟨value,mapped⟩ := Option.ne_none_iff_exists'.mp named.2
  rw [generateBean,found,Option.bind_some,entriesOf,package,mapped,Option.bind_some]
  cases mapping : getMappingName utils value with
  | none =>
    simp only [mapping]
    rw [index_nil]
  | some serviceMappingName =>
    simp only [mapping]
    rw [generateMethods_eq]
    rfl

theorem generateBean_some {beanName : String} {after : ServiceRegistry Bean}
    (done : generateBean utils appName beanName registry = some after) :
    ∃ beanClass, registry.serviceClassMap.lookup beanName = some beanClass ∧ Named beanClass := by
  obtain ⟨beanClass,found,rest⟩ := Option.bind_eq_some_iff.mp done
  refine ⟨beanClass,found,?_⟩
  cases package : beanClass.package with
  | none => simp [package] at rest
  | some pachageName =>
    cases mapped : beanClass.requestMapping with
    | none => simp [package,mapped] at rest
    | some value => exact ⟨by simp [package],by simp [mapped]⟩

theorem generateBeans_eq (names : List String) (named : ∀ beanName ∈ names, ∃ beanClass,
      registry.serviceClassMap.lookup beanName = some beanClass ∧ Named beanClass) :
    generateBeans utils appName names registry =
      (index registry (names.flatMap (entriesAt utils appName registry.toRegistrations)),true) := by
  induction names generalizing registry with
  | nil => exact congrArg (fun registry => (registry,true)) (index_nil registry).symm
  | cons beanName rest ih =>
    rw [List.forall_mem_cons] at named
    obtain ⟨⟨beanClass,found,first⟩,others⟩ := named
    have here : entriesAt utils appName registry.toRegistrations beanName =
        entriesOf utils appName beanClass (registry.serviceObjectMap.lookup beanName) := by
      rw [entriesAt,found]
      rfl
    rw [generateBeans,generateBean_eq found first,List.flatMap_cons,here,← index_append]
    exact ih others

theorem generateBeans_done (names : List String)
    (done : (generateBeans utils appName names registry).2 = true) :
    ∀ beanName ∈ names, ∃ beanClass,
      registry.serviceClassMap.lookup beanName = some beanClass ∧ Named beanClass := by
  induction names generalizing registry with
  | nil => exact nofun
  | cons beanName rest ih =>
    rw [generateBeans] at done
    cases one : generateBean utils appName beanName registry with
    | none => simp [one] at done
    | some after =>
      obtain ⟨beanClass,found,named⟩ := generateBean_some one
      rw [one] at done
      cases (generateBean_eq found named).symm.trans one
      exact List.forall_mem_cons.mpr ⟨⟨beanClass,found,named⟩,@ih (index registry _) done⟩

theorem mem_keySet {registrations : Registrations Bean} {beanName : String} :
    beanName ∈ order.keySet registrations.serviceClassMap ↔
      ∃ beanClass, registrations.serviceClassMap.lookup beanName = some beanClass := by
  rw [(order.perm _).mem_iff,← AList.mem_keys,← AList.lookup_isSome,Option.isSome_iff_exists]

private theorem mem_entries {registrations : Registrations Bean} {entry : Entry Bean} :
    entry ∈ entries utils appName order registrations ↔ Listed utils appName registrations entry := by
  rw [entries,List.mem_flatMap]
  constructor
  · rintro ⟨beanName,listed,inside⟩
    obtain ⟨beanClass,found⟩ := mem_keySet.mp listed
    rw [entriesAt,found] at inside
    exact ⟨beanName,beanClass,found,inside⟩
  · rintro ⟨beanName,beanClass,found,inside⟩
    refine ⟨beanName,mem_keySet.mpr ⟨beanClass,found⟩,?_⟩
    rw [entriesAt,found]
    exact inside

private theorem allNamed_iff {registrations : Registrations Bean} :
    AllNamed registrations ↔ ∀ beanName ∈ order.keySet registrations.serviceClassMap,
      ∃ beanClass, registrations.serviceClassMap.lookup beanName = some beanClass ∧ Named beanClass := by
  constructor
  · intro named beanName listed
    obtain ⟨beanClass,found⟩ := mem_keySet.mp listed
    exact ⟨beanClass,found,named beanName beanClass found⟩
  · intro named beanName beanClass found
    obtain ⟨other,same,held⟩ := named beanName (mem_keySet.mpr ⟨beanClass,found⟩)
    cases found.symm.trans same
    exact held

def settled (utils : StringUtils) (appName : String) (order : HashOrder)
    (first current : Registrations Bean) : ServiceRegistry Bean where
  toRegistrations := current
  apiServiceObjectCache := Table.putAll ∅ (pairsOf (entries utils appName order first))
  services := (entries utils appName order first).map Entry.path
  isServiceGenerated := true

theorem generated_first (registrations : Registrations Bean) (named : AllNamed registrations) :
    generated utils appName order {registrations with} =
      (settled utils appName order registrations registrations,true) := by
  have ran := @generateBeans_eq utils _ appName {registrations with services := []}
    (order.keySet registrations.serviceClassMap) (allNamed_iff.mp named)
  rw [generated,if_neg Bool.false_ne_true,generateServicePath]
  dsimp only
  rw [ran]
  rfl

theorem generated_throws (registrations : Registrations Bean)
    (done : (generated utils appName order {registrations with}).2 = true) : AllNamed registrations := by
  rw [generated,if_neg Bool.false_ne_true,generateServicePath] at done
  exact allNamed_iff.mpr (generateBeans_done _ done)

theorem generated_settled (first current : Registrations Bean) :
    generated utils appName order (settled utils appName order first current) =
      (settled utils appName order first current,true) := if_pos rfl

theorem reflects_iff {first current : Registrations Bean}
    (ready : generated utils appName order registry = (settled utils appName order first current,true))
    (lookup : Call Bean) : Reflects utils appName order registry current lookup ↔
      Agree utils appName order first current lookup := by
  cases lookup with
  | addService bean beanName beanClass => exact Iff.rfl
  | getServices =>
    have answer : (getServices utils appName order registry).1 =
        some ((entries utils appName order first).map Entry.path) := by
      rw [getServices,ready]
      rfl
    have listed : ∀ path, path ∈ (entries utils appName order first).map Entry.path ↔
        ∃ entry, Listed utils appName first entry ∧ entry.path = path := by
      simp [mem_entries]
    rw [Reflects,answer]
    simp [listed,Agree]
  | getApiServiceObject api =>
    have answer : (getApiServiceObject utils appName order api registry).1 =
        some (resolve utils appName order first api) := by
      rw [getApiServiceObject,ready]
      refine congrArg some ((Table.lookup_putAll ∅ _ api).trans ?_)
      rw [AList.lookup_empty,Option.or_none]
      rfl
    rw [Reflects,answer]
    simp [Agree]

theorem answers (registrations : Registrations Bean) {lookup : Call Bean} (asked : lookup.adds = false)
    (reflects : Reflects utils appName order {registrations with} registrations lookup) :
    AllNamed registrations := by
  apply @generated_throws utils _ appName order registrations
  by_contra thrown
  cases lookup with
  | addService bean beanName beanClass => cases asked
  | getServices =>
    obtain ⟨services,answer,-⟩ := reflects
    simp [getServices,thrown] at answer
  | getApiServiceObject api =>
    obtain ⟨found,answer,-⟩ := reflects
    simp [getApiServiceObject,thrown] at answer

theorem final_adds (registrations : Registrations Bean) {calls : List (Call Bean)}
    (adds : ∀ call ∈ calls, call.adds = true) :
    final (step utils appName order) {registrations with} calls =
      {calls.foldl register registrations with} := by
  induction calls generalizing registrations with
  | nil => rfl
  | cons call rest ih =>
    rw [List.forall_mem_cons] at adds
    cases call with
    | addService bean beanName beanClass => exact ih _ adds.2
    | getServices => cases adds.1
    | getApiServiceObject api => cases adds.1

theorem final_settled (first current : Registrations Bean) (calls : List (Call Bean)) :
    final (step utils appName order) (settled utils appName order first current) calls =
      settled utils appName order first (calls.foldl register current) := by
  induction calls generalizing current with
  | nil => rfl
  | cons call rest ih =>
    have stepped : step utils appName order (settled utils appName order first current) call =
        settled utils appName order first (register current call) := by
      cases call with
      | addService bean beanName beanClass => rfl
      | getServices => rfl
      | getApiServiceObject api => rfl
    rw [final_cons,stepped]
    exact ih _

theorem step_first (registrations : Registrations Bean) (named : AllNamed registrations)
    {lookup : Call Bean} (asked : lookup.adds = false) :
    step utils appName order {registrations with} lookup =
      settled utils appName order registrations registrations := by
  have ran := @generated_first utils _ appName order registrations named
  cases lookup with
  | addService bean beanName beanClass => cases asked
  | getServices => rw [step,getServices,ran]
  | getApiServiceObject api => rw [step,getApiServiceObject,ran]

private theorem dropWhile_asked {calls rest : List (Call Bean)} {lookup : Call Bean}
    (later : calls.dropWhile Call.adds = lookup::rest) : lookup.adds = false := by
  have head := List.head_dropWhile_not Call.adds (by rw [later]; exact List.cons_ne_nil _ _)
  simpa [later] using head

theorem register_lookup (registrations : Registrations Bean) {lookup : Call Bean}
    (asked : lookup.adds = false) : register registrations lookup = registrations := by
  cases lookup with
  | addService bean beanName beanClass => cases asked
  | getServices => rfl
  | getApiServiceObject api => rfl

/-- The first lookup is this one or an earlier one. -/
theorem first_lookup (before after : List (Call Bean)) {lookup : Call Bean} (asked : lookup.adds = false) :
    ∃ earlier rest, earlier.adds = false ∧
      before++lookup::after = before.takeWhile Call.adds++earlier::rest := by
  cases later : before.dropWhile Call.adds with
  | nil =>
    rw [List.dropWhile_eq_nil_iff] at later
    rw [List.takeWhile_eq_self_iff.mpr later]
    exact ⟨lookup,after,asked,rfl⟩
  | cons earlier rest =>
    refine ⟨earlier,rest++lookup::after,dropWhile_asked later,?_⟩
    rw [← List.cons_append,← later,← List.append_assoc,List.takeWhile_append_dropWhile]

theorem final_first (before : List (Call Bean)) :
    final (step utils appName order) {} (before.takeWhile Call.adds) =
      {registered (before.takeWhile Call.adds) with} :=
  @final_adds utils _ appName order {} (before.takeWhile Call.adds)
    fun _ inside => List.mem_takeWhile_imp inside

theorem ready (before : List (Call Bean)) (named : AllNamed (registered (before.takeWhile Call.adds))) :
    generated utils appName order (final (step utils appName order) {} before) =
      (settled utils appName order (registered (before.takeWhile Call.adds)) (registered before),true) := by
  have split : before = before.takeWhile Call.adds++before.dropWhile Call.adds :=
    (List.takeWhile_append_dropWhile (p := Call.adds) (l := before)).symm
  have all : final (step utils appName order) {} before =
      final (step utils appName order) {registered (before.takeWhile Call.adds) with}
        (before.dropWhile Call.adds) := by
    conv_lhs => rw [split]
    exact List.foldl_append.trans (congrArg (fun registry => final _ registry _) (final_first before))
  have current : registered before =
      (before.dropWhile Call.adds).foldl register (registered (before.takeWhile Call.adds)) := by
    conv_lhs => rw [split]
    exact List.foldl_append
  rw [all,current]
  cases later : before.dropWhile Call.adds with
  | nil => exact generated_first _ named
  | cons lookup rest =>
    have asked := dropWhile_asked later
    rw [final_cons,step_first _ named asked,final_settled,generated_settled,List.foldl_cons,
      register_lookup _ asked]

end Generate

/-- Lookups are fresh if and only if what is registered before the first one settles the
answers of all. -/
theorem lookups_fresh_iff (calls : List (Call Bean)) :
    Fresh utils appName order calls ↔ Settled utils appName order calls := by
  constructor
  · intro fresh before lookup after split asked
    have named : AllNamed (registered (before.takeWhile Call.adds)) := by
      obtain ⟨earlier,rest,alsoAsked,cut⟩ := first_lookup before after asked
      have reflects := fresh _ earlier rest (split.trans cut)
      rw [final_first before] at reflects
      exact answers _ alsoAsked reflects
    exact ⟨named,(reflects_iff (ready before named) lookup).mp (fresh before lookup after split)⟩
  · intro settled before lookup after split
    cases asked : lookup.adds with
    | true =>
      cases lookup with
      | addService bean beanName beanClass => trivial
      | getServices => cases asked
      | getApiServiceObject api => cases asked
    | false =>
      obtain ⟨named,agree⟩ := settled before lookup after split asked
      exact (reflects_iff (ready before named) lookup).mpr agree

def orderClass : Class where
  package := some "shop"
  requestMapping := some ["/order"]
  methods := [⟨"find",some ["/find"]⟩]

def trimming : StringUtils where
  trimLeadingCharacter text c := text.dropWhile (· == c)
  trimTrailingCharacter text c := text.rdropWhile (· == c)
  leading _ _ := rfl
  trailing _ _ := rfl

def insertionOrder : HashOrder where
  keySet := AList.keys
  perm _ := .refl _

def lateCalls : List (Call ℕ) := [.getServices,.addService 1 "orderService" orderClass]

theorem late_bean_missing : ¬ Fresh trimming "mall" insertionOrder (lateCalls++[.getServices]) := by
  intro fresh
  have reflects := fresh lateCalls .getServices [] rfl
  have named : AllNamed (registered (lateCalls.takeWhile Call.adds)) := fun _ _ found => by cases found
  have agree := (reflects_iff (ready lateCalls named) .getServices).mp reflects
  have listed : Listed trimming "mall" (registered lateCalls) _ :=
    ⟨"orderService",orderClass,rfl,List.mem_cons_self⟩
  obtain ⟨entry,⟨beanName,beanClass,found,-⟩,-⟩ := (agree _).mpr ⟨_,listed,rfl⟩
  cases found

end ServiceRegistry
end YzFramework.Registry
