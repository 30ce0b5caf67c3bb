import YzFramework.Library.Run
import YzFramework.Library.Table
import YzFramework.Library.Text

/-! `ServiceRegistryCenter`: the methods of beans by the interface that declares them. -/
namespace YzFramework.Registry
open Library Library.Run

namespace ServiceRegistryCenter

/-- A method with the classes and the generic types of its parameters. -/
structure Method where
  name : String
  parameterClasses : List String := []
  parameterTypes : List String := []
  plain : '.' ∉ name.toList := by decide

/-- A class with its direct interfaces, and which of its methods implements which one of
an interface; bridges implement what they are bridges of. -/
structure BeanClass where
  name : String
  isServiceName : Bool := true
  interfaces : List String
  declaredMethods : List Method
  implementing : Method → Method → Bool
  named : ∀ declared method, implementing declared method = true → declared.name = method.name

structure ServiceMethodParameter where
  parameterName : String
  parameterClass : String
  parameterType : String

structure ServiceObject (Bean : Type*) where
  api : String
  serviceObject : Option Bean
  method : Method
  parameters : List ServiceMethodParameter

/-- What Javassist reads of a method; without code or debug data there are no names. -/
structure CtMethod where
  isStatic : Bool
  variableNames : Option (List String)

/-- The methods of interfaces, the class pool with the first method of a name for each class,
and `String.equalsIgnoreCase`. -/
structure Platform where
  getMethods : String → List Method
  classPool : String → Option (String → Option CtMethod)
  equalsIgnoreCase : String → String → Bool

end ServiceRegistryCenter

structure ServiceRegistryCenter (Bean : Type*) where
  serviceClassMap : Table String ServiceRegistryCenter.BeanClass := ∅
  serviceObjectMap : Table String Bean := ∅
  serviceObjectCache : Table String (ServiceRegistryCenter.ServiceObject Bean) := ∅

namespace ServiceRegistryCenter

variable (platform : Platform)

def DEFAULT_METHOD : List String :=
  ["wait","equals","notify","notifyAll","toString","hashCode","getClass"]

def isDefaultMethod (name : String) : Bool :=
  DEFAULT_METHOD.any fun methodName => platform.equalsIgnoreCase name methodName

/-- The loop over the parameters from the given variable on, which an exception ends. -/
def readParameters (variableNames : List String) :
    ℕ → List String → List String → List ServiceMethodParameter
  | pos,parameterClass::classes,parameterType::types =>
    match variableNames[pos]? with
    | some paramName =>
      ⟨paramName,parameterClass,parameterType⟩::readParameters variableNames (pos+1) classes types
    | none => []
  | _,_,_ => []

def getServiceMethodParameters (ctClass : String → Option CtMethod) (method : Method) :
    List ServiceMethodParameter :=
  match ctClass method.name with
  | none => []
  | some ctMethod =>
    match ctMethod.variableNames with
    | none => []
    | some variableNames =>
      readParameters variableNames (if ctMethod.isStatic then 0 else 1) method.parameterClasses
        method.parameterTypes

/-- The interfaces by the names of their methods; a later interface replaces an earlier one. -/
def allMethods (interfaces : List String) : Table String String :=
  interfaces.foldl (fun allMethods interfaceClass =>
    (platform.getMethods interfaceClass).foldl (fun allMethods method =>
      allMethods.insert method.name interfaceClass) allMethods) ∅

variable {Bean : Type*}

def generateMethods (allMethods : Table String String) (ctClass : String → Option CtMethod)
    (bean : Option Bean) :
    List Method → Table String (ServiceObject Bean) → Table String (ServiceObject Bean)
  | [],serviceObjectCache => serviceObjectCache
  | method::rest,serviceObjectCache =>
    if isDefaultMethod platform method.name then
      generateMethods allMethods ctClass bean rest serviceObjectCache
    else
      match allMethods.lookup method.name with
      | none => generateMethods allMethods ctClass bean rest serviceObjectCache
      | some interfaceClass =>
        let api := interfaceClass++"."++method.name
        let parameters := getServiceMethodParameters ctClass method
        generateMethods allMethods ctClass bean rest
          (serviceObjectCache.insert api ⟨api,bean,method,parameters⟩)

/-- A null pointer or a class that the pool does not find end it. -/
def generateServiceObject (beanName : String) (center : ServiceRegistryCenter Bean) :
    Option (ServiceRegistryCenter Bean) :=
  (center.serviceClassMap.lookup beanName).bind fun beanClass =>
    (platform.classPool beanClass.name).map fun ctClass =>
      if beanClass.isServiceName then
        let serviceObjectCache := generateMethods platform (allMethods platform beanClass.interfaces)
          ctClass (center.serviceObjectMap.lookup beanName) beanClass.declaredMethods
            center.serviceObjectCache
        {center with serviceObjectCache}
      else center

structure Add (Bean : Type*) where
  bean : Bean
  beanName : String
  beanClass : BeanClass

/-- `addService`, after which a failed bean is registered but not indexed. -/
def addService (center : ServiceRegistryCenter Bean) (add : Add Bean) : ServiceRegistryCenter Bean :=
  let center := {center with
    serviceClassMap := center.serviceClassMap.insert add.beanName add.beanClass
    serviceObjectMap := center.serviceObjectMap.insert add.beanName add.bean}
  (generateServiceObject platform add.beanName center).getD center

def getServiceObject (center : ServiceRegistryCenter Bean) (api : String) : Option (ServiceObject Bean) :=
  center.serviceObjectCache.lookup api

def Declares (beanClass : BeanClass) : Prop :=
  beanClass.isServiceName = true ∧ ∀ interfaceClass ∈ beanClass.interfaces,
    ∀ method ∈ platform.getMethods interfaceClass,
      ∃ declared ∈ beanClass.declaredMethods, beanClass.implementing declared method = true

/-- The object has a bean that was added, which implements the interface with the method
of the object. -/
def Bound (adds : List (Add Bean)) (interfaceClass : String) (method : Method)
    (object : ServiceObject Bean) : Prop :=
  ∃ add ∈ adds, object.serviceObject = some add.bean ∧ interfaceClass ∈ add.beanClass.interfaces ∧
    object.method ∈ add.beanClass.declaredMethods ∧
      add.beanClass.implementing object.method method = true

/-- Each name of an interface resolves to one of its methods, and each method is reached. -/
def Complete (adds : List (Add Bean)) (center : ServiceRegistryCenter Bean) : Prop :=
  ∀ add ∈ adds, ∀ interfaceClass ∈ add.beanClass.interfaces,
    ∀ method ∈ platform.getMethods interfaceClass,
      (∃ object, center.getServiceObject (interfaceClass++"."++method.name) = some object ∧
        ∃ other ∈ platform.getMethods interfaceClass, other.name = method.name ∧
          Bound adds interfaceClass other object) ∧
      ∃ api object, center.getServiceObject api = some object ∧ Bound adds interfaceClass method object

def lastDeclared (beanClass : BeanClass) (name : String) : Option Method :=
  beanClass.declaredMethods.reverse.find? fun declared => declared.name == name

/-- The class is found, no other direct interface has a method of the name, which is no
default method's, and the last declared method of the name implements the interface's. -/
def Clear (beanClass : BeanClass) : Prop :=
  ∀ interfaceClass ∈ beanClass.interfaces, ∀ method ∈ platform.getMethods interfaceClass,
    platform.classPool beanClass.name ≠ none ∧ isDefaultMethod platform method.name = false ∧
    (∀ other ∈ beanClass.interfaces, ∀ otherMethod ∈ platform.getMethods other,
      otherMethod.name = method.name → other = interfaceClass) ∧
    ∀ declared ∈ lastDeclared beanClass method.name, beanClass.implementing declared method = true

section Generate

variable {platform}

theorem api_injective {interfaceClass other : String} {method otherMethod : Method}
    (same : interfaceClass++"."++method.name = other++"."++otherMethod.name) :
    interfaceClass = other ∧ method.name = otherMethod.name := by
  have texts := congrArg String.toList same
  simp only [String.toList_append,List.append_assoc] at texts
  obtain ⟨interfaces,names⟩ := Text.last_split_unique method.plain otherMethod.plain texts
  exact ⟨(String.toList_inj.mp interfaces).symm,(String.toList_inj.mp names).symm⟩

def methodPairs (platform : Platform) (interfaces : List String) : List (String × String) :=
  interfaces.flatMap fun interfaceClass =>
    (platform.getMethods interfaceClass).map fun method => (method.name,interfaceClass)

theorem allMethods_eq (interfaces : List String) :
    allMethods platform interfaces = Table.putAll ∅ (methodPairs platform interfaces) := by
  rw [allMethods,methodPairs,Table.putAll,List.foldl_flatMap]
  simp only [List.foldl_map]

theorem allMethods_some {interfaces : List String} {name interfaceClass : String}
    (found : (allMethods platform interfaces).lookup name = some interfaceClass) :
    interfaceClass ∈ interfaces ∧ ∃ method ∈ platform.getMethods interfaceClass, method.name = name := by
  rw [allMethods_eq,Table.lookup_putAll,AList.lookup_empty,Option.or_none] at found
  obtain ⟨_,_,split,_⟩ := List.lookup_eq_some_iff.mp found
  have listed : (name,interfaceClass) ∈ methodPairs platform interfaces := by
    rw [← List.mem_reverse,split]
    exact List.mem_append_right _ List.mem_cons_self
  simpa [methodPairs] using listed

theorem allMethods_own {interfaces : List String} {interfaceClass : String} {method : Method}
    (direct : interfaceClass ∈ interfaces) (declared : method ∈ platform.getMethods interfaceClass)
    (only : ∀ other ∈ interfaces, ∀ otherMethod ∈ platform.getMethods other,
      otherMethod.name = method.name → other = interfaceClass) :
    (allMethods platform interfaces).lookup method.name = some interfaceClass := by
  have listed : (method.name,interfaceClass) ∈ methodPairs platform interfaces :=
    List.mem_flatMap.mpr ⟨interfaceClass,direct,List.mem_map_of_mem declared⟩
  rw [allMethods_eq]
  obtain ⟨pair,_,_,found⟩ := Table.lookup_putAll_inside ∅ _ method.name ⟨_,listed,rfl⟩
  rw [found]
  rw [← allMethods_eq] at found
  obtain ⟨other,otherMethod,held,same⟩ := allMethods_some found
  exact congrArg some (only pair.2 other otherMethod held same)

def objectOf (ctClass : String → Option CtMethod) (bean : Option Bean) (interfaceClass : String)
    (method : Method) : ServiceObject Bean :=
  ⟨interfaceClass++"."++method.name,bean,method,getServiceMethodParameters ctClass method⟩

def entryOf (platform : Platform) (all : Table String String) (ctClass : String → Option CtMethod)
    (bean : Option Bean) (method : Method) : Option (String × ServiceObject Bean) :=
  if isDefaultMethod platform method.name then none
  else (all.lookup method.name).map fun interfaceClass =>
    (interfaceClass++"."++method.name,objectOf ctClass bean interfaceClass method)

theorem entryOf_eq_some {all : Table String String} {ctClass : String → Option CtMethod}
    {bean : Option Bean} {method : Method} {pair : String × ServiceObject Bean} :
    entryOf platform all ctClass bean method = some pair ↔
      isDefaultMethod platform method.name = false ∧ ∃ interfaceClass,
        all.lookup method.name = some interfaceClass ∧
          (interfaceClass++"."++method.name,objectOf ctClass bean interfaceClass method) = pair := by
  rw [entryOf]
  cases isDefaultMethod platform method.name with
  | true => simp
  | false => simp [Option.map_eq_some_iff]

theorem generateMethods_eq (all : Table String String) (ctClass : String → Option CtMethod)
    (bean : Option Bean) (methods : List Method) (cache : Table String (ServiceObject Bean)) :
    generateMethods platform all ctClass bean methods cache =
      Table.putAll cache (methods.filterMap (entryOf platform all ctClass bean)) := by
  induction methods generalizing cache with
  | nil => rfl
  | cons method rest ih =>
    rw [generateMethods,List.filterMap_cons,entryOf]
    split
    next => exact ih cache
    next =>
      cases all.lookup method.name with
      | none => exact ih cache
      | some interfaceClass => exact ih _

theorem entryOf_lookup (all : Table String String) (ctClass : String → Option CtMethod)
    (bean : Option Bean) (interfaceClass : String) (method declared : Method) :
    ((entryOf platform all ctClass bean declared).bind fun pair =>
        if interfaceClass++"."++method.name == pair.1 then some pair.2 else none) =
      if declared.name = method.name ∧ isDefaultMethod platform method.name = false ∧
          all.lookup method.name = some interfaceClass then
        some (objectOf ctClass bean interfaceClass declared)
      else none := by
  cases given : entryOf platform all ctClass bean declared with
  | none =>
    rw [if_neg,Option.bind_none]
    rintro ⟨same,plain,own⟩
    rw [← same] at plain own
    cases given.symm.trans (entryOf_eq_some.mpr ⟨plain,interfaceClass,own,rfl⟩)
  | some pair =>
    obtain ⟨plain,other,own,rfl⟩ := entryOf_eq_some.mp given
    rw [Option.bind_some]
    by_cases key : interfaceClass++"."++method.name = other++"."++declared.name
    · obtain ⟨rfl,same⟩ := api_injective key
      rw [← same] at plain own
      rw [if_pos (beq_iff_eq.mpr key),if_pos ⟨same.symm,plain,own⟩]
    · rw [if_neg (by simpa using key),if_neg]
      rintro ⟨same,_,alsoOwn⟩
      rw [← same] at alsoOwn
      cases own.symm.trans alsoOwn
      exact key (by rw [same])

private theorem lookup_entries (all : Table String String) (ctClass : String → Option CtMethod)
    (bean : Option Bean) (methods : List Method) (interfaceClass : String) (method : Method) :
    (methods.filterMap (entryOf platform all ctClass bean)).lookup (interfaceClass++"."++method.name) =
      if isDefaultMethod platform method.name = false ∧ all.lookup method.name = some interfaceClass then
        (methods.find? fun declared => declared.name == method.name).map
          (objectOf ctClass bean interfaceClass)
      else none := by
  rw [List.lookup_eq_findSome?,← List.head?_filterMap,List.filterMap_filterMap,List.head?_filterMap]
  simp only [entryOf_lookup]
  split
  next served =>
    rw [← List.findSome?_guard,List.map_findSome?]
    congr
    funext declared
    by_cases same : declared.name = method.name <;> simp [served,same,Option.guard]
  next unserved => simp [unserved]

theorem addService_missing (center : ServiceRegistryCenter Bean) {add : Add Bean}
    (missing : platform.classPool add.beanClass.name = none) :
    (addService platform center add).serviceObjectCache = center.serviceObjectCache := by
  rw [addService,generateServiceObject,AList.lookup_insert,Option.bind_some,missing]
  rfl

theorem addService_lookup (center : ServiceRegistryCenter Bean) {add : Add Bean}
    (annotated : add.beanClass.isServiceName = true) {ctClass : String → Option CtMethod}
    (found : platform.classPool add.beanClass.name = some ctClass) (interfaceClass : String)
    (method : Method) :
    (addService platform center add).getServiceObject (interfaceClass++"."++method.name) =
      (if isDefaultMethod platform method.name = false ∧
          (allMethods platform add.beanClass.interfaces).lookup method.name = some interfaceClass then
        (lastDeclared add.beanClass method.name).map (objectOf ctClass (some add.bean) interfaceClass)
      else none).or (center.getServiceObject (interfaceClass++"."++method.name)) := by
  rw [addService,generateServiceObject,AList.lookup_insert,Option.bind_some,found]
  simp only [Option.map_some,annotated,if_true,Option.getD_some,AList.lookup_insert]
  rw [getServiceObject,generateMethods_eq,Table.lookup_putAll,← List.filterMap_reverse,lookup_entries]
  rfl

/-- An interface's method is served under its own name. -/
def Served (adds : List (Add Bean)) (center : ServiceRegistryCenter Bean) (interfaceClass : String)
    (method : Method) : Prop :=
  ∃ object, center.getServiceObject (interfaceClass++"."++method.name) = some object ∧
    Bound adds interfaceClass method object

theorem Bound.mono {adds more : List (Add Bean)} (subset : adds ⊆ more) {interfaceClass : String}
    {method : Method} {object : ServiceObject Bean} (bound : Bound adds interfaceClass method object) :
    Bound more interfaceClass method object :=
  bound.imp fun _ both => ⟨subset both.1,both.2⟩

theorem lastDeclared_mem {beanClass : BeanClass} {name : String} {declared : Method}
    (last : lastDeclared beanClass name = some declared) :
    declared ∈ beanClass.declaredMethods ∧ declared.name = name := by
  refine ⟨List.mem_reverse.mp (List.mem_of_find?_eq_some last),?_⟩
  simpa using List.find?_some last

private theorem served_kept {adds : List (Add Bean)} {center : ServiceRegistryCenter Bean} {add : Add Bean}
    (annotated : add.beanClass.isServiceName = true) (clear : Clear platform add.beanClass)
    {interfaceClass : String} {method : Method} (declared : method ∈ platform.getMethods interfaceClass)
    (served : Served adds center interfaceClass method) :
    Served (adds++[add]) (addService platform center add) interfaceClass method := by
  obtain ⟨object,resolved,bound⟩ := served
  cases found : platform.classPool add.beanClass.name with
  | none =>
    refine ⟨object,?_,bound.mono (List.subset_append_left _ _)⟩
    rw [getServiceObject,addService_missing center found]
    exact resolved
  | some ctClass =>
    rw [Served,addService_lookup center annotated found,resolved]
    split
    next own =>
      cases last : lastDeclared add.beanClass method.name with
      | none => exact ⟨object,rfl,bound.mono (List.subset_append_left _ _)⟩
      | some overriding =>
        have direct := (allMethods_some own.2).1
        refine ⟨_,rfl,add,by simp,rfl,direct,(lastDeclared_mem last).1,?_⟩
        exact (clear interfaceClass direct method declared).2.2.2 overriding last
    next => exact ⟨object,rfl,bound.mono (List.subset_append_left _ _)⟩

private theorem served_added {adds : List (Add Bean)} {center : ServiceRegistryCenter Bean} {add : Add Bean}
    (declares : Declares platform add.beanClass) (clear : Clear platform add.beanClass)
    {interfaceClass : String} (direct : interfaceClass ∈ add.beanClass.interfaces)
    {method : Method} (listed : method ∈ platform.getMethods interfaceClass) :
    Served (adds++[add]) (addService platform center add) interfaceClass method := by
  obtain ⟨known,plain,only,overrides⟩ := clear interfaceClass direct method listed
  obtain ⟨ctClass,found⟩ := Option.ne_none_iff_exists'.mp known
  obtain ⟨own,declared,implementing⟩ := declares.2 interfaceClass direct method listed
  have some : (lastDeclared add.beanClass method.name).isSome = true := by
    rw [lastDeclared,List.find?_isSome]
    exact ⟨own,List.mem_reverse.mpr declared,by simpa using add.beanClass.named own method implementing⟩
  obtain ⟨overriding,last⟩ := Option.isSome_iff_exists.mp some
  rw [Served,addService_lookup center declares.1 found,if_pos ⟨plain,allMethods_own direct listed only⟩,
    last]
  exact ⟨_,rfl,add,by simp,rfl,direct,(lastDeclared_mem last).1,overrides overriding last⟩

def AllServed (platform : Platform) (adds : List (Add Bean)) (center : ServiceRegistryCenter Bean) : Prop :=
  ∀ add ∈ adds, ∀ interfaceClass ∈ add.beanClass.interfaces,
    ∀ method ∈ platform.getMethods interfaceClass, Served adds center interfaceClass method

theorem AllServed.complete {adds : List (Add Bean)} {center : ServiceRegistryCenter Bean}
    (served : AllServed platform adds center) : Complete platform adds center := by
  intro add inside interfaceClass direct method listed
  obtain ⟨object,resolved,bound⟩ := served add inside interfaceClass direct method listed
  exact ⟨⟨object,resolved,method,listed,rfl,bound⟩,_,object,resolved,bound⟩

private theorem allServed_step {adds : List (Add Bean)} {center : ServiceRegistryCenter Bean} {add : Add Bean}
    (declares : Declares platform add.beanClass) (clear : Clear platform add.beanClass)
    (served : AllServed platform adds center) :
    AllServed platform (adds++[add]) (addService platform center add) := by
  intro earlier inside interfaceClass direct method listed
  rcases List.mem_append.mp inside with before | last
  · exact served_kept declares.1 clear listed (served earlier before interfaceClass direct method listed)
  · rw [List.mem_singleton.mp last] at direct
    exact served_added declares clear direct listed

private theorem allServed_run (adds : List (Add Bean)) {done : List (Add Bean)}
    {center : ServiceRegistryCenter Bean}
    (clear : ∀ add ∈ adds, Declares platform add.beanClass ∧ Clear platform add.beanClass)
    (served : AllServed platform done center) :
    AllServed platform (done++adds) (final (addService platform) center adds) := by
  induction adds generalizing done center with
  | nil => rwa [List.append_nil]
  | cons add rest ih =>
    rw [List.forall_mem_cons] at clear
    rw [← List.singleton_append,← List.append_assoc]
    exact ih clear.2 (allServed_step clear.1.1 clear.1.2 served)

private theorem resolved_found {add : Add Bean} {api : String} {object : ServiceObject Bean}
    (resolved : (addService platform {} add).getServiceObject api = some object) :
    ∃ ctClass, platform.classPool add.beanClass.name = some ctClass := by
  apply Option.ne_none_iff_exists'.mp
  intro missing
  rw [getServiceObject,addService_missing {} missing] at resolved
  cases resolved

private theorem first_resolved {add : Add Bean} (annotated : add.beanClass.isServiceName = true) {api : String}
    {object : ServiceObject Bean}
    (resolved : (addService platform {} add).getServiceObject api = some object) :
    ∃ interfaceClass, api = interfaceClass++"."++object.method.name ∧
      (allMethods platform add.beanClass.interfaces).lookup object.method.name = some interfaceClass := by
  obtain ⟨ctClass,found⟩ := resolved_found resolved
  rw [addService,generateServiceObject,AList.lookup_insert,Option.bind_some,found] at resolved
  simp only [Option.map_some,annotated,if_true,Option.getD_some,AList.lookup_insert] at resolved
  rw [getServiceObject,generateMethods_eq,Table.lookup_putAll,AList.lookup_empty,Option.or_none] at resolved
  obtain ⟨_,_,split,_⟩ := List.lookup_eq_some_iff.mp resolved
  have listed : (api,object) ∈ add.beanClass.declaredMethods.filterMap (entryOf platform
      (allMethods platform add.beanClass.interfaces) ctClass (some add.bean)) := by
    rw [← List.mem_reverse,split]
    exact List.mem_append_right _ List.mem_cons_self
  obtain ⟨method,_,given⟩ := List.mem_filterMap.mp listed
  obtain ⟨_,interfaceClass,own,same⟩ := entryOf_eq_some.mp given
  cases same
  exact ⟨interfaceClass,rfl,own⟩

theorem first_complete_iff {add : Add Bean} (declares : Declares platform add.beanClass) :
    Complete platform [add] (addService platform {} add) ↔ Clear platform add.beanClass := by
  constructor
  · intro complete
    have own : ∀ interfaceClass ∈ add.beanClass.interfaces, ∀ method ∈ platform.getMethods interfaceClass,
        ∃ ctClass, platform.classPool add.beanClass.name = some ctClass ∧
          isDefaultMethod platform method.name = false ∧
          (allMethods platform add.beanClass.interfaces).lookup method.name = some interfaceClass := by
      intro interfaceClass direct method listed
      obtain ⟨⟨object,resolved,_⟩,_⟩ := complete add List.mem_cons_self interfaceClass direct method listed
      obtain ⟨ctClass,found⟩ := resolved_found resolved
      rw [addService_lookup {} declares.1 found] at resolved
      split at resolved
      next held => exact ⟨ctClass,found,held⟩
      next => cases resolved
    intro interfaceClass direct method listed
    obtain ⟨ctClass,found,plain,mine⟩ := own interfaceClass direct method listed
    refine ⟨Option.ne_none_iff_exists'.mpr ⟨ctClass,found⟩,plain,?_,?_⟩
    · intro other alsoDirect otherMethod alsoListed same
      obtain ⟨_,_,_,theirs⟩ := own other alsoDirect otherMethod alsoListed
      rw [same] at theirs
      exact Option.some.inj (theirs.symm.trans mine)
    · intro declared last
      obtain ⟨_,api,object,resolved,_,inside,-,-,-,implementing⟩ :=
        complete add List.mem_cons_self interfaceClass direct method listed
      rw [List.mem_singleton.mp inside] at implementing
      have name := add.beanClass.named _ _ implementing
      obtain ⟨other,rfl,theirs⟩ := first_resolved declares.1 resolved
      rw [name] at theirs
      cases theirs.symm.trans mine
      rw [name,addService_lookup {} declares.1 found,if_pos ⟨plain,mine⟩,last] at resolved
      cases resolved
      exact implementing
  · intro clear
    have served := @allServed_run platform _ [add] [] {} (by simpa using ⟨declares,clear⟩) nofun
    exact served.complete

end Generate

/-- In a run of clear classes every interface's method is served and reached in every state;
for a first bean the condition is exact. -/
theorem services_complete (platform : Platform) (adds : List (Add Bean))
    (declares : ∀ add ∈ adds, Declares platform add.beanClass) :
    ((∀ add ∈ adds, Clear platform add.beanClass) → ∀ before, before <+: adds →
      Complete platform before (final (addService platform) {} before)) ∧
    ∀ add ∈ adds, Complete platform [add] (addService platform {} add) ↔ Clear platform add.beanClass := by
  refine ⟨fun clear before begun => ?_,fun add inside => first_complete_iff (declares add inside)⟩
  have served := @allServed_run platform _ before [] {} (fun add inside =>
    ⟨declares add (begun.subset inside),clear add (begun.subset inside)⟩) nofun
  exact served.complete

def find : Method := {name := "find",parameterClasses := ["long"],parameterTypes := ["long"]}

def findByName : Method :=
  {name := "find",parameterClasses := ["java.lang.String"],parameterTypes := ["java.lang.String"]}

def samplePlatform : Platform where
  getMethods interfaceClass := if interfaceClass = "shop.Search" then [find,findByName] else [find]
  classPool _ := some fun _ => some ⟨false,some ["this","id"]⟩
  equalsIgnoreCase text other := text.toLower == other.toLower

def sampleClass (interfaces : List String) (declaredMethods : List Method) : BeanClass where
  name := "shop.Service"
  interfaces
  declaredMethods
  implementing declared method :=
    declared.name == method.name && declared.parameterClasses == method.parameterClasses
  named _ _ same := beq_iff_eq.mp (Bool.and_eq_true_iff.mp same).1

def sampleAdd (interfaces : List String) (declaredMethods : List Method) : Add ℕ :=
  ⟨1,"service",sampleClass interfaces declaredMethods⟩

theorem sample_methods {interfaceClass : String} (other : interfaceClass ≠ "shop.Search") :
    samplePlatform.getMethods interfaceClass = [find] := if_neg other

theorem sample_declares {interfaces : List String} {declaredMethods : List Method}
    (declared : ∀ interfaceClass ∈ interfaces, ∀ method ∈ samplePlatform.getMethods interfaceClass,
      method ∈ declaredMethods) : Declares samplePlatform (sampleClass interfaces declaredMethods) := by
  refine ⟨rfl,fun interfaceClass direct method listed =>
    ⟨method,declared interfaceClass direct method listed,?_⟩⟩
  simp [sampleClass]

theorem services_complete_users :
    Complete samplePlatform [sampleAdd ["shop.Users"] [find],sampleAdd ["shop.Users"] [find]]
      (final (addService samplePlatform) {}
        [sampleAdd ["shop.Users"] [find],sampleAdd ["shop.Users"] [find]]) := by
  have only : ∀ interfaceClass ∈ ["shop.Users"], ∀ method ∈ samplePlatform.getMethods interfaceClass,
      method ∈ [find] := by
    intro interfaceClass direct method listed
    rwa [List.mem_singleton.mp direct,sample_methods (by decide)] at listed
  have clear : Clear samplePlatform (sampleClass ["shop.Users"] [find]) := by
    intro interfaceClass direct method listed
    rw [List.mem_singleton.mp (only interfaceClass direct method listed)]
    refine ⟨nofun,by decide +kernel,fun other alsoDirect _ _ _ => ?_,?_⟩
    · rw [List.mem_singleton.mp direct,List.mem_singleton.mp alsoDirect]
    · rintro _ ⟨⟩
      decide
  exact (services_complete samplePlatform
    [sampleAdd ["shop.Users"] [find],sampleAdd ["shop.Users"] [find]]
    (by simpa [sampleAdd] using sample_declares only)).1 (by simpa [sampleAdd] using clear) _
      (List.prefix_refl _)

/-- Of two interfaces with a method name in common the first is not served, and of two
overloads one is not reached. -/
theorem shared_name_missing :
    ¬ Complete samplePlatform [sampleAdd ["shop.Users","shop.Orders"] [find]]
      (addService samplePlatform {} (sampleAdd ["shop.Users","shop.Orders"] [find])) ∧
    ¬ Complete samplePlatform [sampleAdd ["shop.Search"] [find,findByName]]
      (addService samplePlatform {} (sampleAdd ["shop.Search"] [find,findByName])) := by
  have users : find ∈ samplePlatform.getMethods "shop.Users" := by
    rw [sample_methods (by decide)]
    exact List.mem_cons_self
  have orders : find ∈ samplePlatform.getMethods "shop.Orders" := by
    rw [sample_methods (by decide)]
    exact List.mem_cons_self
  have search : samplePlatform.getMethods "shop.Search" = [find,findByName] := by simp [samplePlatform]
  constructor
  · intro complete
    have declares : Declares samplePlatform (sampleClass ["shop.Users","shop.Orders"] [find]) := by
      apply sample_declares
      intro interfaceClass direct method listed
      rwa [sample_methods (by rintro rfl; revert direct; decide)] at listed
    have clear := (first_complete_iff declares).mp complete "shop.Users" List.mem_cons_self find users
    exact absurd (clear.2.2.1 "shop.Orders" (by decide) find orders rfl) (by decide)
  · intro complete
    have declares : Declares samplePlatform (sampleClass ["shop.Search"] [find,findByName]) := by
      apply sample_declares
      intro interfaceClass direct method listed
      rwa [List.mem_singleton.mp direct,search] at listed
    have clear := (first_complete_iff declares).mp complete "shop.Search" List.mem_cons_self find
      (by rw [search]; exact List.mem_cons_self)
    exact absurd (clear.2.2.2 findByName rfl) (by decide)

end ServiceRegistryCenter
end YzFramework.Registry
