import YzFramework.Registry.ServiceRegistry

/-! The names that `getMappingName` makes of mappings, and the paths and apis made of them. -/
namespace YzFramework.Registry.ServiceRegistry
open Library

def trimmed (name : List Char) : List Char := (name.dropWhile (· == '/')).rdropWhile (· == '/')

def withoutExtension (name : List Char) : List Char :=
  if '.' ∈ Text.afterLast '/' name then Text.beforeLast '.' name else name

/-- Slashes and the extension are removed; the slashes are no part of the last segment. -/
def normalised (name : List Char) : List Char := trimmed (withoutExtension (trimmed name))

def Normalises (utils : StringUtils) (value : String) : Prop :=
  ∀ others, getMappingName utils (value::others) = some (String.ofList (normalised value.toList))

/-- The last dot, if there is one, is in the last segment and not the first character, or
it is the first character and a segment follows. -/
def Fits (value : String) : Prop :=
  ∀ before after, value.toList = before++ '.'::after → '.' ∉ after →
    (before = [] ↔ '/' ∈ after.rdropWhile (· == '/'))

/-- The package and the mapping of a class, and that of one of its methods, which may be
annotated without one. -/
structure Mapping where
  package : String
  classMapping : String
  methodMapping : Option String

/-- A mapping as a string; none is written "null". -/
def mappingText (utils : StringUtils) (mapping : Option String) : String :=
  (getMappingName utils mapping.toList).getD "null"

namespace Mapping

def path (utils : StringUtils) (appName : String) (mapping : Mapping) : String :=
  "/"++appName++"/"++mappingText utils (some mapping.classMapping)++"/"++
    mappingText utils mapping.methodMapping

def api (utils : StringUtils) (mapping : Mapping) : String :=
  mapping.package++"."++mappingText utils (some mapping.classMapping)++"."++
    mappingText utils mapping.methodMapping

def normal (mapping : Mapping) : List Char × Option (List Char) :=
  (normalised mapping.classMapping.toList,mapping.methodMapping.map fun value => normalised value.toList)

/-- All mappings are normalised, and methods whose normal names differ have different
paths and apis. -/
def ToldApart (utils : StringUtils) (appName : String) (first second : Mapping) : Prop :=
  (∀ mapping ∈ [first,second], Normalises utils mapping.classMapping ∧
    ∀ value ∈ mapping.methodMapping, Normalises utils value) ∧
  (first.normal ≠ second.normal →
    first.path utils appName ≠ second.path utils appName ∧ first.api utils ≠ second.api utils)

def names (mapping : Mapping) : List Char × List Char :=
  (mapping.normal.1,mapping.normal.2.getD "null".toList)

def qualified (mapping : Mapping) : List Char × List Char :=
  (mapping.package.toList++ '.'::mapping.names.1,mapping.names.2)

/-- All mappings fit, and no separator within a name is taken for the one between names. -/
def Distinct (first second : Mapping) : Prop :=
  (∀ mapping ∈ [first,second], Fits mapping.classMapping ∧
    ∀ value ∈ mapping.methodMapping, Fits value) ∧
  (first.normal ≠ second.normal →
    (first.names ≠ second.names ∧ ¬ Text.Shifted '/' first.names second.names ∧
      ¬ Text.Shifted '/' second.names first.names) ∧
    first.qualified ≠ second.qualified ∧ ¬ Text.Shifted '.' first.qualified second.qualified ∧
      ¬ Text.Shifted '.' second.qualified first.qualified)

end Mapping

section Names

variable (utils : StringUtils)

theorem trimLeading_eq (name : List Char) : trimLeading utils name = name.dropWhile (· == '/') := by
  rw [trimLeading]
  split
  next starts =>
    rw [trimLeading_eq (utils.trimLeadingCharacter name '/'),utils.leading,List.dropWhile_idempotent]
  next other =>
    cases name with
    | nil => rfl
    | cons first rest => exact (List.dropWhile_cons_of_neg (by simpa using other)).symm
termination_by name.length
decreasing_by
  rw [utils.leading]
  exact dropWhile_shorter ‹_›

theorem trimTrailing_eq (name : List Char) : trimTrailing utils name = name.rdropWhile (· == '/') := by
  rw [trimTrailing]
  split
  next ends =>
    rw [trimTrailing_eq (utils.trimTrailingCharacter name '/'),utils.trailing,List.rdropWhile_idempotent]
  next other =>
    refine (List.rdropWhile_eq_self_iff.mpr fun some ends => other ?_).symm
    rw [List.getLast?_eq_some_getLast some]
    exact congrArg _ (beq_iff_eq.mp ends)
termination_by name.length
decreasing_by
  rw [utils.trailing]
  exact rdropWhile_shorter ‹_›

def cutAtDot (name : List Char) : List Char :=
  if Text.beforeLast '.' name = [] then name else Text.beforeLast '.' name

theorem getMappingName_eq (value : String) (others : List String) :
    getMappingName utils (value::others) = some (String.ofList (trimmed (cutAtDot value.toList))) := by
  rw [getMappingName,trimTrailing_eq,trimLeading_eq]
  rfl

end Names

theorem trimmed_split (before : List Char) (after : List Char) : trimmed (before++ '.'::after) =
    before.dropWhile (· == '/')++ '.'::after.rdropWhile (· == '/') := by
  rw [trimmed,Text.dropWhile_append before (by decide),Text.rdropWhile_append _ (by decide)]

theorem trimmed_idempotent (name : List Char) : trimmed (trimmed name) = trimmed name := by
  cases kept : name.dropWhile (· == '/') with
  | nil =>
    have empty : trimmed name = [] := by rw [trimmed,kept]; rfl
    rw [empty]
    rfl
  | cons first rest =>
    have stays : ¬ (first == '/') = true := by
      have head := List.head_dropWhile_not (· == '/') (by rw [kept]; exact List.cons_ne_nil _ _)
      simpa [kept] using head
    have once : trimmed name = first::rest.rdropWhile (· == '/') := by
      rw [trimmed,kept]
      exact @Text.rdropWhile_append (· == '/') [] first stays rest
    rw [once,trimmed,List.dropWhile_cons_of_neg (p := (· == '/')) stays]
    apply (@Text.rdropWhile_append (· == '/') [] first stays _).trans
    rw [List.rdropWhile_idempotent]
    rfl

theorem trimmed_dropWhile (name : List Char) : trimmed (name.dropWhile (· == '/')) = trimmed name := by
  rw [trimmed,List.dropWhile_idempotent]
  rfl

theorem cutAtDot_split (before : List Char) {after : List Char} (plain : '.' ∉ after) :
    trimmed (cutAtDot (before++ '.'::after)) =
      if before = [] then '.'::after.rdropWhile (· == '/') else trimmed before := by
  rw [cutAtDot,Text.beforeLast_append before plain]
  split
  next empty =>
    subst empty
    exact trimmed_split [] after
  next => rfl

theorem normalised_split (before : List Char) {after : List Char} (plain : '.' ∉ after) :
    normalised (before++ '.'::after) =
      if '/' ∈ after.rdropWhile (· == '/') then
        before.dropWhile (· == '/')++ '.'::after.rdropWhile (· == '/')
      else trimmed before := by
  have alsoPlain : '.' ∉ after.rdropWhile (· == '/') := fun inside =>
    plain ((List.rdropWhile_prefix _ _).subset inside)
  have last := @Text.mem_afterLast '/' '.' (by decide) (before.dropWhile (· == '/')) _ alsoPlain
  rw [normalised,trimmed_split,withoutExtension,Text.beforeLast_append _ alsoPlain]
  by_cases later : '/' ∈ after.rdropWhile (· == '/')
  · rw [if_neg fun inside => last.mp inside later,if_pos later,← trimmed_split,trimmed_idempotent]
  · rw [if_pos (last.mpr later),if_neg later,trimmed_dropWhile]

/-- A mapping is normalised if and only if its last dot begins the extension of its last
segment, which does not begin the mapping. -/
theorem normalises_iff (utils : StringUtils) (value : String) : Normalises utils value ↔ Fits value := by
  have names : Normalises utils value ↔
      trimmed (cutAtDot value.toList) = normalised value.toList := by
    simp only [Normalises,getMappingName_eq,Option.some.injEq,String.ofList_inj,forall_const]
  rw [names,Fits]
  generalize value.toList = name
  by_cases dotted : '.' ∈ name
  · obtain ⟨before,after,rfl,plain⟩ := Text.last_split dotted
    rw [Text.forall_last_split plain fun before after => before = [] ↔
      '/' ∈ after.rdropWhile (· == '/'),cutAtDot_split before plain,normalised_split before plain]
    by_cases first : before = []
    · subst first
      by_cases later : '/' ∈ after.rdropWhile (· == '/')
      · simp [later]
      · rw [if_pos rfl,if_neg later]
        exact iff_of_false (List.cons_ne_nil _ _) fun both => later (both.mp rfl)
    · by_cases later : '/' ∈ after.rdropWhile (· == '/')
      · rw [if_neg first,if_pos later]
        refine iff_of_false (fun same => ?_) fun both => first (both.mpr later)
        have shorter := (List.rdropWhile_prefix (· == '/') (before.dropWhile (· == '/'))).length_le
        have longer := congrArg List.length same
        rw [trimmed,List.length_append,List.length_cons] at longer
        omega
      · rw [if_neg first,if_neg later]
        exact iff_of_true rfl (iff_of_false first later)
  · have cut : cutAtDot name = name := by rw [cutAtDot,Text.beforeLast_none dotted,if_pos rfl]
    have plain : '.' ∉ Text.afterLast '/' (trimmed name) := fun inside =>
      dotted ((List.dropWhile_suffix _).subset ((List.rdropWhile_prefix _ _).subset
        ((List.rtakeWhile_suffix _ _).subset inside)))
    have whole : withoutExtension (trimmed name) = trimmed name := if_neg plain
    apply iff_of_true (by rw [cut,normalised,whole,trimmed_idempotent])
    rintro before after rfl
    exact fun _ => (dotted (by simp)).elim

theorem entriesOf_mapping {Bean : Type*} (utils : StringUtils) (appName : String) {beanClass : Class}
    {package value : String} {others : List String} (packaged : beanClass.package = some package)
    (mapped : beanClass.requestMapping = some (value::others)) (bean : Option Bean) :
    entriesOf utils appName beanClass bean = beanClass.methods.filterMap fun method =>
      method.requestMapping.map fun values =>
        ⟨Mapping.path utils appName ⟨package,value,values.head?⟩,
          ⟨Mapping.api utils ⟨package,value,values.head?⟩,bean,method⟩⟩ := by
  have first : ∀ values, (getMappingName utils values).getD "null" = mappingText utils values.head? := by
    intro values
    cases values with
    | nil => rfl
    | cons value others =>
      rw [mappingText,List.head?_cons,Option.toList_some,getMappingName_eq,getMappingName_eq]
  have own := first (value::others)
  rw [getMappingName_eq,Option.getD_some,List.head?_cons] at own
  rw [entriesOf,mapped,Option.bind_some,getMappingName_eq,packaged]
  dsimp only
  rw [own]
  congr 1
  funext method
  unfold methodEntry
  simp only [first,Mapping.path,Mapping.api,Option.getD_some]

namespace Mapping

variable {utils : StringUtils} {appName : String} {first second : Mapping}

theorem mappingText_normal {mapping : Option String}
    (normal : ∀ value ∈ mapping, Normalises utils value) :
    (mappingText utils mapping).toList =
      (mapping.map fun value => normalised value.toList).getD "null".toList := by
  cases mapping with
  | none => rfl
  | some value =>
    rw [mappingText,Option.toList_some,normal value rfl []]
    simp

theorem path_eq_iff : first.path utils appName = second.path utils appName ↔
    (mappingText utils (some first.classMapping)).toList++
        '/'::(mappingText utils first.methodMapping).toList =
      (mappingText utils (some second.classMapping)).toList++
        '/'::(mappingText utils second.methodMapping).toList := by
  rw [← String.toList_inj]
  simp [path]

theorem api_eq_iff : first.api utils = second.api utils ↔
    (first.package.toList++ '.'::(mappingText utils (some first.classMapping)).toList)++
        '.'::(mappingText utils first.methodMapping).toList =
      (second.package.toList++ '.'::(mappingText utils (some second.classMapping)).toList)++
        '.'::(mappingText utils second.methodMapping).toList := by
  rw [← String.toList_inj]
  simp [api]

theorem mappingText_names (utils : StringUtils) {mapping : Mapping} (classFits : Fits mapping.classMapping)
    (methodFits : ∀ value ∈ mapping.methodMapping, Fits value) :
    (mappingText utils (some mapping.classMapping)).toList = mapping.names.1 ∧
      (mappingText utils mapping.methodMapping).toList = mapping.names.2 := by
  have own := @mappingText_normal utils (some mapping.classMapping) fun value same => by
    cases same
    exact (normalises_iff utils _).mpr classFits
  have method := @mappingText_normal utils mapping.methodMapping fun value given =>
    (normalises_iff utils value).mpr (methodFits value given)
  rw [Option.map_some,Option.getD_some] at own
  simp only [names,normal]
  exact ⟨own,method⟩

private theorem toldApart_iff (utils : StringUtils) (appName : String) (first second : Mapping) :
    ToldApart utils appName first second ↔ Distinct first second := by
  rw [ToldApart,Distinct]
  simp only [normalises_iff utils]
  apply and_congr_right
  intro fits
  obtain ⟨firstFits,secondFits⟩ := List.forall_mem_cons.mp fits
  obtain ⟨firstClass,firstMethod⟩ := mappingText_names utils firstFits.1 firstFits.2
  obtain ⟨fitsClass,fitsMethod⟩ := secondFits second List.mem_cons_self
  obtain ⟨secondClass,secondMethod⟩ := mappingText_names utils fitsClass fitsMethod
  have paths : first.path utils appName = second.path utils appName ↔ first.names = second.names ∨
      Text.Shifted '/' first.names second.names ∨ Text.Shifted '/' second.names first.names := by
    rw [path_eq_iff,firstClass,firstMethod,secondClass,secondMethod]
    exact Text.joined_eq_iff '/' first.names second.names
  have apis : first.api utils = second.api utils ↔ first.qualified = second.qualified ∨
      Text.Shifted '.' first.qualified second.qualified ∨
        Text.Shifted '.' second.qualified first.qualified := by
    rw [api_eq_iff,firstClass,firstMethod,secondClass,secondMethod]
    exact Text.joined_eq_iff '.' first.qualified second.qualified
  rw [ne_eq,ne_eq,ne_eq,paths,apis,not_or,not_or,not_or,not_or]

end Mapping

/-- Mappings are normalised if and only if they fit, and told apart if and only if they
are distinct. -/
theorem mapping_names_iff (utils : StringUtils) (appName : String) :
    (∀ value, Normalises utils value ↔ Fits value) ∧
      ∀ first second, Mapping.ToldApart utils appName first second ↔ Mapping.Distinct first second :=
  ⟨normalises_iff utils,Mapping.toldApart_iff utils appName⟩

/-- A version in a path takes the rest with it, and two classes get the same names. -/
theorem version_collides : ¬ Normalises trimming "/v1.0/user" ∧
    ¬ Mapping.ToldApart trimming "mall" ⟨"shop","/v1.0/user",some "/list"⟩
      ⟨"shop","/v1.0/order",some "/list"⟩ ∧
    Mapping.path trimming "mall" ⟨"shop","/v1.0/user",some "/list"⟩ =
      Mapping.path trimming "mall" ⟨"shop","/v1.0/order",some "/list"⟩ ∧
    Mapping.api trimming ⟨"shop","/v1.0/user",some "/list"⟩ =
      Mapping.api trimming ⟨"shop","/v1.0/order",some "/list"⟩ := by
  have user : mappingText trimming (some "/v1.0/user") = "v1" := by
    rw [mappingText,Option.toList_some,getMappingName_eq]
    decide +kernel
  have order : mappingText trimming (some "/v1.0/order") = "v1" := by
    rw [mappingText,Option.toList_some,getMappingName_eq]
    decide +kernel
  have paths : Mapping.path trimming "mall" ⟨"shop","/v1.0/user",some "/list"⟩ =
      Mapping.path trimming "mall" ⟨"shop","/v1.0/order",some "/list"⟩ := by
    rw [Mapping.path,Mapping.path,user,order]
  refine ⟨fun normal => ?_,fun apart => ?_,paths,?_⟩
  · have fits := (normalises_iff trimming "/v1.0/user").mp normal "/v1".toList "0/user".toList
      (by decide) (by decide)
    revert fits
    decide +kernel
  · exact (apart.2 (by decide +kernel)).1 paths
  · rw [Mapping.api,Mapping.api,user,order]

end YzFramework.Registry.ServiceRegistry
