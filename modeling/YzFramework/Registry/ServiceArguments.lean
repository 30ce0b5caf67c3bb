import YzFramework.Library.Table
import Mathlib.Data.List.Forall2

/-! The arguments that `ServiceObject.invoke` takes from a message. Fastjson is a
parameter with what its getters are documented to do; `none` is an exception. -/
namespace YzFramework.Registry.ServiceArguments
open Library

inductive Kind where
  | byte
  | short
  | int
  | long
  | float
  | double
  | boolean
  | char
  deriving DecidableEq

/-- A class that is no primitive, no box of one and not `java.lang.String`: its name, and the
primitive class its public static field `TYPE` holds, if any. -/
structure Named where
  name : String
  array : Bool := false
  awtList : Bool := false
  TYPE : Option Kind := none
  deriving DecidableEq

inductive Class where
  | primitive (kind : Kind)
  | box (kind : Kind)
  | string
  | named (cls : Named)

/-- A reference; what a box holds is given by its bits. -/
inductive JavaObject where
  | null
  | boxed (kind : Kind) (bits : ℕ)
  | string (text : String)
  | jsonObject (reference : ℕ)
  | jsonArray (reference : ℕ)
  | object (cls : Named) (reference : ℕ)
  deriving DecidableEq

namespace JavaObject

def Structured : JavaObject → Prop
  | .jsonObject _ | .jsonArray _ => True
  | _ => False

end JavaObject

abbrev JSONObject := Table String JavaObject

structure Fastjson where
  parseObject : String → Option (Option JSONObject)
  parseObjectAs : Option String → Named → Option JavaObject
  /-- The typed getters, on the value they find; for `char`, the conversion they lack. -/
  cast : Kind → JavaObject → Option JavaObject
  getString : JavaObject → Option String
  /-- The conversion of a parsed value to a class. -/
  convert : JavaObject → Named → Option JavaObject
  instanceOf : JavaObject → Named → Prop
  /-- Null, or a text that the getters take for it. -/
  Blank : JavaObject → Prop
  cast_null : ∀ kind, cast kind .null = some .null
  cast_kind : ∀ kind value result, cast kind value = some result →
    result = .null ∨ ∃ bits, result = .boxed kind bits
  cast_agree : ∀ kind value, cast kind value = some .null →
    ∀ other bits, cast other value ≠ some (.boxed other bits)
  cast_blank : ∀ kind value, kind ≠ .char → (cast kind value = some .null ↔ Blank value)
  /-- A box is an object, a number, a comparable and a serializable, none of which has a `TYPE`. -/
  instanceOf_boxed : ∀ kind bits cls, instanceOf (.boxed kind bits) cls → cls.TYPE = none
  getString_null : getString .null = none
  parseObjectAs_null : ∀ cls, parseObjectAs none cls = some .null
  parseObjectAs_class : ∀ text cls result, parseObjectAs text cls = some result →
    result = .null ∨ instanceOf result cls
  parseObjectAs_structured : ∀ value cls, value.Structured →
    parseObjectAs (getString value) cls = convert value cls

inductive Primitive where
  | string
  | kind (kind : Kind)
  deriving DecidableEq

namespace Class

def isPrimitive : Class → Bool
  | .primitive _ => true
  | _ => false

def isArray : Class → Bool
  | .named cls => cls.array
  | _ => false

/-- `ReflectUtil.isList`, whose list is the one of `java.awt`. -/
def isList : Class → Bool
  | .named cls => cls.awtList
  | _ => false

def getPrimitive : Class → Option Primitive
  | .primitive kind => some (.kind kind)
  | .box kind => some (.kind kind)
  | .string => some .string
  | .named cls =>
    if ".String".toList <:+ cls.name.toList then some .string else cls.TYPE.map .kind

def isComplexClass (cls : Class) : Bool := !cls.isPrimitive && cls.getPrimitive.isNone

/-- `isComplex`: the class is parsed, and its value not taken by a getter. -/
def isComplex (cls : Class) : Bool := cls.isList || cls.isArray || cls.isComplexClass

end Class

structure ServiceMethodParameter where
  parameterName : String
  parameterClass : Class
  isComplex : Bool
  isPrimitive : Bool
  /-- The one of the nine flags from `isString` to `isShort` that is set. -/
  flag : Option Primitive

def setParameterClass (parameterName : String) (parameterClass : Class) : ServiceMethodParameter :=
  { parameterName
    parameterClass
    isComplex := parameterClass.isComplex
    isPrimitive := if parameterClass.isComplex then false else parameterClass.isPrimitive
    flag := if parameterClass.isComplex then none else parameterClass.getPrimitive }

def getDefaultValue (parameter : ServiceMethodParameter) : JavaObject :=
  match parameter.flag with
  | some (.kind kind) => .boxed kind 0
  | _ => .null

def getter : Kind → Kind
  | .char => .byte
  | kind => kind

variable (fastjson : Fastjson)

def getVal (parameter : ServiceMethodParameter) (jsonObject : JSONObject) : Option JavaObject :=
  match jsonObject.lookup parameter.parameterName with
  | some value =>
    match parameter.flag with
    | some .string => some value
    | some (.kind kind) => fastjson.cast (getter kind) value
    | none => some value
  | none => some (if parameter.isPrimitive then getDefaultValue parameter else .null)

/-- Only named classes are complex. -/
def parse (text : Option String) : Class → Option JavaObject
  | .named cls => fastjson.parseObjectAs text cls
  | _ => none

def argument (jsonObject : JSONObject) (parameter : ServiceMethodParameter) : Option JavaObject :=
  if parameter.isComplex then
    parse fastjson (fastjson.getString ((jsonObject.lookup parameter.parameterName).getD .null))
      parameter.parameterClass
  else getVal fastjson parameter jsonObject

/-- The array that `invoke` passes to the method. A single complex parameter is parsed
from the message, and not from a member of it. -/
def arguments (parameters : List ServiceMethodParameter) (jsonMessage : String) : Option (List JavaObject) :=
  match parameters with
  | [] => some []
  | [parameter] =>
    if parameter.isComplex then (parse fastjson (some jsonMessage) parameter.parameterClass).map ([·])
    else (fastjson.parseObject jsonMessage).bind fun jsonObject => jsonObject.bind fun jsonObject =>
      (getVal fastjson parameter jsonObject).map ([·])
  | parameters =>
    (fastjson.parseObject jsonMessage).bind fun jsonObject => jsonObject.bind fun jsonObject =>
      parameters.mapM (argument fastjson jsonObject)

/-- Widening conversions between the primitive types, as `Method.invoke` makes them. -/
def widens : Kind → Kind → Bool
  | .byte, kind => kind != .boolean && kind != .char
  | .short, kind => kind != .boolean && kind != .char && kind != .byte
  | .char, kind => kind != .boolean && kind != .byte && kind != .short
  | .int, kind => kind == .int || kind == .long || kind == .float || kind == .double
  | .long, kind => kind == .long || kind == .float || kind == .double
  | .float, kind => kind == .float || kind == .double
  | .double, kind => kind == .double
  | .boolean, kind => kind == .boolean

def Assignable : Class → JavaObject → Prop
  | .primitive kind, .boxed other _ => widens other kind = true
  | .primitive _, _ => False
  | .named _, .null => True
  | .named cls, value => fastjson.instanceOf value cls
  | _, .null => True
  | .box kind, .boxed other _ => other = kind
  | .string, .string _ => True
  | _, _ => False

def Convertible : Class → JavaObject → Prop
  | .primitive kind, value => ∃ bits, fastjson.cast kind value = some (.boxed kind bits)
  | .box kind, value => ∃ bits, fastjson.cast kind value = some (.boxed kind bits)
  | .string, value => (fastjson.getString value).isSome
  | .named cls, value => ∃ result, fastjson.convert value cls = some result ∧ fastjson.instanceOf result cls

/-- When the value given for a parameter, if any, becomes an argument of its class: no null
for a primitive, a JSON string for a string, nothing for a character; for a class that
is parsed, an object, an array or a text that can be parsed; for another one that counts
as a string, an instance; for one that counts as a primitive, nothing but null. -/
def Fits : Class → Option JavaObject → Prop
  | _, none => True
  | .primitive _, some .null => False
  | _, some .null => True
  | .primitive kind, some _ => kind ≠ .char
  | .box kind, some _ => kind ≠ .char
  | .string, some value => ∃ text, value = .string text
  | .named cls, some value =>
    if (Class.named cls).isComplex then
      value.Structured ∨ (fastjson.parseObjectAs (fastjson.getString value) cls).isSome
    else match Class.getPrimitive (.named cls) with
      | some (.kind _) => fastjson.Blank value
      | _ => fastjson.instanceOf value cls

def Fitting (parameters : List (String × Class)) (jsonMessage : String) (members : JSONObject) : Prop :=
  match parameters with
  | [(name,cls)] =>
    if cls.isComplex then (parse fastjson (some jsonMessage) cls).isSome = true
    else Fits fastjson cls (members.lookup name)
  | parameters => ∀ parameter ∈ parameters, Fits fastjson parameter.2 (members.lookup parameter.1)

/-- `invoke` has an argument for every parameter, of the parameter's class. -/
def Typed (parameters : List (String × Class)) (jsonMessage : String) : Prop :=
  ∃ args, arguments fastjson (parameters.map fun parameter => setParameterClass parameter.1 parameter.2)
      jsonMessage = some args ∧
    List.Forall₂ (fun parameter => Assignable fastjson parameter.2) parameters args

theorem parse_assignable {text : Option String} {cls : Class} {result : JavaObject}
    (parsed : parse fastjson text cls = some result) : Assignable fastjson cls result := by
  cases cls with
  | named cls =>
    rcases fastjson.parseObjectAs_class text cls result parsed with rfl | instanceOf
    · trivial
    · cases result with
      | null => trivial
      | boxed kind bits => exact instanceOf
      | string text => exact instanceOf
      | jsonObject reference => exact instanceOf
      | jsonArray reference => exact instanceOf
      | object cls reference => exact instanceOf
  | primitive kind => cases parsed
  | box kind => cases parsed
  | string => cases parsed

private theorem assignable_named {cls : Named} {value : JavaObject} :
    Assignable fastjson (.named cls) value ↔ value = .null ∨ fastjson.instanceOf value cls := by
  cases value <;> simp [Assignable]

theorem argument_complex {name : String} {cls : Named} {members : JSONObject}
    (complex : (Class.named cls).isComplex = true)
    (given : ∀ value, members.lookup name = some value → value ≠ .null →
      Convertible fastjson (.named cls) value) :
    (∃ result, argument fastjson members (setParameterClass name (.named cls)) = some result ∧
      Assignable fastjson (.named cls) result) ↔ Fits fastjson (.named cls) (members.lookup name) := by
  have parses : (∃ result, argument fastjson members (setParameterClass name (.named cls)) = some result ∧
      Assignable fastjson (.named cls) result) ↔
      (fastjson.parseObjectAs (fastjson.getString ((members.lookup name).getD .null)) cls).isSome = true := by
    rw [argument,setParameterClass,if_pos complex]
    constructor
    · rintro ⟨result,parsed,_⟩
      exact Option.isSome_of_eq_some parsed
    · intro some
      obtain ⟨result,parsed⟩ := Option.isSome_iff_exists.mp some
      refine ⟨result,parsed,(assignable_named fastjson).mpr ?_⟩
      exact fastjson.parseObjectAs_class _ cls result parsed
  have nothing : (fastjson.parseObjectAs (fastjson.getString .null) cls).isSome = true := by
    rw [fastjson.getString_null,fastjson.parseObjectAs_null]
    rfl
  rw [parses]
  cases held : members.lookup name with
  | none => exact iff_of_true nothing trivial
  | some value =>
    by_cases null : value = .null
    · subst null
      exact iff_of_true nothing trivial
    · have fits : Fits fastjson (.named cls) (some value) ↔
          value.Structured ∨ (fastjson.parseObjectAs (fastjson.getString value) cls).isSome = true := by
        cases value <;> first | exact absurd rfl null | simp only [Fits,if_pos complex]
      rw [fits,Option.getD_some]
      refine ⟨.inr,fun either => either.elim (fun structured => ?_) id⟩
      obtain ⟨result,converted,_⟩ := given value held null
      rw [fastjson.parseObjectAs_structured value cls structured,converted]
      rfl

theorem argument_getVal {name : String} {cls : Class} (members : JSONObject) (simple : cls.isComplex = false) :
    argument fastjson members (setParameterClass name cls) = getVal fastjson (setParameterClass name cls) members := by
  rw [argument,setParameterClass,simple]
  rfl

theorem getter_self {kind : Kind} (other : kind ≠ .char) : getter kind = kind := by
  cases kind <;> first | rfl | exact absurd rfl other

theorem getter_apart (kind : Kind) : getter kind ≠ .char := by
  cases kind <;> exact nofun

/-- A primitive class comes from a field, and then no box is an instance. -/
theorem getPrimitive_kind {cls : Named} {kind : Kind} (counts : Class.getPrimitive (.named cls) = some (.kind kind))
    (other : Kind) (bits : ℕ) : ¬fastjson.instanceOf (.boxed other bits) cls := by
  intro boxed
  have untyped : cls.TYPE = none := fastjson.instanceOf_boxed other bits cls boxed
  rw [Class.getPrimitive,untyped] at counts
  split at counts <;> cases counts

private theorem cast_byte {value result : JavaObject} {bits : ℕ}
    (converts : fastjson.cast .char value = some (.boxed .char bits))
    (read : fastjson.cast .byte value = some result) : ∃ bits, result = .boxed .byte bits := by
  rcases fastjson.cast_kind _ _ _ read with rfl | boxed
  · exact absurd converts (fastjson.cast_agree .byte value read .char bits)
  · exact boxed

/-- Of the values that can be converted to a kind, the getter takes those of all kinds but
characters, which come out as bytes. -/
theorem cast_getter {kind : Kind} {value : JavaObject} {bits : ℕ} {relation : JavaObject → Prop}
    (converts : fastjson.cast kind value = some (.boxed kind bits)) (own : ∀ bits, relation (.boxed kind bits))
    (apart : kind = .char → ∀ bits, ¬relation (.boxed .byte bits)) :
    (∃ result, fastjson.cast (getter kind) value = some result ∧ relation result) ↔ kind ≠ .char := by
  constructor
  · rintro ⟨result,taken,related⟩ rfl
    obtain ⟨byte,rfl⟩ := cast_byte fastjson converts taken
    exact apart rfl byte related
  · intro other
    rw [getter_self other]
    exact ⟨_,converts,own bits⟩

theorem getVal_kind {name : String} {cls : Class} {kind : Kind} {members : JSONObject} {value : JavaObject}
    (simple : cls.isComplex = false) (counts : cls.getPrimitive = some (.kind kind))
    (held : members.lookup name = some value) :
    getVal fastjson (setParameterClass name cls) members = fastjson.cast (getter kind) value := by
  simp only [getVal,setParameterClass,held,simple,counts]
  rfl

theorem argument_primitive {name : String} {kind : Kind} {members : JSONObject}
    (given : ∀ value, members.lookup name = some value → value ≠ .null →
      Convertible fastjson (.primitive kind) value) :
    (∃ result, getVal fastjson (setParameterClass name (.primitive kind)) members = some result ∧
      Assignable fastjson (.primitive kind) result) ↔ Fits fastjson (.primitive kind) (members.lookup name) := by
  have same : widens kind kind = true := by cases kind <;> rfl
  cases held : members.lookup name with
  | none =>
    refine iff_of_true ⟨.boxed kind 0,?_,same⟩ trivial
    simp only [getVal,setParameterClass,held]
    rfl
  | some value =>
    rw [getVal_kind fastjson rfl rfl held]
    by_cases null : value = .null
    · subst null
      refine iff_of_false ?_ id
      rintro ⟨result,taken,assignable⟩
      rw [fastjson.cast_null,Option.some.injEq] at taken
      subst taken
      exact assignable
    · obtain ⟨bits,converts⟩ := given value held null
      have fits : Fits fastjson (.primitive kind) (some value) ↔ kind ≠ .char := by
        cases value <;> first | exact absurd rfl null | rfl
      rw [fits]
      refine cast_getter fastjson converts (fun _ => same) ?_
      rintro rfl byte widened
      cases widened

theorem argument_box {name : String} {kind : Kind} {members : JSONObject}
    (given : ∀ value, members.lookup name = some value → value ≠ .null →
      Convertible fastjson (.box kind) value) :
    (∃ result, getVal fastjson (setParameterClass name (.box kind)) members = some result ∧
      Assignable fastjson (.box kind) result) ↔ Fits fastjson (.box kind) (members.lookup name) := by
  cases held : members.lookup name with
  | none =>
    refine iff_of_true ⟨.null,?_,trivial⟩ trivial
    simp only [getVal,setParameterClass,held]
    rfl
  | some value =>
    rw [getVal_kind fastjson rfl rfl held]
    by_cases null : value = .null
    · subst null
      exact iff_of_true ⟨.null,fastjson.cast_null _,trivial⟩ trivial
    · obtain ⟨bits,converts⟩ := given value held null
      have fits : Fits fastjson (.box kind) (some value) ↔ kind ≠ .char := by
        cases value <;> first | exact absurd rfl null | rfl
      rw [fits]
      refine cast_getter fastjson converts (fun _ => rfl) ?_
      rintro rfl byte same
      cases same

theorem argument_string {name : String} {members : JSONObject} :
    (∃ result, getVal fastjson (setParameterClass name .string) members = some result ∧
      Assignable fastjson .string result) ↔ Fits fastjson .string (members.lookup name) := by
  have read : getVal fastjson (setParameterClass name .string) members =
      some ((members.lookup name).getD .null) := by
    simp only [getVal,setParameterClass]
    cases members.lookup name <;> rfl
  rw [read]
  cases members.lookup name with
  | none => exact iff_of_true ⟨.null,rfl,trivial⟩ trivial
  | some value => cases value <;> simp [Assignable,Fits]

theorem argument_named {name : String} {cls : Named} {members : JSONObject}
    (simple : (Class.named cls).isComplex = false) :
    (∃ result, getVal fastjson (setParameterClass name (.named cls)) members = some result ∧
      Assignable fastjson (.named cls) result) ↔ Fits fastjson (.named cls) (members.lookup name) := by
  have counts : (Class.getPrimitive (.named cls)).isSome = true := by
    simp only [Class.isComplex,Class.isComplexClass,Bool.or_eq_false_iff] at simple
    simpa [Class.isPrimitive] using simple.2
  obtain ⟨primitive,counts⟩ := Option.isSome_iff_exists.mp counts
  cases held : members.lookup name with
  | none =>
    refine iff_of_true ⟨.null,?_,trivial⟩ trivial
    simp only [getVal,setParameterClass,held,simple]
    rfl
  | some value =>
    cases primitive with
    | string =>
      have fits : Fits fastjson (.named cls) (some value) ↔ value = .null ∨ fastjson.instanceOf value cls := by
        cases value <;> simp [Fits,simple,counts]
      have read : getVal fastjson (setParameterClass name (.named cls)) members = some value := by
        simp only [getVal,setParameterClass,held,simple,counts]
        rfl
      rw [fits,read]
      simp only [Option.some.injEq,exists_eq_left']
      exact assignable_named fastjson
    | kind kind =>
      have fits : Fits fastjson (.named cls) (some value) ↔ value = .null ∨ fastjson.Blank value := by
        cases value <;> simp [Fits,simple,counts]
      have blank : fastjson.cast (getter kind) value = some .null ↔ fastjson.Blank value :=
        fastjson.cast_blank _ value (getter_apart kind)
      rw [fits,getVal_kind fastjson simple counts held]
      constructor
      · rintro ⟨result,taken,assignable⟩
        rcases fastjson.cast_kind _ _ _ taken with rfl | ⟨bits,rfl⟩
        · exact .inr (blank.mp taken)
        · exact absurd assignable (getPrimitive_kind fastjson counts _ bits)
      · rintro (rfl | read)
        · exact ⟨.null,fastjson.cast_null _,trivial⟩
        · exact ⟨.null,blank.mpr read,trivial⟩

theorem argument_fits {name : String} {cls : Class} {members : JSONObject}
    (given : ∀ value, members.lookup name = some value → value ≠ .null → Convertible fastjson cls value) :
    (∃ result, argument fastjson members (setParameterClass name cls) = some result ∧
      Assignable fastjson cls result) ↔ Fits fastjson cls (members.lookup name) := by
  cases cls with
  | primitive kind =>
    rw [argument_getVal fastjson members rfl]
    exact argument_primitive fastjson given
  | box kind =>
    rw [argument_getVal fastjson members rfl]
    exact argument_box fastjson given
  | string =>
    rw [argument_getVal fastjson members rfl]
    exact argument_string fastjson
  | named cls =>
    cases complex : (Class.named cls).isComplex with
    | false =>
      rw [argument_getVal fastjson members complex]
      exact argument_named fastjson complex
    | true => exact argument_complex fastjson complex given

private theorem mapM_forall₂ {α β γ : Type} (f : α → Option β) (parameter : γ → α) (relation : γ → β → Prop)
    (items : List γ) :
    (∃ results, (items.map parameter).mapM f = some results ∧ List.Forall₂ relation items results) ↔
      ∀ item ∈ items, ∃ result, f (parameter item) = some result ∧ relation item result := by
  induction items with
  | nil => simp
  | cons item rest ih =>
    rw [List.forall_mem_cons,← ih,List.map_cons,List.mapM_cons]
    simp only [Option.bind_eq_bind,Option.bind_eq_some_iff,Option.pure_def,Option.some.injEq]
    constructor
    · rintro ⟨_,⟨first,found,later,others,rfl⟩,related⟩
      rw [List.forall₂_cons] at related
      exact ⟨⟨first,found,related.1⟩,later,others,related.2⟩
    · rintro ⟨⟨first,found,related⟩,later,others,relations⟩
      exact ⟨first :: later,⟨first,found,later,others,rfl⟩,.cons related relations⟩

def Given (parameters : List (String × Class)) (members : JSONObject) : Prop :=
  ∀ parameter ∈ parameters, ∀ value, members.lookup parameter.1 = some value → value ≠ .null →
    Convertible fastjson parameter.2 value

theorem map_forall₂ {β γ : Type} (result : Option β) (relation : γ → β → Prop) (item : γ) :
    (∃ results, result.map ([·]) = some results ∧ List.Forall₂ relation [item] results) ↔
      ∃ value, result = some value ∧ relation item value := by
  cases result with
  | none => simp
  | some value => simp

private theorem typed_complex {name : String} {cls : Class} {jsonMessage : String} {members : JSONObject}
    (complex : cls.isComplex = true) :
    Typed fastjson [(name,cls)] jsonMessage ↔ Fitting fastjson [(name,cls)] jsonMessage members := by
  have parsed : arguments fastjson [setParameterClass name cls] jsonMessage =
      (parse fastjson (some jsonMessage) cls).map ([·]) := by
    rw [arguments,setParameterClass,if_pos complex]
  rw [Typed,List.map_singleton,parsed,map_forall₂,Fitting,if_pos complex,Option.isSome_iff_exists]
  refine exists_congr fun result => and_iff_left_of_imp ?_
  exact parse_assignable fastjson

private theorem typed_simple {name : String} {cls : Class} {jsonMessage : String} {members : JSONObject}
    (simple : cls.isComplex = false)
    (object : fastjson.parseObject jsonMessage = some (some members))
    (given : Given fastjson [(name,cls)] members) :
    Typed fastjson [(name,cls)] jsonMessage ↔ Fitting fastjson [(name,cls)] jsonMessage members := by
  have taken : arguments fastjson [setParameterClass name cls] jsonMessage =
      (argument fastjson members (setParameterClass name cls)).map ([·]) := by
    rw [argument_getVal fastjson members simple]
    simp only [arguments,object,setParameterClass,simple]
    rfl
  rw [Typed,List.map_singleton,taken,map_forall₂,Fitting,simple]
  exact argument_fits fastjson (given _ List.mem_cons_self)

/-- The arguments of a message have the types of the parameters exactly when its values fit. -/
theorem typed_iff (parameters : List (String × Class)) (jsonMessage : String) (members : JSONObject)
    (object : fastjson.parseObject jsonMessage = some (some members))
    (given : Given fastjson parameters members) :
    Typed fastjson parameters jsonMessage ↔ Fitting fastjson parameters jsonMessage members := by
  match parameters with
  | [] => exact iff_of_true ⟨[],rfl,.nil⟩ nofun
  | [(name,cls)] =>
    cases complex : cls.isComplex with
    | false => exact typed_simple fastjson complex object given
    | true => exact typed_complex fastjson complex
  | first :: second :: rest =>
    have several : arguments fastjson ((first :: second :: rest).map fun parameter =>
        setParameterClass parameter.1 parameter.2) jsonMessage =
        ((first :: second :: rest).map fun parameter => setParameterClass parameter.1 parameter.2).mapM
          (argument fastjson members) := by
      simp only [arguments,List.map_cons,object]
      rfl
    rw [Typed,several,mapM_forall₂]
    apply forall₂_congr
    intro parameter member
    exact argument_fits fastjson (given parameter member)

def sampleCast : Kind → JavaObject → Option JavaObject
  | _, .null => some .null
  | .char, .string text => match text.toList with
    | [c] => some (.boxed .char c.toNat)
    | _ => none
  | .byte, .boxed .int bits => if bits < 128 then some (.boxed .byte bits) else none
  | .int, .boxed .int bits => some (.boxed .int bits)
  | .byte, .string text => match text.toList with
    | [c] => if c.isDigit then some (.boxed .byte (c.toNat - 48)) else none
    | _ => none
  | .int, .string text => match text.toList with
    | [c] => if c.isDigit then some (.boxed .int (c.toNat - 48)) else none
    | _ => none
  | _, _ => none

theorem sampleCast_kind {kind : Kind} {value result : JavaObject} (taken : sampleCast kind value = some result) :
    (value = .null ∧ result = .null) ∨ ∃ bits, result = .boxed kind bits := by
  unfold sampleCast at taken
  split at taken <;> grind

def sampleString : JavaObject → Option String
  | .null => none
  | .string text => some text
  | .boxed _ bits => some (toString bits)
  | _ => some ""

def sample (message : String) (members : JSONObject) : Fastjson where
  parseObject text := if text = message then some (some members) else none
  parseObjectAs text _ := if text.isNone then some .null else none
  cast := sampleCast
  getString := sampleString
  convert _ _ := none
  instanceOf value cls := ∃ reference, value = .object cls reference
  Blank value := value = .null
  cast_null kind := by cases kind <;> rfl
  cast_kind kind value result taken := (sampleCast_kind taken).imp And.right id
  cast_agree kind value taken other bits := by
    rcases sampleCast_kind taken with ⟨rfl,_⟩ | ⟨_,boxed⟩
    · cases other <;> nofun
    · cases boxed
  cast_blank kind value _ := by
    constructor
    · intro taken
      rcases sampleCast_kind taken with ⟨null,_⟩ | ⟨_,boxed⟩
      · exact null
      · cases boxed
    · rintro rfl
      cases kind <;> rfl
  instanceOf_boxed kind bits cls boxed := by
    obtain ⟨reference,same⟩ := boxed
    cases same
  getString_null := rfl
  parseObjectAs_null _ := rfl
  parseObjectAs_class text cls result parsed := by
    split at parsed
    · exact .inl (Option.some.inj parsed).symm
    · cases parsed
  parseObjectAs_structured value cls structured := by
    cases value with
    | jsonObject reference => rfl
    | jsonArray reference => rfl
    | null => cases structured
    | boxed kind bits => cases structured
    | string text => cases structured
    | object cls reference => cases structured

def fittingMessage : String := "\x7b\"count\":7,\"mark\":null,\"name\":\"seven\"\x7d"

def fittingMembers : JSONObject :=
  AList.insert "count" (.boxed .int 7) (AList.insert "mark" .null (AList.insert "name" (.string "seven") ∅))

def fittingParameters : List (String × Class) :=
  [("count",.primitive .int),("mark",.box .char),("name",.string),("body",.named { name := "com.example.Body" })]

theorem typed_iff_sample : Typed (sample fittingMessage fittingMembers) fittingParameters fittingMessage := by
  have given : Given (sample fittingMessage fittingMembers) fittingParameters fittingMembers := by
    intro parameter member value held other
    simp only [fittingParameters,List.mem_cons,List.not_mem_nil,or_false] at member
    rcases member with rfl | rfl | rfl | rfl
    · cases held
      exact ⟨7,rfl⟩
    · cases held
      exact absurd rfl other
    · cases held
      rfl
    · cases held
  apply (typed_iff _ fittingParameters fittingMessage fittingMembers rfl given).mpr
  intro parameter member
  simp only [List.mem_cons,List.not_mem_nil,or_false] at member
  rcases member with rfl | rfl | rfl | rfl
  · exact (nofun : Kind.int ≠ .char)
  · trivial
  · exact ⟨"seven",rfl⟩
  · trivial

def unfittingMessage : String := "\x7b\"count\":null,\"mark\":\"5\",\"name\":7\x7d"

def unfittingMembers : JSONObject :=
  AList.insert "count" .null (AList.insert "mark" (.string "5") (AList.insert "name" (.boxed .int 7) ∅))

theorem typed_argument {parameter : String × Class} {jsonMessage : String} {result : JavaObject}
    (taken : arguments fastjson [setParameterClass parameter.1 parameter.2] jsonMessage = some [result])
    (typed : Typed fastjson [parameter] jsonMessage) : Assignable fastjson parameter.2 result := by
  obtain ⟨args,built,assignable⟩ := typed
  rw [List.map_singleton,taken,Option.some.injEq] at built
  subst built
  exact (List.forall₂_cons.mp assignable).1

theorem not_typed :
    let fastjson := sample unfittingMessage unfittingMembers
    let parameters := [("count",.primitive .int),("mark",.primitive .char),("name",.string)]
    fastjson.parseObject unfittingMessage = some (some unfittingMembers) ∧
    Given fastjson parameters unfittingMembers ∧
    ¬Typed fastjson [("count",.primitive .int)] unfittingMessage ∧
    ¬Typed fastjson [("mark",.primitive .char)] unfittingMessage ∧
    ¬Typed fastjson [("name",.string)] unfittingMessage := by
  intro fastjson parameters
  refine ⟨rfl,?_,fun typed => ?_,fun typed => ?_,fun typed => ?_⟩
  · intro parameter member value held other
    simp only [parameters,List.mem_cons,List.not_mem_nil,or_false] at member
    rcases member with rfl | rfl | rfl
    · cases held
      exact absurd rfl other
    · cases held
      exact ⟨53,rfl⟩
    · cases held
      rfl
  · exact typed_argument fastjson rfl typed
  · have widened := typed_argument fastjson rfl typed
    cases widened
  · exact typed_argument fastjson rfl typed

end YzFramework.Registry.ServiceArguments
