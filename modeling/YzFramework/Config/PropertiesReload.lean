import YzFramework.Config.LocalProperties
import YzFramework.Library.Run

/-! `PropertiesRegistry`: the properties of one node's text, loaded into `ALL_PROPERTIES`
at the start and whenever a watcher is called. -/
namespace YzFramework.Config
open Library Library.Properties Library.Run

/-- The watched node, which may be missing or have no data, and the properties.
`last` is bookkeeping: the properties of the node when it was last read. -/
structure PropertiesRegistry where
  node : Option (Option Text)
  ALL_PROPERTIES : Table Text Text
  last : Table Text Text := ∅

namespace PropertiesRegistry

def mergeProperties (properties all : Table Text Text) : Table Text Text :=
  Table.putAll all properties.pairs

/-- None where it throws: `StringReader` refuses a null string. -/
def loadPropertiesForPath (node : Option (Option Text)) : Option (Table Text Text) :=
  match node with
  | none => some ∅
  | some none => none
  | some (some propertieString) => loadPropertiesFromString propertieString

/-- The properties that a node's text has; without a text there are none of them, and a
text that `load` refuses has no properties at all. -/
def current : Option (Option Text) → Option (Table Text Text)
  | some (some text) => load text
  | _ => some ∅

def doLoadProperties (registry : PropertiesRegistry) : PropertiesRegistry :=
  {registry with
    ALL_PROPERTIES :=
      match loadPropertiesForPath registry.node with
      | none => registry.ALL_PROPERTIES
      | some properties => Table.putAll registry.ALL_PROPERTIES properties.pairs
    last := (current registry.node).getD registry.last}

inductive Event
  | write (node : Option (Option Text))
  | process

def step (registry : PropertiesRegistry) : Event → PropertiesRegistry
  | .write node => {registry with node}
  | .process => doLoadProperties registry

def start (locals : Table Text Text) (node : Option (Option Text)) : PropertiesRegistry :=
  doLoadProperties {node,ALL_PROPERTIES := mergeProperties locals ∅}

variable (locals : Table Text Text)

def Overridden (properties all : Table Text Text) : Prop :=
  ∀ key, all.lookup key = (properties.lookup key).or (locals.lookup key)

def Reloaded (registry : PropertiesRegistry) : Event → Prop
  | .write _ => True
  | .process => ∃ properties, current registry.node = some properties ∧
      Overridden locals properties (step registry .process).ALL_PROPERTIES

/-- The text can be read, and a key of the text read before that it no longer has had
its local value there. -/
def Keeps (registry : PropertiesRegistry) : Event → Prop
  | .write _ => True
  | .process => ∃ properties, current registry.node = some properties ∧
      ∀ key value, registry.last.lookup key = some value → properties.lookup key = none →
        locals.lookup key = some value

theorem doLoadProperties_lookup (registry : PropertiesRegistry) {properties : Table Text Text}
    (readable : current registry.node = some properties) (key : Text) :
    (doLoadProperties registry).ALL_PROPERTIES.lookup key =
      (properties.lookup key).or (registry.ALL_PROPERTIES.lookup key) := by
  obtain ⟨node,all,last⟩ := registry
  match node,readable with
  | none,readable =>
    rw [← Option.some.inj readable]
    rfl
  | some none,readable =>
    rw [← Option.some.inj readable]
    rfl
  | some (some text),readable =>
    have loads : loadPropertiesForPath (some (some text)) = some (Table.putAll ∅ properties.pairs) :=
      congrArg (Option.map _) readable
    rw [doLoadProperties,loads]
    change (Table.putAll all (Table.putAll ∅ properties.pairs).pairs).lookup key = _
    rw [Table.lookup_putAll_table,Table.lookup_putAll_pairs]

theorem doLoadProperties_unreadable (registry : PropertiesRegistry)
    (refused : current registry.node = none) : doLoadProperties registry = registry := by
  obtain ⟨node,all,last⟩ := registry
  match node,refused with
  | some (some text),refused =>
    have throws : loadPropertiesForPath (some (some text)) = none := congrArg (Option.map _) refused
    rw [doLoadProperties,throws,refused]
    rfl

theorem doLoadProperties_last (registry : PropertiesRegistry) {properties : Table Text Text}
    (readable : current registry.node = some properties) :
    (doLoadProperties registry).last = properties := by
  rw [doLoadProperties,readable]
  rfl

private theorem overridden_start (node : Option (Option Text)) :
    Overridden locals (start locals node).last (start locals node).ALL_PROPERTIES := by
  intro key
  have merged : (mergeProperties locals ∅).lookup key = locals.lookup key :=
    Table.lookup_putAll_pairs locals key
  cases readable : current node with
  | none =>
    rw [start,doLoadProperties_unreadable _ readable]
    exact merged
  | some properties =>
    rw [start,doLoadProperties_lookup _ readable,doLoadProperties_last _ readable,merged]

/-- Given the properties of the last text over the local ones, reloading gives those of
the current text exactly if no stale key is left. -/
theorem reloaded_iff (registry : PropertiesRegistry) (event : Event)
    (before : Overridden locals registry.last registry.ALL_PROPERTIES) :
    Reloaded locals registry event ↔ Keeps locals registry event := by
  cases event with
  | write node => exact Iff.rfl
  | process =>
    refine exists_congr fun properties => and_congr_right fun readable => ?_
    have lookup := doLoadProperties_lookup registry readable
    constructor
    · intro overridden key value stale dropped
      have held := overridden key
      rw [step,lookup,dropped,Option.none_or,Option.none_or,before,stale,Option.some_or] at held
      exact held.symm
    · intro keeps key
      rw [step,lookup]
      cases inside : properties.lookup key with
      | some value => rfl
      | none =>
        rw [Option.none_or,Option.none_or,before]
        cases stale : registry.last.lookup key with
        | none => rfl
        | some value => exact (keeps key value stale inside).symm

private theorem overridden_step (registry : PropertiesRegistry) (event : Event)
    (before : Overridden locals registry.last registry.ALL_PROPERTIES)
    (keeps : Keeps locals registry event) :
    Overridden locals (step registry event).last (step registry event).ALL_PROPERTIES := by
  cases event with
  | write node => exact before
  | process =>
    obtain ⟨properties,readable,overridden⟩ := (reloaded_iff locals registry .process before).mpr keeps
    rw [step,doLoadProperties_last registry readable]
    exact overridden

/-- Every reload of a run leaves the current properties over the local ones if and only
if each text can be read and drops no key but those that had their local value. -/
theorem reload_current_iff (node : Option (Option Text)) (events : List Event) :
    Along step (Reloaded locals) (start locals node) events ↔
      Along step (Keeps locals) (start locals node) events :=
  along_iff (reloaded_iff locals) (overridden_step locals) _ _ (overridden_start locals node)

theorem dropped_key_stays :
    ¬ Along step (Reloaded ((∅ : Table Text Text).insert (units "a") (units "0")))
      (start ((∅ : Table Text Text).insert (units "a") (units "0")) (some (some (units "a=1"))))
      [.write (some (some [])),.process] := by
  rintro ⟨-,⟨properties,readable,overridden⟩,-⟩
  have held := overridden (units "a")
  have empty : properties.lookup (units "a") = none := by
    have none : (current (some (some []))).bind (fun loaded => loaded.lookup (units "a")) = none := by
      decide +kernel
    rwa [show current (some (some [])) = some properties from readable] at none
  rw [empty,Option.none_or] at held
  exact absurd held (by decide +kernel)

end PropertiesRegistry
end YzFramework.Config
