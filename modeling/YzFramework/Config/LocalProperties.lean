import YzFramework.Library.Properties

/-! The text of `local.properties`, in which both registries persist their properties,
and what `java.util.Properties` reads from it. -/
namespace YzFramework.Config
open Library Library.Properties

def notAfter : Text → Text → Bool
  | [],_ => true
  | _::_,[] => false
  | u::rest,v::others => if u = v then notAfter rest others else u < v

/-- The loop of `writeToLocalFile`. A null value would be appended as text. -/
def persisted (properties : Table Text Text) : Text :=
  (properties.keys.mergeSort notAfter).flatMap fun key =>
    key++units "="++(properties.lookup key).getD (units "null")++units "\n"

def PropertyRegistry.writeToLocalFile (properties : Table Text Text) : Text := persisted properties

namespace PropertiesRegistry

def writeToLocalFile (properties : Table Text Text) : Text := persisted properties

def loadPropertiesFromString (propertieString : Text) : Option (Table Text Text) :=
  (load propertieString).map fun properties => Table.putAll ∅ properties.pairs

end PropertiesRegistry

namespace LocalProperties

/-- Reading what was written gives a map with the same entries. -/
def RoundTrip (read : Text → Option (Table Text Text)) (write : Table Text Text → Text)
    (properties : Table Text Text) : Prop :=
  ∃ loaded, read (write properties) = some loaded ∧
    ∀ key, loaded.lookup key = properties.lookup key

/-- No key and no value has a backslash or a line end in it, no key a separator or a
blank; no key starts like a comment, no value with a blank. -/
def Plain (properties : Table Text Text) : Prop :=
  ∀ key value, properties.lookup key = some value → PlainKey key ∧ PlainValue value

def sortedPairs (properties : Table Text Text) : List (Text × Text) :=
  (properties.keys.mergeSort notAfter).map fun key =>
    (key,(properties.lookup key).getD (units "null"))

theorem persisted_eq (properties : Table Text Text) :
    persisted properties = (sortedPairs properties).flatMap fun pair => line pair++[unit '\n'] := by
  rw [sortedPairs,List.flatMap_map]
  simp [persisted,line,units]

theorem sortedPairs_perm (properties : Table Text Text) :
    (sortedPairs properties).Perm properties.pairs := by
  rw [properties.pairs_eq (units "null")]
  exact (List.mergeSort_perm _ _).map _

theorem sortedPairs_plain (properties : Table Text Text) :
    Plain properties ↔ ∀ pair ∈ sortedPairs properties, PlainKey pair.1 ∧ PlainValue pair.2 := by
  rw [Plain,properties.forall_pairs]
  refine forall_congr' fun pair => imp_congr_left ?_
  exact (sortedPairs_perm properties).mem_iff.symm

private theorem roundTrip_persisted_iff (properties : Table Text Text) :
    RoundTrip load persisted properties ↔ Plain properties := by
  rw [RoundTrip,persisted_eq,sortedPairs_plain]
  constructor
  · rintro ⟨loaded,read,same⟩
    obtain ⟨pairs,found,rfl⟩ := Option.map_eq_some_iff.mp read
    have distinct : (sortedPairs properties).Nodup :=
      (sortedPairs_perm properties).nodup_iff.mpr properties.pairs_nodup
    refine plain_of_read distinct (fun pair member => ?_) found
    have held := (sortedPairs_perm properties).mem_iff.mp member
    have value := (properties.mem_pairs pair.1 pair.2).mp held
    rw [← same] at value
    by_cases inside : ∃ other ∈ pairs, other.1 = pair.1
    · obtain ⟨other,listed,key,last⟩ := Table.lookup_putAll_inside ∅ pairs pair.1 inside
      rw [last] at value
      have equal : other = pair := Prod.ext key (Option.some.inj value)
      exact equal ▸ listed
    · rw [Table.lookup_putAll_outside ∅ pairs pair.1 fun other listed key =>
        inside ⟨other,listed,key⟩] at value
      cases value
  · intro plain
    refine ⟨_,congrArg (Option.map (Table.putAll ∅)) (load_lines plain),fun key => ?_⟩
    exact properties.lookup_putAll_same (fun _ => (sortedPairs_perm properties).mem_iff) key

/-- The round trip succeeds for exactly the maps whose keys and values are plain. -/
theorem localProperties_read_iff (properties : Table Text Text) :
    (RoundTrip load PropertyRegistry.writeToLocalFile properties ↔ Plain properties) ∧
    (RoundTrip load PropertiesRegistry.writeToLocalFile properties ↔ Plain properties) ∧
    (RoundTrip PropertiesRegistry.loadPropertiesFromString PropertiesRegistry.writeToLocalFile properties ↔
      Plain properties) := by
  have main := roundTrip_persisted_iff properties
  refine ⟨main,main,Iff.trans ?_ main⟩
  constructor
  · rintro ⟨copy,read,same⟩
    obtain ⟨loaded,found,rfl⟩ := Option.map_eq_some_iff.mp read
    exact ⟨loaded,found,fun key => (loaded.lookup_putAll_pairs key).symm.trans (same key)⟩
  · rintro ⟨loaded,found,same⟩
    exact ⟨_,congrArg (Option.map _) found,fun key => (loaded.lookup_putAll_pairs key).trans (same key)⟩

/-- The backslash of a Windows path is read as an escape, here of a tab. -/
theorem windows_path_lost :
    ¬ RoundTrip load PropertyRegistry.writeToLocalFile
        ((∅ : Table Text Text).insert (units "path") (units "C:\\temp")) ∧
    ¬ RoundTrip load PropertiesRegistry.writeToLocalFile
        ((∅ : Table Text Text).insert (units "path") (units "C:\\temp")) := by
  have value : (load (persisted ((∅ : Table Text Text).insert (units "path") (units "C:\\temp")))).bind
      (fun loaded => loaded.lookup (units "path")) = some (units "C:\temp") := by
    decide +kernel
  have lost : ¬ RoundTrip load persisted
      ((∅ : Table Text Text).insert (units "path") (units "C:\\temp")) := by
    rintro ⟨loaded,found,same⟩
    rw [found,Option.bind_some,same,AList.lookup_insert] at value
    exact absurd value (by decide)
  exact ⟨lost,lost⟩

end LocalProperties
end YzFramework.Config
