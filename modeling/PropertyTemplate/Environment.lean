import PropertyTemplate.Property.Source
import PropertyTemplate.Text.Utf8

/-! # Environments

The variables of a process are octets. The system lists each as its name, an equals sign, its value
and a null octet; those that are UTF-8 make up a source.
-/

namespace PropertyTemplate

/-- The variables of a process; of two with one name the later counts. -/
structure Environment where
  entries : List (ByteArray × ByteArray)

namespace Environment

def set (e : Environment) (name value : ByteArray) : Environment :=
  ⟨e.entries.filter (·.1 != name) ++ [(name, value)]⟩

def equalsSign : UInt8 := '='.toNat.toUInt8

/-- The variable that an entry of the system's list gives. The name ends at the first equals sign,
but has at least one octet; an entry without such a sign gives none. -/
def ofEntry? : List UInt8 → Option (ByteArray × ByteArray)
  | [] => none
  | first :: entry =>
    match entry.dropWhile (· != equalsSign) with
    | [] => none
    | _ :: value => some (⟨(first :: entry.takeWhile (· != equalsSign)).toArray⟩, ⟨value.toArray⟩)

def ofListing (listing : List UInt8) : Environment := ⟨(listing.splitOn 0).filterMap ofEntry?⟩

/-- The variable as a property, if it is one of text. -/
def property? (name value : ByteArray) : Option (String × String) := do
  return (← String.fromUTF8? name, ← String.fromUTF8? value)

def sourceName : String := "environment"

def source (e : Environment) : Source :=
  ⟨sourceName, .ofList (e.entries.filterMap fun (name, value) => property? name value)⟩

end Environment

end PropertyTemplate
