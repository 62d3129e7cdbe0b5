import PropertyTemplate.Property.Bindings
import PropertyTemplate.Yaml.Value.Text

/-! # Flattening

A value is flattened to bindings of its scalars. The key of a scalar is its path: keys of mappings
are joined by dots, and positions in sequences are put in brackets. Tags do not show, and of two
scalars with one key the later is kept.
-/

namespace PropertyTemplate.Yaml.Value

/-- The text of a value as a property, or as a part of a key; it is empty if the value has none. -/
def propertyText : Value → String
  | .null => ""
  | .boolean b => toString b
  | .number n => n.text
  | .string s => s
  | value => value.blockText?.getD ""

def memberPath (path : Option String) (key : Value) : String :=
  match path with
  | none => key.propertyText
  | some path => path ++ "." ++ key.propertyText

def itemPath (path : Option String) (index : Nat) : String :=
  path.getD "" ++ "[" ++ toString index ++ "]"

mutual

/-- Adds the scalars of a value to bindings. A scalar at the root has no path and is left out. -/
def flatten (path : Option String) : Value → Bindings → Bindings
  | .mapping entries, b => flattenEntries path entries b
  | .sequence items, b => flattenItems path 0 items b
  | .tagged _ value, b => flatten path value b
  | value, b =>
    match path with
    | none => b
    | some key => b.insert key value.propertyText

def flattenEntries (path : Option String) : List (Value × Value) → Bindings → Bindings
  | [], b => b
  | (key, value) :: entries, b =>
    flattenEntries path entries (flatten (some (memberPath path key)) value b)

/-- Adds the items of a sequence from position `index` on. -/
def flattenItems (path : Option String) (index : Nat) : List Value → Bindings → Bindings
  | [], b => b
  | item :: items, b =>
    flattenItems path (index + 1) items (flatten (some (itemPath path index)) item b)

end

end PropertyTemplate.Yaml.Value
