import PropertyTemplate.Yaml.Number

/-! # Values

What a YAML document says, with its aliases resolved. A mapping keeps its order, and no two of its
keys are the same.
-/

namespace PropertyTemplate.Yaml

inductive Value
  | null
  | boolean (value : Bool)
  | number (value : Number)
  | string (text : String)
  | sequence (items : List Value)
  | mapping (entries : List (Value × Value))
  | tagged (tag : String) (value : Value)
  deriving Inhabited

namespace Value

def bareTag (tag : String) : String :=
  match tag.toList with
  | '!' :: rest => if rest.isEmpty then tag else String.ofList rest
  | _ => tag

def tagSuffix (tag : String) : String :=
  match (bareTag tag).toList with
  | '!' :: rest => String.ofList rest
  | rest => String.ofList rest

mutual

/-- Two values are the same key. The order of a mapping does not count. -/
def same : Value → Value → Bool
  | null, null => true
  | boolean a, boolean b => a == b
  | number a, number b => a.same b
  | string a, string b => a == b
  | sequence items, sequence others => sameItems items others
  | mapping entries, mapping others =>
    entries.length == others.length && sameEntries entries others
  | tagged tag value, tagged otherTag other => bareTag tag == bareTag otherTag && same value other
  | _, _ => false

def sameItems : List Value → List Value → Bool
  | [], [] => true
  | item :: items, other :: others => same item other && sameItems items others
  | _, _ => false

def sameEntries : List (Value × Value) → List (Value × Value) → Bool
  | [], _ => true
  | (key, value) :: entries, others =>
    others.any (fun other => same key other.1 && same value other.2) && sameEntries entries others

end

end Value

end PropertyTemplate.Yaml
