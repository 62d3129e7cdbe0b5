import PropertyTemplate.Yaml.Node
import PropertyTemplate.Yaml.Scalar

/-! # Values from nodes

An alias stands for the content of the node with its anchor. Collections may be nested 128 deep,
also through aliases, and a document may follow its aliases a hundred times for each of its parts.
-/

namespace PropertyTemplate.Yaml.Value

def greatestDepth : Nat := 128

/-- Reading a document: how many aliases may still be followed, or why it has no value. -/
abbrev Read := StateT Nat (Except Error)

def followOne : Read Unit := do
  match ← get with
  | 0 => throw .tooManyAliases
  | n + 1 => set n

def target (anchors : List (Nat × Node)) (anchor : Nat) : Except Error Node :=
  match anchors.reverse.lookup anchor with
  | some node => .ok node
  | none => .error .unknownAlias

/-- A value under the tag of its node, if that names a type of its own. -/
def withTag (tag : Option Tag) (value : Value) : Value :=
  match tag with
  | some (.named name) => .tagged name value
  | _ => value

def ofScalar (tag : Option Tag) (plain : Bool) (text : List Char) : Except Error Value :=
  match tag with
  | some (.scalarType type) => Scalar.ofTyped type text
  | some .other => .ok (.string (String.ofList text))
  | _ =>
    (if plain then Scalar.ofPlain text else .ok (.string (String.ofList text))).map (withTag tag)

def resolve (anchors : List (Nat × Node)) : Node → Read Node
  | .alias anchor => do
    followOne
    return ← target anchors anchor
  | node => return node

/-- Adds an entry, if the mapping does not have its key. -/
def addEntry (entries : List (Value × Value)) (key value : Value) :
    Except Error (List (Value × Value)) :=
  if entries.any fun entry => key.same entry.1 then .error .duplicateKey
  else .ok (entries ++ [(key, value)])

def ofNode (anchors : List (Nat × Node)) (depth : Nat) (node : Node) : Read Value := do
  match ← resolve anchors node with
  | .alias _ => throw .unknownAlias
  | .scalar _ tag plain text => ofScalar tag plain text
  | .sequence _ tag items =>
    match depth with
    | 0 => throw .nestedTooDeeply
    | depth + 1 =>
      return withTag tag (.sequence (← items.mapM (ofNode anchors depth)))
  | .mapping _ tag entries =>
    match depth with
    | 0 => throw .nestedTooDeeply
    | depth + 1 =>
      let entries ← entries.foldlM (fun (known : List (Value × Value)) (entry : Node × Node) => do
        let key ← ofNode anchors depth entry.1
        let value ← ofNode anchors depth entry.2
        addEntry known key value) []
      return withTag tag (.mapping entries)

def ofDocument (root : Node) : Except Error Value :=
  Prod.fst <$> (ofNode root.anchored greatestDepth root).run (100 * root.size)

end PropertyTemplate.Yaml.Value
