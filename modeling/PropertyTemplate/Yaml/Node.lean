/-! # Nodes

The tree that a document is. An anchored node carries the number of its anchor, and an alias the
number that its name had where the alias stands. Of two nodes with one number the later is meant.
-/

namespace PropertyTemplate.Yaml

inductive ScalarType
  | null
  | boolean
  | integer
  | float
  deriving DecidableEq, Repr

/-- A tag: a type of its own for the value, a type of the scalar, or one that says nothing but
that the scalar is a text. -/
inductive Tag
  | named (name : String)
  | scalarType (type : ScalarType)
  | other
  deriving DecidableEq, Repr

inductive Node
  | alias (anchor : Nat)
  | scalar (anchor : Option Nat) (tag : Option Tag) (plain : Bool) (text : List Char)
  | sequence (anchor : Option Nat) (tag : Option Tag) (items : List Node)
  | mapping (anchor : Option Nat) (tag : Option Tag) (entries : List (Node × Node))

namespace Node

def blank : Node := .scalar none none true []

mutual

/-- The parts of a document that its size is counted in: two for a collection, one for all else. -/
def size : Node → Nat
  | .alias _ => 1
  | .scalar .. => 1
  | .sequence _ _ items => 2 + itemsSize items
  | .mapping _ _ entries => 2 + entriesSize entries

def itemsSize : List Node → Nat
  | [] => 0
  | item :: items => size item + itemsSize items

def entriesSize : List (Node × Node) → Nat
  | [] => 0
  | (key, value) :: entries => size key + size value + entriesSize entries

end

mutual

/-- The nodes of a tree with an anchor, in the order in which they start. -/
def anchored : Node → List (Nat × Node)
  | .alias _ => []
  | .scalar anchor tag plain text =>
    (anchor.map fun n => (n, Node.scalar anchor tag plain text)).toList
  | .sequence anchor tag items =>
    (anchor.map fun n => (n, Node.sequence anchor tag items)).toList ++ itemsAnchored items
  | .mapping anchor tag entries =>
    (anchor.map fun n => (n, Node.mapping anchor tag entries)).toList ++ entriesAnchored entries

def itemsAnchored : List Node → List (Nat × Node)
  | [] => []
  | item :: items => anchored item ++ itemsAnchored items

def entriesAnchored : List (Node × Node) → List (Nat × Node)
  | [] => []
  | (key, value) :: entries => anchored key ++ anchored value ++ entriesAnchored entries

end

end Node

end PropertyTemplate.Yaml
