import PropertyTemplate.Proofs.Property.Bindings
import PropertyTemplate.Yaml.Value.Flatten

/-! # Leaves

A leaf is a scalar of a value with the path that leads to it. Flattening writes the leaves in the
order in which they stand, each under the key that its path is written as, so that of several leaves
with one key the last is kept.
-/

namespace PropertyTemplate.Yaml.Value

/-- One step from a collection to what stands in it. -/
inductive Step
  | member (key : Value)
  | item (index : Nat)

def Step.text : Step → String
  | .member key => "." ++ key.propertyText
  | .item index => "[" ++ toString index ++ "]"

/-- The steps of a path as they are written behind what leads to them. -/
def tailText : List Step → String
  | [] => ""
  | step :: steps => step.text ++ tailText steps

/-- A scalar of a value, and the steps that lead to it from the root. -/
structure Leaf where
  path : List Step
  scalar : Value

namespace Leaf

def text (leaf : Leaf) : String := leaf.scalar.propertyText

def below (step : Step) (leaf : Leaf) : Leaf := { leaf with path := step :: leaf.path }

/-- The key that the leaf has. A key of a mapping that starts the path stands bare, and every later
one behind a dot; the path to the root is not written. -/
def key? (leaf : Leaf) : Option String :=
  match leaf.path with
  | [] => none
  | .member key :: steps => some (key.propertyText ++ tailText steps)
  | .item index :: steps => some ((Step.item index).text ++ tailText steps)

end Leaf

mutual

/-- The leaves of a value in the order in which they stand. Tags do not show. -/
def leaves : Value → List Leaf
  | .sequence items => itemLeaves 0 items
  | .mapping entries => entryLeaves entries
  | .tagged _ value => leaves value
  | scalar => [⟨[], scalar⟩]

def itemLeaves (index : Nat) : List Value → List Leaf
  | [] => []
  | item :: items => (leaves item).map (·.below (.item index)) ++ itemLeaves (index + 1) items

def entryLeaves : List (Value × Value) → List Leaf
  | [] => []
  | (key, value) :: entries => (leaves value).map (·.below (.member key)) ++ entryLeaves entries

end

section Flatten

variable {path : Option String} {step : Step} {leaf : Leaf}

def Leaf.keyUnder? (path : Option String) (leaf : Leaf) : Option String :=
  match path with
  | none => leaf.key?
  | some path => some (path ++ tailText leaf.path)

/-- What the leaves of a value that stands under `path` are written as. -/
def writesUnder (path : Option String) (leaves : List Leaf) : List (String × String) :=
  leaves.filterMap fun leaf => (leaf.keyUnder? path).map (·, leaf.text)

theorem writesUnder_append (path : Option String) (leaves later : List Leaf) :
    writesUnder path (leaves ++ later) = writesUnder path leaves ++ writesUnder path later :=
  List.filterMap_append

theorem keyUnder?_below_member (key : Value) : (leaf.below (.member key)).keyUnder? path =
    leaf.keyUnder? (some (memberPath path key)) := by
  cases path with
  | none => rfl
  | some path =>
    simp only [Leaf.keyUnder?, Leaf.below, tailText, Step.text, memberPath, String.append_assoc]

theorem keyUnder?_below_item (index : Nat) : (leaf.below (.item index)).keyUnder? path =
    leaf.keyUnder? (some (itemPath path index)) := by
  cases path with
  | none => simp [Leaf.keyUnder?, Leaf.key?, Leaf.below, Step.text, itemPath]
  | some path =>
    simp [Leaf.keyUnder?, Leaf.below, tailText, Step.text, itemPath, String.append_assoc]

theorem writesUnder_map_below {path' : Option String}
    (h : ∀ leaf : Leaf, (leaf.below step).keyUnder? path = leaf.keyUnder? path')
    (leaves : List Leaf) :
    writesUnder path (leaves.map (·.below step)) = writesUnder path' leaves := by
  simp only [writesUnder, List.filterMap_map]
  exact List.filterMap_congr fun leaf _ => by rw [Function.comp_apply, h]; rfl

theorem writesUnder_root (path : Option String) (scalar : Value) :
    writesUnder path [⟨[], scalar⟩] = (path.map (·, scalar.propertyText)).toList := by
  cases path with
  | none => rfl
  | some path => simp [writesUnder, Leaf.keyUnder?, Leaf.text, tailText]

mutual

/-- Flattening under a path writes the leaves under it, in order. -/
theorem flatten_eq_insertMany (path : Option String) (v : Value) (b : Bindings) :
    v.flatten path b = b.insertMany (writesUnder path v.leaves) := by
  cases v with
  | mapping entries =>
    rw [flatten, leaves]
    exact flattenEntries_eq_insertMany path entries b
  | sequence items =>
    rw [flatten, leaves]
    exact flattenItems_eq_insertMany path 0 items b
  | tagged tag value =>
    rw [flatten, leaves]
    exact flatten_eq_insertMany path value b
  | _ => cases path <;> simp [flatten, leaves, writesUnder_root]

theorem flattenEntries_eq_insertMany (path : Option String) (entries : List (Value × Value))
    (b : Bindings) :
    flattenEntries path entries b = b.insertMany (writesUnder path (entryLeaves entries)) := by
  match entries with
  | [] => rfl
  | (key, value) :: entries =>
    rw [flattenEntries, entryLeaves, writesUnder_append, Bindings.insertMany_append,
      writesUnder_map_below fun _ => keyUnder?_below_member key,
      flatten_eq_insertMany _ value b, flattenEntries_eq_insertMany path entries]

theorem flattenItems_eq_insertMany (path : Option String) (index : Nat) (items : List Value)
    (b : Bindings) :
    flattenItems path index items b =
      b.insertMany (writesUnder path (itemLeaves index items)) := by
  match items with
  | [] => rfl
  | item :: items =>
    rw [flattenItems, itemLeaves, writesUnder_append, Bindings.insertMany_append,
      writesUnder_map_below fun _ => keyUnder?_below_item index,
      flatten_eq_insertMany _ item b, flattenItems_eq_insertMany path (index + 1) items]

end

end Flatten

theorem flatten_eq_ofList (v : Value) :
    v.flatten none .empty = .ofList (writesUnder none v.leaves) :=
  flatten_eq_insertMany none v .empty

/-- A key that looks like a position, behind the item at that position. -/
example :
    let v : Value := .mapping [(.string "a", .sequence [.boolean true]), (.string "a[0]", .null)]
    v.flatten none .empty = .ofList [("a[0]", "")] := by decide

end PropertyTemplate.Yaml.Value
