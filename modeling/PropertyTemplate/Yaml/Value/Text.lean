import PropertyTemplate.Text.WhiteSpace
import PropertyTemplate.Yaml.Value.Page

/-! # Text of values

The block style in which a value is written. Collections are indented by two columns, except a
sequence under a key; a key that does not fit on the line of its colon stands behind a question
mark.
-/

namespace PropertyTemplate.Yaml

namespace Value

def scalarText? : Value → Option (Style × String)
  | .null => some (.plain, "null")
  | .boolean b => some (.plain, toString b)
  | .number n => some (.plain, n.text)
  | .string s => some (Style.wanted s, s)
  | _ => none

def untagged : Value → Option String × Value
  | .tagged tag value => (some tag, value)
  | value => (none, value)

/-- A key fits on the line of its colon: it is no collection with members, and a short text. -/
def isSimpleKey (key : Value) : Bool :=
  let (tag, value) := key.untagged
  let tagLength := (tag.map fun t => (tagSuffix t).utf8ByteSize + 1).getD 0
  match value with
  | .sequence items => items.isEmpty && tagLength ≤ 128
  | .mapping entries => entries.isEmpty && tagLength ≤ 128
  | value =>
    match scalarText? value with
    | some (_, s) => !s.toList.any isBreak && tagLength + s.utf8ByteSize ≤ 128
    | none => false

/-- Where a value stands: in a sequence or at the top, behind a colon or a question mark of a
mapping, or as a key before its colon. -/
inductive Position
  | item
  | member
  | key
  deriving DecidableEq

mutual

/-- Writes a value. `indent` is the indentation of the collection around it, if there is one. -/
def write (indent : Option Nat) (position : Position) (tag : Option String) :
    Value → Page → Page
  | .tagged tag value, p => write indent position (some tag) value p
  | .sequence [], p => (p.putTag tag).separate.putWord ['[', ']']
  | .mapping [], p => (p.putTag tag).separate.putWord ['{', '}']
  | .sequence items, p =>
    let p := p.putTag tag
    let bare := position == .member && !p.indenting
    writeItems (indent.elim 0 fun n => if bare then n else n + 2) items p
  | .mapping entries, p => writeEntries (indent.elim 0 (· + 2)) entries (p.putTag tag)
  | value, p =>
    match scalarText? value with
    | some (style, s) =>
      (p.putTag tag).putScalar (style.chosen (position == .key) s.toList)
        (indent.elim 2 (· + 2)) s.toList
    | none => p

def writeItems (indent : Nat) : List Value → Page → Page
  | [], p => p
  | item :: items, p =>
    writeItems indent items (write indent .item none item ((p.goTo indent).putEntryMark '-'))

def writeEntries (indent : Nat) : List (Value × Value) → Page → Page
  | [], p => p
  | (key, value) :: entries, p =>
    let p := p.goTo indent
    let p :=
      if key.isSimpleKey then
        (write indent .key none key p).putWord [':']
      else
        ((write indent .member none key (p.putEntryMark '?')).goTo indent).putEntryMark ':'
    writeEntries indent entries (write indent .member none value p)

end

/-- As the only key of a mapping, the value would be taken for the mapping's own tag or start. -/
def hidesMapping : Value → Bool
  | .tagged _ _ => true
  | .mapping [_] => true
  | _ => false

mutual

/-- A value has a text unless a mapping of one entry without a tag has a key that hides it. -/
def isWritable (hasTag : Bool) : Value → Bool
  | .tagged _ value => isWritable true value
  | .sequence items => itemsWritable items
  | .mapping [(key, value)] =>
    (hasTag || !key.hidesMapping) && isWritable false key && isWritable false value
  | .mapping entries => entriesWritable entries
  | _ => true

def itemsWritable : List Value → Bool
  | [] => true
  | item :: items => isWritable false item && itemsWritable items

def entriesWritable : List (Value × Value) → Bool
  | [] => true
  | (key, value) :: entries =>
    isWritable false key && isWritable false value && entriesWritable entries

end

/-- The block style text of a value, without trailing white space, if the value has one. -/
def blockText? (v : Value) : Option String :=
  if v.isWritable false then
    some (String.ofList (Text.dropTrailingSpace (write none .item none v {}).written.reverse))
  else none

end Value

end PropertyTemplate.Yaml
