import PropertyTemplate.Yaml.Error
import PropertyTemplate.Yaml.Node
import PropertyTemplate.Yaml.Token

/-! # Nodes from tokens

The grammar of YAML over its tokens. A text holds one document at most, perhaps with directives
before it and document marks around it; without any token it stands for an unwritten node.
-/

namespace PropertyTemplate.Yaml

/-- What reading nodes depends on: the tokens that are left, what tag handles stand for, and the
number that each anchor's name has by now. -/
structure Feed where
  tokens : List Token
  handles : List (List Char × List UInt8) := []
  anchors : List (List Char × Nat) := []

abbrev Parse := StateT Feed (Except Error)

namespace Parse

def peek : Parse (Option Token) := do return (← get).tokens.head?

def skip : Parse Unit := modify fun f => { f with tokens := f.tokens.tail }

def accept (token : Token) : Parse Bool := do
  if (← peek) == some token then
    skip
    return true
  return false

/-- The number of an anchor that is defined here: how many names were defined before. A name that
is defined again gets a new number, but does not count twice. -/
def define (name : List Char) : Parse Nat := do
  let number := (← get).anchors.length
  modify fun f => { f with anchors := (name, number) :: f.anchors.filter (·.1 != name) }
  return number

def find (name : List Char) : Parse Nat := do
  match (← get).anchors.lookup name with
  | some number => return number
  | none => throw .unknownAlias

def utf8 (s : String) : List UInt8 := s.toUTF8.toList

/-- The tag that a handle with a suffix stands for, as bytes. -/
def resolveTag (handle : List Char) (suffix : List UInt8) : Parse (List UInt8) := do
  if handle.isEmpty then return suffix
  match (← get).handles.lookup handle with
  | some lead => return lead ++ suffix
  | none => throw .undefinedTagHandle

/-- The tag that is spelled by bytes. One that starts with an exclamation mark names a type of its
own, unless its name is no text; the mark alone is a name too. -/
def tagOfBytes (bytes : List UInt8) : Option Tag :=
  match bytes with
  | [] => some .other
  | first :: name =>
    if first == '!'.toNat.toUInt8 then
      (String.fromUTF8? ⟨(if name.isEmpty then bytes else name).toArray⟩).map .named
    else if bytes == utf8 "tag:yaml.org,2002:null" then some (.scalarType .null)
    else if bytes == utf8 "tag:yaml.org,2002:bool" then some (.scalarType .boolean)
    else if bytes == utf8 "tag:yaml.org,2002:int" then some (.scalarType .integer)
    else if bytes == utf8 "tag:yaml.org,2002:float" then some (.scalarType .float)
    else some .other

structure Properties where
  anchor : Option Nat := none
  tag : Option (List UInt8) := none

namespace Properties

def isEmpty (p : Properties) : Bool := p.anchor.isNone && p.tag.isNone

def tag? (p : Properties) : Option Tag := p.tag.bind tagOfBytes

end Properties

/-- Reads anchor and tag. -/
def properties : Parse Properties := do
  match ← peek with
  | some (.anchor name) =>
    skip
    match ← peek with
    | some (.tag handle suffix) =>
      skip
      let tag ← resolveTag handle suffix
      return ⟨some (← define name), some tag⟩
    | _ => return ⟨some (← define name), none⟩
  | some (.tag handle suffix) =>
    skip
    let tag ← resolveTag handle suffix
    match ← peek with
    | some (.anchor name) =>
      skip
      return ⟨some (← define name), some tag⟩
    | _ => return ⟨none, some tag⟩
  | _ => return {}

/-- Where a node stands, and so what may start it: in a flow collection no block collection may,
and as key or value of a block mapping also a sequence without indentation may. -/
inductive Place
  | flow
  | block
  | blockMapping
  deriving DecidableEq

def ends (stops : List Token) : Parse Bool := do
  return (← peek).any (stops.contains ·)

mutual

def node (place : Place) : Nat → Parse Node
  | 0 => throw .unexpectedToken
  | fuel + 1 => do
    if let some (.alias name) ← peek then
      skip
      return .alias (← find name)
    let p ← properties
    match ← peek with
    | some .blockEntry =>
      if place != .blockMapping then unwritten p
      else return .sequence p.anchor p.tag? (← bareItems fuel)
    | some (.scalar plain text) =>
      skip
      return .scalar p.anchor p.tag? plain text
    | some .flowSequenceStart =>
      skip
      return .sequence p.anchor p.tag? (← flowItems true fuel)
    | some .flowMappingStart =>
      skip
      return .mapping p.anchor p.tag? (← flowEntries true fuel)
    | some .blockSequenceStart =>
      if place == .flow then unwritten p
      else
        skip
        return .sequence p.anchor p.tag? (← blockItems fuel)
    | some .blockMappingStart =>
      if place == .flow then unwritten p
      else
        skip
        return .mapping p.anchor p.tag? (← blockEntries fuel)
    | _ => unwritten p
where
  /-- A node of which nothing but its properties is written. -/
  unwritten (p : Properties) : Parse Node :=
    if p.isEmpty then throw .unexpectedToken else return .scalar p.anchor p.tag? true []

def nodeUnless (stops : List Token) (place : Place) : Nat → Parse Node
  | 0 => throw .unexpectedToken
  | fuel + 1 => do
    if ← ends stops then return .blank
    node place fuel

def blockItems : Nat → Parse (List Node)
  | 0 => throw .unexpectedToken
  | fuel + 1 => do
    if ← accept .blockEntry then
      let item ← nodeUnless [.blockEntry, .blockEnd] .block fuel
      return item :: (← blockItems fuel)
    if ← accept .blockEnd then return []
    throw .unexpectedToken

/-- The items of a sequence that is not indented more than the mapping it stands in. -/
def bareItems : Nat → Parse (List Node)
  | 0 => throw .unexpectedToken
  | fuel + 1 => do
    if ← accept .blockEntry then
      let item ← nodeUnless [.blockEntry, .key, .value, .blockEnd] .block fuel
      return item :: (← bareItems fuel)
    return []

def blockEntries : Nat → Parse (List (Node × Node))
  | 0 => throw .unexpectedToken
  | fuel + 1 => do
    if ← accept .key then
      let key ← nodeUnless [.key, .value, .blockEnd] .blockMapping fuel
      let value ←
        if ← accept .value then nodeUnless [.key, .value, .blockEnd] .blockMapping fuel
        else pure .blank
      return (key, value) :: (← blockEntries fuel)
    if ← accept .blockEnd then return []
    throw .unexpectedToken

/-- A value after a key in a flow collection that ends with `stop`. -/
def flowValue (stop : Token) : Nat → Parse Node
  | 0 => throw .unexpectedToken
  | fuel + 1 => do
    if ← accept .value then nodeUnless [.flowEntry, stop] .flow fuel else return .blank

/-- The items of a flow sequence. An item may be a key, which makes it a mapping of one entry; a key
that is left unwritten takes the token behind it away. -/
def flowItems (first : Bool) : Nat → Parse (List Node)
  | 0 => throw .unexpectedToken
  | fuel + 1 => do
    if ← accept .flowSequenceEnd then return []
    if !first then
      if !(← accept .flowEntry) then throw .unexpectedToken
      if ← accept .flowSequenceEnd then return []
    let item ←
      if ← accept .key then
        let key ←
          if ← ends [.value, .flowEntry, .flowSequenceEnd] then
            skip
            pure .blank
          else node .flow fuel
        let value ← flowValue .flowSequenceEnd fuel
        pure (.mapping none none [(key, value)])
      else node .flow fuel
    return item :: (← flowItems false fuel)

def flowEntries (first : Bool) : Nat → Parse (List (Node × Node))
  | 0 => throw .unexpectedToken
  | fuel + 1 => do
    if ← accept .flowMappingEnd then return []
    if !first then
      if !(← accept .flowEntry) then throw .unexpectedToken
      if ← accept .flowMappingEnd then return []
    let entry ←
      if ← accept .key then
        let key ← nodeUnless [.value, .flowEntry, .flowMappingEnd] .flow fuel
        pure (key, ← flowValue .flowMappingEnd fuel)
      else pure (← node .flow fuel, .blank)
    return entry :: (← flowEntries false fuel)

end

def directives (version : Bool) : List Token → Parse Unit
  | .versionDirective major minor :: rest => do
    if version then throw .duplicateDirective
    if major ≠ 1 || (minor ≠ 1 && minor ≠ 2) then throw .unsupportedVersion
    skip
    directives true rest
  | .tagDirective handle lead :: rest => do
    let handles := (← get).handles
    if (handles.lookup handle).isSome then throw .duplicateDirective
    modify fun f => { f with handles := handles ++ [(handle, lead)] }
    skip
    directives version rest
  | _ => return

def standardHandles : List (List Char × List UInt8) :=
  [(['!'], utf8 "!"), (['!', '!'], utf8 "tag:yaml.org,2002:")]

def skipDocumentEnds : List Token → List Token
  | .documentEnd :: rest => skipDocumentEnds rest
  | rest => rest

def document : Parse Node := do
  let tokens := (← get).tokens
  if tokens.isEmpty then return .blank
  directives false tokens
  modify fun f => { f with handles := f.handles ++ standardHandles }
  let fuel := 3 * tokens.length + 4
  let started := tokens.head?.any fun
    | .versionDirective .. | .tagDirective .. | .documentStart => true
    | _ => false
  let root ←
    if started then
      if !(← accept .documentStart) then throw .unexpectedToken
      let stop ← peek
      let isUnwritten := match stop with
        | none | some (.versionDirective ..) | some (.tagDirective ..) => true
        | some .documentStart | some .documentEnd => true
        | _ => false
      if isUnwritten then pure .blank else node .block fuel
    else node .block fuel
  if !(skipDocumentEnds (← get).tokens).isEmpty then throw .secondDocument
  return root

end Parse

def Node.ofTokens (tokens : List Token) : Except Error Node :=
  Prod.fst <$> Parse.document.run { tokens }

end PropertyTemplate.Yaml
