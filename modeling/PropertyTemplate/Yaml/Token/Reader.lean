import PropertyTemplate.Yaml.Token.Block
import PropertyTemplate.Yaml.Token.Plain
import PropertyTemplate.Yaml.Token.Property
import PropertyTemplate.Yaml.Token.Quoted

/-! # Reading tokens

Block collections are recognised by the columns in which their entries stand, and a mapping key by
the colon behind it: the reader remembers where a key may have started, and puts the key token in
that slot once the colon is seen. A key must stand on one line and take at most 1024 octets.
-/

namespace PropertyTemplate.Yaml

/-- A place where a mapping key may have started. `required` says that nothing else can stand
there. -/
structure KeyStart where
  slot : Nat
  required : Bool
  index : Nat
  line : Nat
  column : Nat
  deriving DecidableEq, Repr

/-- What the reader knows between two tokens. The tokens are listed with the last one first. The
indentations of the open block collections and the key starts of the open flow collections are
listed with the innermost first. -/
structure Reader where
  cursor : Cursor
  tokens : List Token := []
  count : Nat := 0
  indent : Int := -1
  outerIndents : List Int := []
  keyStart : Option KeyStart := none
  outerKeyStarts : List (Option KeyStart) := []
  keyAllowed : Bool := true

namespace Reader

def inFlow (r : Reader) : Bool := !r.outerKeyStarts.isEmpty

def push (token : Token) (r : Reader) : Reader :=
  { r with tokens := token :: r.tokens, count := r.count + 1 }

def insert (slot : Nat) (token : Token) (r : Reader) : Reader :=
  let (later, earlier) := r.tokens.splitAt (r.count - slot)
  { r with tokens := later ++ token :: earlier, count := r.count + 1 }

/-- Opens a block collection at `column`, if it is indented more than the one around it. -/
def openBlock (column slot : Nat) (start : Token) (r : Reader) : Reader :=
  if !r.inFlow && r.indent < column then
    { r.insert slot start with indent := column, outerIndents := r.indent :: r.outerIndents }
  else r

/-- Closes the block collections that are indented more than `column`; the list bounds how many
there are. -/
def closeBlocksFrom (column : Int) : List Int → Reader → Reader
  | [], r => r
  | outer :: outers, r =>
    if column < r.indent then
      closeBlocksFrom column outers
        { r.push .blockEnd with indent := outer, outerIndents := outers }
    else r

def closeBlocks (column : Int) (r : Reader) : Reader :=
  if r.inFlow then r else closeBlocksFrom column r.outerIndents r

def dropKeyStart (r : Reader) : Except Error Reader :=
  if r.keyStart.any (·.required) then .error .unfinishedKey
  else .ok { r with keyStart := none }

def saveKeyStart (r : Reader) : Except Error Reader := do
  if !r.keyAllowed then return r
  let required := !r.inFlow && r.indent == (r.cursor.column : Int)
  let r ← r.dropKeyStart
  let c := r.cursor
  return { r with keyStart := some ⟨r.count, required, c.index, c.line, c.column⟩ }

/-- The key start, unless a line break or more than 1024 octets lie behind it. -/
def live (c : Cursor) : Option KeyStart → Except Error (Option KeyStart)
  | none => .ok none
  | some k =>
    if k.line < c.line || k.index + 1024 < c.index then
      if k.required then .error .unfinishedKey else .ok none
    else .ok (some k)

def dropStaleKeyStarts (r : Reader) : Except Error Reader := do
  return { r with
    keyStart := ← live r.cursor r.keyStart
    outerKeyStarts := ← r.outerKeyStarts.mapM (live r.cursor) }

/-- Skips white space, comments and line breaks. In block context a line break allows a key, and
where a key is allowed a tab is no white space. -/
def skipToToken : Nat → Reader → Reader
  | 0, r => r
  | fuel + 1, r =>
    let c := r.cursor
    let c := if c.column == 0 && c.next (· == '\ufeff') then c.advance 1 else c
    let c := c.skipWhile fun x => x == ' ' || ((r.inFlow || !r.keyAllowed) && x == '\t')
    let c := if c.next (· == '#') then c.skipWhile (!isBreak ·) else c
    if c.next isBreak then
      skipToToken fuel
        { r with cursor := c.readBreak.2, keyAllowed := r.keyAllowed || !r.inFlow }
    else { r with cursor := c }

def emit (token : Token) (length : Nat) (r : Reader) : Reader :=
  { r.push token with cursor := r.cursor.advance length }

/-- Closes all block collections, before a directive, a document mark or the end. -/
def closeDocument (r : Reader) : Except Error Reader := do
  let r ← (r.closeBlocks (-1)).dropKeyStart
  return { r with keyAllowed := false }

def readBlockEntry (r : Reader) : Except Error Reader := do
  if !r.inFlow && !r.keyAllowed then throw .misplacedEntry
  let r ← (r.openBlock r.cursor.column r.count .blockSequenceStart).dropKeyStart
  return { r with keyAllowed := true }.emit .blockEntry 1

def readKey (r : Reader) : Except Error Reader := do
  if !r.inFlow && !r.keyAllowed then throw .misplacedKey
  let r ← (r.openBlock r.cursor.column r.count .blockMappingStart).dropKeyStart
  return { r with keyAllowed := !r.inFlow }.emit .key 1

/-- A colon: it ends the key that was started, or else an explicit or an empty one. -/
def readValue (r : Reader) : Except Error Reader := do
  match r.keyStart with
  | some k =>
    let r := (r.insert k.slot .key).openBlock k.column k.slot .blockMappingStart
    return { r with keyStart := none, keyAllowed := false }.emit .value 1
  | none =>
    if !r.inFlow && !r.keyAllowed then throw .misplacedValue
    let r := r.openBlock r.cursor.column r.count .blockMappingStart
    return { r with keyAllowed := !r.inFlow }.emit .value 1

def openFlow (start : Token) (r : Reader) : Except Error Reader := do
  let r ← r.saveKeyStart
  return { r with
    keyStart := none
    outerKeyStarts := r.keyStart :: r.outerKeyStarts
    keyAllowed := true }.emit start 1

def closeFlow (stop : Token) (r : Reader) : Except Error Reader := do
  let r ← r.dropKeyStart
  let r := match r.outerKeyStarts with
    | [] => r
    | outer :: outers => { r with keyStart := outer, outerKeyStarts := outers }
  return { r with keyAllowed := false }.emit stop 1

def readFlowEntry (r : Reader) : Except Error Reader := do
  let r ← r.dropKeyStart
  return { r with keyAllowed := true }.emit .flowEntry 1

/-- A token that may be a key or start one, and that leaves no room for another. -/
def readNode (read : Cursor → Except Error (Token × Cursor)) (r : Reader) :
    Except Error Reader := do
  let r ← r.saveKeyStart
  let (token, c) ← read r.cursor
  return { r.push token with cursor := c, keyAllowed := false }

def readPlainScalar (r : Reader) : Except Error Reader := do
  let r ← r.saveKeyStart
  let scalar ← readPlain r.inFlow (r.indent + 1) r.cursor
  return { r.push (.scalar true scalar.text) with
    cursor := scalar.cursor, keyAllowed := scalar.broken }

def readBlockScalar (folded : Bool) (r : Reader) : Except Error Reader := do
  let r ← r.dropKeyStart
  let (text, c) ← readBlock folded r.indent r.cursor
  return { r.push (.scalar false text) with cursor := c, keyAllowed := true }

def isIndicator (c : Char) : Bool :=
  c == '-' || c == '?' || c == ':' || c == ',' || c == '[' || c == ']' || c == '{' || c == '}'
    || c == '#' || c == '&' || c == '*' || c == '!' || c == '|' || c == '>' || c == '\''
    || c == '"' || c == '%' || c == '@' || c == '\x60'

def readTokenAt (x : Char) (rest : List Char) (r : Reader) : Except Error Reader :=
  let c := r.cursor
  let beforeBlank := startsBlank rest
  if c.column == 0 && x == '%' then do
    let r ← r.closeDocument
    let (token, c) ← readDirective r.cursor
    return { r.push token with cursor := c }
  else if c.atMark '-' then return (← r.closeDocument).emit .documentStart 3
  else if c.atMark '.' then return (← r.closeDocument).emit .documentEnd 3
  else if x == '[' then r.openFlow .flowSequenceStart
  else if x == '{' then r.openFlow .flowMappingStart
  else if x == ']' then r.closeFlow .flowSequenceEnd
  else if x == '}' then r.closeFlow .flowMappingEnd
  else if x == ',' then r.readFlowEntry
  else if x == '-' && beforeBlank then r.readBlockEntry
  else if x == '?' && (r.inFlow || beforeBlank) then r.readKey
  else if x == ':' && (r.inFlow || beforeBlank) then r.readValue
  else if x == '*' then r.readNode fun c => do
    let (name, c) ← readName c
    return (.alias name, c)
  else if x == '&' then r.readNode fun c => do
    let (name, c) ← readName c
    return (.anchor name, c)
  else if x == '!' then r.readNode (readTag r.inFlow)
  else if x == '|' && !r.inFlow then r.readBlockScalar false
  else if x == '>' && !r.inFlow then r.readBlockScalar true
  else if x == '\'' || x == '"' then r.readNode fun c => do
    let (text, c) ← readQuoted (x == '\'') c
    return (.scalar false text, c)
  else if !(isBlankOrBreak x || isIndicator x) || x == '-'
      || (!r.inFlow && (x == '?' || x == ':')) then r.readPlainScalar
  else .error .unexpectedCharacter

def readTokens : Nat → Reader → Except Error Reader
  | 0, r => .ok r
  | fuel + 1, r => do
    let r ← (skipToToken (fuel + 1) r).dropStaleKeyStarts
    let r := r.closeBlocks r.cursor.column
    match r.cursor.rest with
    | [] => r.closeDocument
    | x :: rest => readTokens fuel (← r.readTokenAt x rest)

end Reader

/-- The tokens of a text. Every character of the text must be allowed, wherever it stands. -/
def Token.ofText (text : List Char) : Except Error (List Token) := do
  if !text.all isAllowed then throw .forbiddenCharacter
  let r ← Reader.readTokens (text.length + 1) { cursor := { rest := text } }
  return r.tokens.reverse

end PropertyTemplate.Yaml
