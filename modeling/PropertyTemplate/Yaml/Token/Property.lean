import PropertyTemplate.Yaml.Cursor
import PropertyTemplate.Yaml.Error
import PropertyTemplate.Yaml.Token

/-! # Anchors, tags and directives

Anchors and aliases are names. A tag is a handle with a suffix, or a verbatim text between angle
brackets; a directive at the start of a document may define handles.
-/

namespace PropertyTemplate.Yaml

def readName (c : Cursor) : Except Error (List Char × Cursor) :=
  let (name, c) := (c.advance 1).takeWhile isWord
  let mayFollow (x : Char) : Bool :=
    isBlankOrBreak x || x == '?' || x == ':' || x == ',' || x == ']' || x == '}' || x == '%'
      || x == '@' || x == '\x60'
  if name.isEmpty || !firstIs true mayFollow c.rest then .error .badAnchor
  else .ok (name, c)

/-- A character of a tag; flow indicators stand in verbatim tags and directives only. -/
def isTagChar (verbatim : Bool) (c : Char) : Bool :=
  isWord c || c == ';' || c == '/' || c == '?' || c == ':' || c == '@' || c == '&' || c == '='
    || c == '+' || c == '$' || c == '.' || c == '!' || c == '~' || c == '*' || c == '\''
    || c == '(' || c == ')' || (verbatim && (c == ',' || c == '[' || c == ']'))

/-- The number of octets that an octet announces as the first of a character. -/
def octetCount? (octet : Nat) : Option Nat :=
  if octet < 0x80 then some 1
  else if octet / 0x20 = 0x06 then some 2
  else if octet / 0x10 = 0x0E then some 3
  else if octet / 0x08 = 0x1E then some 4
  else none

/-- Reads the characters of a tag. An escaped octet that starts a character must be followed by the
escaped octets that continue it; `due` tells how many of them are missing. -/
def readTagChars (verbatim : Bool) : Nat → List Char → Except Error (List UInt8 × List Char)
  | due, '%' :: x :: y :: rest =>
    match hexValue? x, hexValue? y with
    | some high, some low => do
      let octet := 16 * high + low
      let due ←
        match due with
        | 0 =>
          match octetCount? octet with
          | some count => pure (count - 1)
          | none => throw .badTag
        | due + 1 => if octet / 0x40 = 0x02 then pure due else throw .badTag
      let (octets, rest) ← readTagChars verbatim due rest
      return (octet.toUInt8 :: octets, rest)
    | _, _ => .error .badTag
  | 0, c :: rest =>
    if isTagChar verbatim c then
      (readTagChars verbatim 0 rest).map fun (octets, rest) =>
        (c.toNat.toUInt8 :: octets, rest)
    else if c == '%' then .error .badTag
    else .ok ([], c :: rest)
  | 0, [] => .ok ([], [])
  | _ + 1, _ => .error .badTag

def readTagText (verbatim : Bool) (c : Cursor) : Except Error (List UInt8 × Cursor) := do
  let (octets, rest) ← readTagChars verbatim 0 c.rest
  return (octets, c.advance (c.rest.length - rest.length))

/-- An exclamation mark and the word behind it, with the exclamation mark that may close it. -/
def readHandle (c : Cursor) : List Char × Cursor :=
  let (word, c) := (c.advance 1).takeWhile isWord
  if c.next (· == '!') then ('!' :: word ++ ['!'], c.advance 1) else ('!' :: word, c)

/-- A null character ends a tag, however much follows. -/
def untilNull (octets : List UInt8) : List UInt8 := octets.takeWhile (· != 0)

def readTag (inFlow : Bool) (c : Cursor) : Except Error (Token × Cursor) := do
  let (handle, suffix, c) ←
    match c.rest with
    | _ :: '<' :: _ => do
      let start := c.advance 2
      let (suffix, c) ← readTagText true start
      if c.index = start.index || !c.next (· == '>') then throw .badTag
      pure ([], untilNull suffix, c.advance 1)
    | _ => do
      let (handle, c) := readHandle c
      let (suffix, c') ← readTagText false c
      if handle.length ≥ 2 && handle.getLast? == some '!' then
        if c'.index = c.index then throw .badTag
        pure (handle, untilNull suffix, c')
      else
        let suffix := untilNull ((handle.drop 1).map (·.toNat.toUInt8) ++ suffix)
        pure (if suffix.isEmpty then ([], ['!'.toNat.toUInt8], c') else (['!'], suffix, c'))
  if startsBlank c.rest || (inFlow && c.next (· == ',')) then return (.tag handle suffix, c)
  throw .badTag

def readVersionNumber (c : Cursor) : Except Error (Nat × Cursor) :=
  let (digits, c) := c.takeWhile Char.isDigit
  if digits.isEmpty || 9 < digits.length then .error .badDirective
  else .ok (digits.foldl (fun n d => 10 * n + (d.toNat - '0'.toNat)) 0, c)

def readDirective (c : Cursor) : Except Error (Token × Cursor) := do
  let (name, c) := (c.advance 1).takeWhile isWord
  if !startsBlank c.rest then throw .badDirective
  let c := c.skipWhile isBlank
  let (token, c) ←
    if name == ['Y', 'A', 'M', 'L'] then do
      let (major, c) ← readVersionNumber c
      if !c.next (· == '.') then throw .badDirective
      let (minor, c) ← readVersionNumber (c.advance 1)
      pure (Token.versionDirective major minor, c)
    else if name == ['T', 'A', 'G'] then do
      if !c.next (· == '!') then throw .badDirective
      let (handle, c) := readHandle c
      if handle != ['!'] && !(handle.length ≥ 2 && handle.getLast? == some '!') then
        throw .badDirective
      if !c.next isBlank then throw .badDirective
      let start := c.skipWhile isBlank
      let (lead, c) ← readTagText true start
      if c.index = start.index || !startsBlank c.rest then throw .badDirective
      pure (Token.tagDirective handle (untilNull lead), c)
    else throw .badDirective
  match c.skipLineEnd? with
  | some c => return (token, c)
  | none => throw .badDirective

end PropertyTemplate.Yaml
