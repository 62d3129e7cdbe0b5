import PropertyTemplate.Yaml.Value
import PropertyTemplate.Yaml.Value.Style

/-! # Pages

A page is written from its start to its end. It knows its column, and so where a line may go on and
where a new one has to start.
-/

namespace PropertyTemplate.Yaml

/-- What a writer knows: the text so far with its last character first, the column, whether the last
character was white space, and whether the line holds only indentation so far. -/
structure Page where
  written : List Char := []
  column : Nat := 0
  blank : Bool := true
  indenting : Bool := true

namespace Page

def put (text : List Char) (p : Page) : Page :=
  { p with written := text.reverse ++ p.written, column := p.column + text.length }

def putChar (c : Char) (p : Page) : Page :=
  { p with written := c :: p.written, column := if isBreak c then 0 else p.column + 1 }

/-- Goes to column `indent`, on a new line unless the line holds less indentation. -/
def goTo (indent : Nat) (p : Page) : Page :=
  let p := if !p.indenting || indent < p.column || (p.column == indent && !p.blank) then
    p.putChar '\n' else p
  { p.put (List.replicate (indent - p.column) ' ') with blank := true, indenting := true }

def separate (p : Page) : Page := if p.blank then p else p.putChar ' '

/-- An indicator that leaves the line in its indentation. -/
def putEntryMark (mark : Char) (p : Page) : Page :=
  { p.separate.putChar mark with blank := false }

def putWord (text : List Char) (p : Page) : Page :=
  { p.put text with blank := false, indenting := false }

/-- A character as it stands between double quotes. -/
def escaped (c : Char) : List Char :=
  let hex (mark : Char) (width : Nat) : List Char :=
    let digits := (Nat.toDigits 16 c.toNat).map Char.toUpper
    '\\' :: mark :: (List.replicate (width - digits.length) '0' ++ digits)
  if c == '"' || c == '\\' then ['\\', c]
  else if isPrintable c && !isBreak c then [c]
  else
    match c with
    | '\x00' => ['\\', '0']
    | '\x07' => ['\\', 'a']
    | '\x08' => ['\\', 'b']
    | '\t' => ['\\', 't']
    | '\n' => ['\\', 'n']
    | '\x0b' => ['\\', 'v']
    | '\x0c' => ['\\', 'f']
    | '\r' => ['\\', 'r']
    | '\x1b' => ['\\', 'e']
    | '\u0085' => ['\\', 'N']
    | '\u2028' => ['\\', 'L']
    | '\u2029' => ['\\', 'P']
    | c =>
      if c.toNat ≤ 0xFF then hex 'x' 2 else if c.toNat ≤ 0xFFFF then hex 'u' 4 else hex 'U' 8

/-- The text between single quotes; lines after a break are indented. -/
def putSingle (indent : Nat) (text : List Char) (p : Page) : Page :=
  let step (state : Page × Bool) (c : Char) : Page × Bool :=
    let (p, afterBreak) := state
    if isBreak c then
      let p := if !afterBreak && c == '\n' then p.putChar '\n' else p
      ({ p.putChar c with indenting := true }, true)
    else if c == ' ' then (p.putChar c, afterBreak)
    else
      let p := if afterBreak then p.goTo indent else p
      let p := if c == '\'' then p.putChar '\'' else p
      ({ p.putChar c with indenting := false }, false)
  let (p, afterBreak) := text.foldl step (p.separate.putWord ['\''], false)
  (if afterBreak then p.goTo indent else p).putWord ['\'']

def literalHints (text : List Char) : List Char :=
  let indentation := if text.head?.any fun c => c == ' ' || isBreak c then ['2'] else []
  let chomping := match text.reverse with
    | [] => ['-']
    | last :: before =>
      if !isBreak last then ['-']
      else if firstIs true isBreak before then ['+']
      else []
  indentation ++ chomping

def putLiteral (indent : Nat) (text : List Char) (p : Page) : Page :=
  let step (state : Page × Bool) (c : Char) : Page × Bool :=
    let (p, afterBreak) := state
    if isBreak c then ({ p.putChar c with indenting := true }, true)
    else
      let p := if afterBreak then p.goTo indent else p
      ({ p.putChar c with indenting := false }, false)
  let p := (p.separate.putWord ('|' :: literalHints text)).putChar '\n'
  (text.foldl step ({ p with blank := true, indenting := true }, true)).1

/-- A text in a given style; `indent` is the column of its lines after the first. -/
def putScalar (style : Style) (indent : Nat) (text : List Char) (p : Page) : Page :=
  match style with
  | .plain => p.separate.putWord text
  | .single => p.putSingle indent text
  | .double => p.separate.putWord ('"' :: text.flatMap escaped ++ ['"'])
  | .literal => p.putLiteral indent text

/-- A tag as it is written. Octets that no tag may hold are escaped, and so are exclamation marks
inside it; a tag that is nothing but an exclamation mark is written between angle brackets. -/
def tagText (tag : String) : List Char :=
  let shown (octet : UInt8) : List Char :=
    let c := Char.ofNat octet.toNat
    if octet < 0x80 && (isWord c || ";/?:@&=+$,.~*'()[]".toList.contains c) then [c]
    else '%' :: (Nat.toDigits 16 (octet.toNat + 0x100)).tail.map Char.toUpper
  let suffix := Value.tagSuffix tag
  if suffix.isEmpty then ['!', '<', '%', '2', '1', '>']
  else '!' :: suffix.toUTF8.toList.flatMap shown

def putTag (tag : Option String) (p : Page) : Page :=
  match tag with
  | none => p
  | some tag => p.separate.putWord (tagText tag)

end Page

end PropertyTemplate.Yaml
