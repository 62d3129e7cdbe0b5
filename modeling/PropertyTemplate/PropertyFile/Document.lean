import PropertyTemplate.Property.Bindings
import PropertyTemplate.PropertyFile.Escape
import PropertyTemplate.PropertyFile.Line
import PropertyTemplate.Text.Windows1252

/-! # Property files

A property file is read line by line. Its bytes are Windows-1252, unless a byte order mark says
that they are UTF-8.
-/

namespace PropertyTemplate.PropertyFile

/-- An escape sequence without meaning, and the number of the line it stands in. -/
structure Error where
  cause : EscapeError
  line : Nat
  deriving DecidableEq, Repr

def Error.message (e : Error) : String :=
  e.cause.message ++ " (line_number = " ++ toString e.line ++ ")"

/-- The characters of a text that was written in UTF-8 to a property file. -/
def characters (text : String) : List Char :=
  match text.toList with
  | '\ufeff' :: rest => rest
  | _ => Text.Windows1252.decode text.toUTF8.toList

def read (line : LogicalLine) (part : List Char) : Except Error String :=
  match unescape part with
  | .ok text => .ok (String.ofList text)
  | .error cause => .error ⟨cause, line.number⟩

/-- The property that a line holds. The escape sequences of a comment must have a meaning too. -/
def property? (line : LogicalLine) : Except Error (Option (String × String)) :=
  match Statement.ofLine line.text with
  | .empty => .ok none
  | .comment text => (read line text).map fun _ => none
  | .property key value => do return some (← read line key, ← read line value)

def properties (text : String) : Except Error Bindings := do
  let found ← (logicalLines (characters text)).mapM property?
  return .ofList (found.filterMap id)

end PropertyTemplate.PropertyFile
