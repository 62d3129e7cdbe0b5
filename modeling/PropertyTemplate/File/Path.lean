/-! # Paths

A path is a text whose parts are separated by slashes. Empty parts and single dots do not count.
Paths that are not UTF-8 are left out, and with them the formats and names that such paths show.
-/

namespace PropertyTemplate.Path

/-- The parts of a path, with those that do not count. -/
def parts (path : String) : List (List Char) := path.toList.splitOn '/'

def isIgnored (part : List Char) : Bool := part.isEmpty || part == ['.']

/-- The name of the file that a path leads to: its last part, unless that leads upwards. -/
def fileName? (path : String) : Option (List Char) :=
  ((parts path).filter (!isIgnored ·)).getLast?.filter (· != ['.', '.'])

/-- What follows the last dot of a name, unless the name starts with it or has none. -/
def extensionOf? (name : List Char) : Option (List Char) :=
  let stem := (name.reverse.dropWhile (· != '.')).drop 1
  if stem.isEmpty then none else some (name.reverse.takeWhile (· != '.')).reverse

def extension? (path : String) : Option (List Char) := (fileName? path).bind extensionOf?

def endsInSlash (path : String) : Bool := path.toList.getLast? == some '/'

def isAbsolute (path : String) : Bool := path.toList.head? == some '/'

end PropertyTemplate.Path
