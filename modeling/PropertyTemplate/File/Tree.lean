import PropertyTemplate.File.Error
import PropertyTemplate.File.Path

/-! # File trees

The files and directories below a working directory. A directory stands in the tree by itself or
because something lies in it. Nothing is known of what lies outside the working directory.
-/

namespace PropertyTemplate

inductive FileEntry
  | directory
  | file (content : ByteArray)
  deriving Inhabited

/-- Files and directories, with their places below the working directory. -/
structure FileTree where
  entries : List (List (List Char) × FileEntry)

namespace FileTree

/-- The parts of a path below the working directory. -/
def placeOf (path : String) : List (List Char) := (Path.parts path).filter (!Path.isIgnored ·)

def ofList (entries : List (String × FileEntry)) : FileTree :=
  ⟨entries.map fun (path, entry) => (placeOf path, entry)⟩

def entry? (t : FileTree) (place : List (List Char)) : Option FileEntry :=
  match t.entries.lookup place with
  | some entry => some entry
  | none =>
    if place.isEmpty || t.entries.any (fun e => place.isPrefixOf e.1) then some .directory else none

inductive Location
  | outside
  | place (names : List (List Char))
  deriving DecidableEq

namespace Location

def entry? (t : FileTree) : Location → Option FileEntry
  | outside => some .directory
  | place names => t.entry? names

def parent : Location → Location
  | outside => outside
  | place names => if names.isEmpty then outside else place names.dropLast

def child : Location → List Char → Option Location
  | outside, _ => none
  | place names, name => some (place (names ++ [name]))

end Location

def nameLimit : Nat := 255

def pathLimit : Nat := 4095

def isTooLong (name : List Char) : Bool := nameLimit < (String.ofList name).utf8ByteSize

/-- Something lies at a location that is no directory, or nothing does. -/
def requireDirectory (t : FileTree) (location : Location) : Except FileError Unit :=
  match location.entry? t with
  | some .directory => .ok ()
  | some (.file _) => .error .notADirectory
  | none => .error .notFound

/-- The location that parts lead to from another one. What they lead to last need not exist. -/
def walk (t : FileTree) (location : Location) : List (List Char) → Except FileError Location
  | [] => .ok location
  | part :: rest => do
    t.requireDirectory location
    if part == ['.'] then t.walk location rest
    else if part == ['.', '.'] then t.walk location.parent rest
    else if isTooLong part then throw .nameTooLong
    else
      match location.child part with
      | none => throw .notFound
      | some next => t.walk next rest

/-- Where a path starts, and the parts to walk. -/
def start (path : String) : Except FileError (Location × List (List Char)) :=
  if path.toList.contains '\x00' then .error .nullInName
  else if path.isEmpty then .error .notFound
  else if pathLimit < path.utf8ByteSize then .error .nameTooLong
  else .ok (if Path.isAbsolute path then .outside else .place [],
    (Path.parts path).filter (!·.isEmpty))

def read (t : FileTree) (path : String) : Except FileError ByteArray := do
  let (location, parts) ← start path
  let location ← t.walk location parts
  match location.entry? t with
  | none => throw .notFound
  | some .directory => throw .isADirectory
  | some (.file content) =>
    if Path.endsInSlash path then throw .notADirectory else return content

/-- The tree with a file at a path, whatever the file held before. -/
def write (t : FileTree) (path : String) (content : ByteArray) : Except FileError FileTree := do
  let (location, parts) ← start path
  let last := parts.getLast?
  let parent ← t.walk location parts.dropLast
  t.requireDirectory parent
  match last with
  | none => throw .isADirectory
  | some name =>
    if name == ['.'] || name == ['.', '.'] || Path.endsInSlash path then throw .isADirectory
    else if isTooLong name then throw .nameTooLong
    else
      match parent.child name with
      | none | some .outside => throw .notFound
      | some (.place place) =>
        match t.entry? place with
        | some .directory => throw .isADirectory
        | _ => return ⟨(place, .file content) :: t.entries.filter (·.1 != place)⟩

end FileTree

end PropertyTemplate
