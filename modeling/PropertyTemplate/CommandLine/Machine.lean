import PropertyTemplate.CommandLine.Run

/-! # Machines

A machine is a host that is a value: its files, its standard input, its environment, and a standard
output with what was written to it. The paths that name standard output lead to no file.
-/

namespace PropertyTemplate

/-- All that a run can read or change. If there is no limit to standard output, it has no `room`,
else `room` characters more can be written to it. -/
structure Machine where
  files : FileTree := ⟨[]⟩
  input : ByteArray := .empty
  environment : Environment := ⟨[]⟩
  output : String := ""
  room : Option Nat := none

namespace Machine

def accepted (room : Option Nat) (cs : List Char) : List Char :=
  match room with
  | none => cs
  | some n => cs.take n

def outputFull : FileError := .other "No space left on device (os error 28)"

/-- Writes as much of a text to standard output as there is room for. -/
def print (machine : Machine) (text : String) : Except FileError Unit × Machine :=
  let written := accepted machine.room text.toList
  (if written.length < text.toList.length then .error outputFull else .ok (),
    { machine with
      output := machine.output ++ String.ofList written
      room := machine.room.map (· - written.length) })

def outputPaths : List String := ["/dev/stdout", "/dev/fd/1", "/proc/self/fd/1"]

/-- A file is written as a whole, or the files stay as they are. -/
def host : Host (StateM Machine) where
  fileContent path := return (← get).files.read path
  replaceFile path text := modifyGet fun machine =>
    if path ∈ outputPaths then machine.print text
    else
      match machine.files.write path text.toUTF8 with
      | .error e => (.error e, machine)
      | .ok files => (.ok (), { machine with files })
  readInput := return .ok (← get).input
  environment := return (← get).environment
  writeOutput text := modifyGet fun machine => machine.print text
  page := UsageError.message

def execute (machine : Machine) (arguments : List String) : Exit × Machine :=
  (PropertyTemplate.execute host arguments).run machine

end Machine

end PropertyTemplate
