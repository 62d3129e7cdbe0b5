import PropertyTemplate.CommandLine.Run

/-! # The program -/

open PropertyTemplate

namespace Process

/-- The number and the text of a failure of the system. -/
def codeAndDetails : IO.Error → Option (UInt32 × String)
  | .alreadyExists _ code details | .otherError code details | .resourceBusy code details
  | .resourceVanished code details | .unsupportedOperation code details
  | .hardwareFault code details | .unsatisfiedConstraints code details
  | .illegalOperation code details | .protocolError code details | .timeExpired code details
  | .interrupted _ code details | .noFileOrDirectory _ code details
  | .invalidArgument _ code details | .permissionDenied _ code details
  | .resourceExhausted _ code details | .inappropriateType _ code details
  | .noSuchThing _ code details => some (code, details)
  | _ => none

def fileError (e : IO.Error) : FileError :=
  match codeAndDetails e with
  | some (2, _) => .notFound
  | some (20, _) => .notADirectory
  | some (21, _) => .isADirectory
  | some (36, _) => .nameTooLong
  | some (code, details) => .other (details ++ " (os error " ++ toString code ++ ")")
  | none => .other (toString e)

def attempt {α : Type} (action : IO α) : IO (Except FileError α) := do
  try return .ok (← action)
  catch e => return .error (fileError e)

/-- The variables of this process, as the system lists them. -/
def environment : IO Environment := do
  return .ofListing (← IO.FS.readBinFile "/proc/self/environ").toList

def readAll (input : IO.FS.Stream) : IO ByteArray := do
  let mut bytes : ByteArray := .empty
  repeat
    let chunk ← input.read 65536
    if chunk.isEmpty then break
    bytes := bytes ++ chunk
  return bytes

def host : Host IO where
  fileContent path := attempt (IO.FS.readBinFile path)
  replaceFile path text := attempt (IO.FS.writeBinFile path text.toUTF8)
  readInput := attempt do readAll (← IO.getStdin)
  environment := environment
  writeOutput text := attempt do
    let output ← IO.getStdout
    output.putStr text
    output.flush
  page := UsageError.message

end Process

def main (arguments : List String) : IO UInt32 := do
  let exit ← execute Process.host arguments
  (← IO.getStderr).putStr exit.report
  return exit.code
