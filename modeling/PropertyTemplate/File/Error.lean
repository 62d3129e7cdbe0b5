/-! # Failures of reading and writing files -/

namespace PropertyTemplate

inductive FileError
  | notFound
  | notADirectory
  | isADirectory
  | nameTooLong
  | nullInName
  | notUtf8
  | other (text : String)
  deriving DecidableEq, Repr

def FileError.message : FileError → String
  | notFound => "No such file or directory (os error 2)"
  | notADirectory => "Not a directory (os error 20)"
  | isADirectory => "Is a directory (os error 21)"
  | nameTooLong => "File name too long (os error 36)"
  | nullInName => "file name contained an unexpected NUL byte"
  | notUtf8 => "stream did not contain valid UTF-8"
  | other text => text

end PropertyTemplate
