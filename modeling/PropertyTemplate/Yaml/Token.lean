/-! # Tokens

The tokens of a YAML text. Beside those that stand in the text there are three kinds that its
indentation stands for: the starts of block collections and the end of either.
-/

namespace PropertyTemplate.Yaml

/-- A token of a YAML text. Tags are kept as bytes, because escapes may spell any bytes. -/
inductive Token
  | versionDirective (major minor : Nat)
  | tagDirective (handle : List Char) (lead : List UInt8)
  | documentStart
  | documentEnd
  | blockSequenceStart
  | blockMappingStart
  | blockEnd
  | flowSequenceStart
  | flowSequenceEnd
  | flowMappingStart
  | flowMappingEnd
  | blockEntry
  | flowEntry
  | key
  | value
  | alias (name : List Char)
  | anchor (name : List Char)
  | tag (handle : List Char) (suffix : List UInt8)
  | scalar (plain : Bool) (text : List Char)
  deriving DecidableEq, Repr

end PropertyTemplate.Yaml
