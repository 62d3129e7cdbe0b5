import PropertyTemplate.File.Path
import PropertyTemplate.PropertyFile.Document
import PropertyTemplate.Yaml.Document

/-! # Formats of property files

The format of a file is known by the extension of its name alone.
-/

namespace PropertyTemplate

inductive Format
  | properties
  | yaml
  deriving DecidableEq, Repr

inductive DecodeError
  | properties (cause : PropertyFile.Error)
  | yaml (cause : Yaml.Error)
  deriving DecidableEq, Repr

def DecodeError.message : DecodeError → String
  | properties cause => "properties decoding failed: " ++ cause.message
  | yaml cause => "YAML decoding failed: " ++ cause.message

namespace Format

def ofExtension? (extension : List Char) : Option Format :=
  if extension == "properties".toList then some .properties
  else if extension == "yml".toList || extension == "yaml".toList then some .yaml
  else none

def ofPath? (path : String) : Option Format := (Path.extension? path).bind ofExtension?

def decode : Format → String → Except DecodeError Bindings
  | .properties, text =>
    match PropertyFile.properties text with
    | .ok bindings => .ok bindings
    | .error cause => .error (.properties cause)
  | .yaml, text =>
    match Yaml.properties text with
    | .ok bindings => .ok bindings
    | .error cause => .error (.yaml cause)

end Format

end PropertyTemplate
