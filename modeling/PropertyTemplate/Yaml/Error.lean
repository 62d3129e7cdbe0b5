/-! # Failures of reading YAML

Each constructor is one cause for which a text is not a YAML document, or not one that can be read.
-/

namespace PropertyTemplate.Yaml

inductive Error
  | forbiddenCharacter
  | unexpectedCharacter
  | unfinishedKey
  | misplacedEntry
  | misplacedKey
  | misplacedValue
  | ambiguousColon
  | unterminatedQuote
  | documentMarkInQuote
  | badEscape
  | tabIndentation
  | badBlockHeader
  | badDirective
  | duplicateDirective
  | unsupportedVersion
  | badTag
  | undefinedTagHandle
  | badAnchor
  | unexpectedToken
  | secondDocument
  | unknownAlias
  | mistypedScalar
  | integerOutOfRange
  | duplicateKey
  | nestedTooDeeply
  | tooManyAliases
  deriving DecidableEq, Repr

namespace Error

def message : Error → String
  | forbiddenCharacter => "control characters are not allowed"
  | unexpectedCharacter => "a character cannot start any token"
  | unfinishedKey => "a key is not followed by a colon"
  | misplacedEntry => "a sequence entry is not allowed here"
  | misplacedKey => "a mapping key is not allowed here"
  | misplacedValue => "a mapping value is not allowed here"
  | ambiguousColon => "a colon stands before a flow indicator"
  | unterminatedQuote => "a quoted scalar is not closed"
  | documentMarkInQuote => "a quoted scalar holds a document mark"
  | badEscape => "an escape sequence is not valid"
  | tabIndentation => "a tab stands in the indentation"
  | badBlockHeader => "the header of a block scalar is not valid"
  | badDirective => "a directive is not valid"
  | duplicateDirective => "a directive is given twice"
  | unsupportedVersion => "the version of YAML is not supported"
  | badTag => "a tag is not valid"
  | undefinedTagHandle => "the handle of a tag is not defined"
  | badAnchor => "an anchor is not valid"
  | unexpectedToken => "a token is not expected here"
  | secondDocument => "there is more than one document"
  | unknownAlias => "an alias has no anchor"
  | mistypedScalar => "a scalar does not have the type of its tag"
  | integerOutOfRange => "an integer is out of range"
  | duplicateKey => "a mapping has a key twice"
  | nestedTooDeeply => "collections are nested too deeply"
  | tooManyAliases => "aliases repeat too much content"

end Error

end PropertyTemplate.Yaml
