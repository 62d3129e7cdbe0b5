import PropertyTemplate.Yaml.Node.OfTokens
import PropertyTemplate.Yaml.Token.Reader
import PropertyTemplate.Yaml.Value.Flatten
import PropertyTemplate.Yaml.Value.OfNode

/-! # Documents

A text holds one YAML document, whose scalars are read as properties.
-/

namespace PropertyTemplate.Yaml

/-- The value of the only document of a text; a text without one is null. -/
def Value.ofText (text : String) : Except Error Value := do
  Value.ofDocument (← Node.ofTokens (← Token.ofText text.toList))

def properties (text : String) : Except Error Bindings := do
  return (← Value.ofText text).flatten none .empty

end PropertyTemplate.Yaml
