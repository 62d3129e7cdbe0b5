import PropertyTemplate.Placeholder.Resolver

/-! # Descriptions

A description shows how a resolver is set up, without the bindings of its store.
-/

namespace PropertyTemplate

/-- A character as it stands in a description, between double quotes. -/
def quotedChar (c : Char) : String :=
  match c with
  | '"' => "\\\""
  | '\\' => "\\\\"
  | '\n' => "\\n"
  | '\r' => "\\r"
  | '\t' => "\\t"
  | '\x00' => "\\0"
  | c => c.toString

def quotedText (s : String) : String :=
  "\"" ++ String.join (s.toList.map quotedChar) ++ "\""

def Policy.description (p : Policy) : String :=
  "ResolutionPolicy \x7b enable_default_value: " ++ toString p.defaultsEnabled
    ++ ", default_value_separator: " ++ quotedText p.separator ++ " \x7d"

namespace Resolver

def description (r : Resolver) : String :=
  "VariableResolver \x7b has_store: " ++ toString r.store.isSome ++ ", policy: "
    ++ r.policy.description ++ ", .. \x7d"

/-- The description of a resolver together with the delimiters of its placeholders. -/
def scanDescription (r : Resolver) : String :=
  "PlaceholderParser \x7b scanner: TokenScanner \x7b open: \"$\x7b\", close: \"\x7d\", handler: "
    ++ r.description ++ " \x7d \x7d"

end Resolver

end PropertyTemplate
