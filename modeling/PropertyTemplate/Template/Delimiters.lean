/-! # Delimiters

A token stands between an opening and a closing delimiter, neither of them empty, and an escape
mark directly before a delimiter makes it ordinary text.
-/

namespace PropertyTemplate

inductive DelimiterError
  | emptyOpening
  | emptyClosing
  deriving DecidableEq, Repr

namespace DelimiterError

def message : DelimiterError → String
  | emptyOpening => "open delimiter must not be empty"
  | emptyClosing => "close delimiter must not be empty"

end DelimiterError

/-- The delimiters of tokens over an alphabet. -/
structure Delimiters (α : Type) where
  opening : List α
  closing : List α
  escape : α
  opening_ne_nil : opening ≠ []
  closing_ne_nil : closing ≠ []

namespace Delimiters

/-- Delimiters with a backslash for the escape mark; the opening one is judged first. -/
def ofTexts (opening closing : String) : Except DelimiterError (Delimiters Char) :=
  if ho : opening.toList = [] then .error .emptyOpening
  else if hc : closing.toList = [] then .error .emptyClosing
  else .ok ⟨opening.toList, closing.toList, '\\', ho, hc⟩

def placeholder : Delimiters Char where
  opening := ['$', '{']
  closing := ['}']
  escape := '\\'
  opening_ne_nil := by simp
  closing_ne_nil := by simp

end Delimiters

end PropertyTemplate
