import PropertyTemplate.Template.Delimiters
import PropertyTemplate.Text.Occurrence

/-! # Scanning a text for tokens

A scan goes through a text once and puts the handler's answer in place of every token. It is
defined over any alphabet, and in any monad, so that a handler may keep a record of its calls.
An escaped opening delimiter becomes the delimiter alone. A token that is never closed is left as
it is, with everything after it. The scan keeps a position, before which all of the text is
consumed, and an escape mark counts only if it is not consumed yet.
-/

namespace PropertyTemplate.Delimiters

open Text

variable {α : Type} [DecidableEq α] (d : Delimiters α)

/-- An escape mark stands directly before a position, and not before `consumed`. -/
def isEscaped (text : List α) (position consumed : Nat) : Bool :=
  decide (consumed < position) && decide (text[position - 1]? = some d.escape)

/-- The content of a token and where its closing delimiter stands, if the text is consumed up to a
position and `content` was read before it. Inside the content an escaped closing delimiter stands
for itself. -/
def readContent (text : List α) (position : Nat) (content : List α) : Option (List α × Nat) :=
  match _h : findFrom d.closing text position with
  | none => none
  | some stop =>
    if d.isEscaped text stop position then
      readContent text (stop + d.closing.length)
        (content ++ text.extract position (stop - 1) ++ d.closing)
    else some (content ++ text.extract position stop, stop)
termination_by text.length - position
decreasing_by
  have := bounds_of_findFrom _h
  have := List.length_pos_iff.2 d.closing_ne_nil
  omega

theorem bounds_of_readContent {text content read : List α} {position stop : Nat}
    (h : d.readContent text position content = some (read, stop)) :
    position ≤ stop ∧ stop + d.closing.length ≤ text.length := by
  fun_induction readContent d text position content with
  | case1 => simp at h
  | case2 position content found hfound _ ih =>
    have := bounds_of_findFrom hfound
    have := ih h
    omega
  | case3 position content found hfound _ =>
    simp only [Option.some.injEq, Prod.mk.injEq] at h
    obtain ⟨-, rfl⟩ := h
    exact bounds_of_findFrom hfound

/-- The scan of a text that is consumed up to a position, behind the output made so far. -/
def scanFrom {m : Type → Type} [Monad m] (handle : List α → m (List α)) (text : List α)
    (position : Nat) (output : List α) : m (List α) :=
  match _h : findFrom d.opening text position with
  | none => return output ++ text.drop position
  | some start =>
    if d.isEscaped text start position then
      scanFrom handle text (start + d.opening.length)
        (output ++ text.extract position (start - 1) ++ d.opening)
    else
      match _hc : d.readContent text (start + d.opening.length) [] with
      | none => return output ++ text.extract position start ++ text.drop start
      | some (content, stop) => do
        let value ← handle content
        scanFrom handle text (stop + d.closing.length)
          (output ++ text.extract position start ++ value)
termination_by text.length - position
decreasing_by
  · have := bounds_of_findFrom _h
    have := List.length_pos_iff.2 d.opening_ne_nil
    omega
  · have := bounds_of_findFrom _h
    have := d.bounds_of_readContent _hc
    have := List.length_pos_iff.2 d.opening_ne_nil
    omega

def scanM {m : Type → Type} [Monad m] (handle : List α → m (List α)) (text : List α) :
    m (List α) := d.scanFrom handle text 0 []

def scan (handle : List α → List α) (text : List α) : List α :=
  Id.run (d.scanM (fun content => pure (handle content)) text)

end PropertyTemplate.Delimiters
