import Mathlib.Data.List.Forall2
import PropertyTemplate.CommandLine.Arguments

/-! # Chunks of arguments

Arguments are chunks, each of which says one thing: an option with its value in one argument or in
two, a flag, or the template. Behind two hyphens every argument is the template. Arguments are
spelled in this way at most once.
-/

namespace PropertyTemplate.CommandLine

/-- One thing that arguments say. -/
inductive Item
  | value (field : Field) (text : String)
  | environment
  deriving DecidableEq, Repr

/-- The name of a field's option. The template has no option. -/
def Field.longName? : Field → Option String
  | .template => none
  | .propertyFile => some "properties"
  | .definition => some "define"
  | .output => some "output"

def Field.letter? : Field → Option Char
  | .template => none
  | .propertyFile => some 'p'
  | .definition => some 'D'
  | .output => some 'o'

def IsOperand (argument : String) : Prop :=
  ∀ letter rest, argument.toList ≠ '-' :: letter :: rest

/-- An argument that names the option of a field. -/
inductive Named : String → Field → Prop
  | long {field : Field} {name : String} : field.longName? = some name → Named ("--" ++ name) field
  | short {field : Field} {letter : Char} : field.letter? = some letter →
      Named (String.ofList ['-', letter]) field

inductive Chunk : List String → Item → Prop
  | separate {name value : String} {field : Field} : Named name field → IsOperand value →
      Chunk [name, value] (.value field value)
  | long {field : Field} {name value : String} : field.longName? = some name →
      Chunk ["--" ++ name ++ "=" ++ value] (.value field value)
  | short {field : Field} {letter c : Char} {rest : List Char} : field.letter? = some letter →
      c ≠ '=' → Chunk [String.ofList ('-' :: letter :: c :: rest)]
        (.value field (String.ofList (c :: rest)))
  | shortEquals {field : Field} {letter : Char} {value : String} : field.letter? = some letter →
      Chunk [String.ofList ['-', letter, '='] ++ value] (.value field value)
  | environment : Chunk ["--env"] .environment
  | template {value : String} : IsOperand value → Chunk [value] (.value .template value)

/-- Arguments that say several things, without two hyphens alone among them or with them. -/
inductive Spelled : Bool → List String → List Item → Prop
  | options {chunks : List (List String)} {items : List Item} : List.Forall₂ Chunk chunks items →
      Spelled false chunks.flatten items
  | operands {chunks : List (List String)} {items : List Item} (values : List String) :
      List.Forall₂ Chunk chunks items →
      Spelled true (chunks.flatten ++ "--" :: values) (items ++ values.map (.value .template))

variable {argument value : String} {arguments chunk rest : List String} {items : List Item}
  {item : Item} {field : Field} {only : Bool}

namespace Spelled

theorem nil : Spelled false [] [] := options .nil

theorem snoc (h : Spelled false arguments items) (hchunk : Chunk chunk item) :
    Spelled false (arguments ++ chunk) (items ++ [item]) := by
  cases h with
  | @options chunks _ hchunks =>
    have h := options (List.rel_append hchunks (.cons hchunk .nil))
    simpa using h

theorem hyphens (h : Spelled false arguments items) : Spelled true (arguments ++ ["--"]) items := by
  cases h with
  | options hchunks => simpa using operands [] hchunks

theorem operand (h : Spelled true arguments items) (value : String) :
    Spelled true (arguments ++ [value]) (items ++ [.value .template value]) := by
  cases h with
  | operands values hchunks => simpa using operands (values ++ [value]) hchunks

end Spelled

section Unique

def option? (argument : String) : Option (Field × Option String) :=
  match argument.toList with
  | '-' :: '-' :: option =>
    let attached := (option.dropWhile (· != '=')).tail?.map String.ofList
    match String.ofList (option.takeWhile (· != '=')) with
    | "properties" => some (.propertyFile, attached)
    | "define" => some (.definition, attached)
    | "output" => some (.output, attached)
    | _ => none
  | '-' :: letter :: rest =>
    let attached := Progress.attachedValue? rest
    match letter with
    | 'p' => some (.propertyFile, attached)
    | 'D' => some (.definition, attached)
    | 'o' => some (.output, attached)
    | _ => none
  | _ => none

/-- The first thing that arguments say, and the arguments behind it. -/
def firstItem? : List String → Option (Item × List String)
  | [] => none
  | argument :: rest =>
    if argument = "--" then none
    else if argument = "--env" then some (.environment, rest)
    else
      match option? argument, rest with
      | none, rest => some (.value .template argument, rest)
      | some (field, some value), rest => some (.value field value, rest)
      | some (field, none), value :: rest => some (.value field value, rest)
      | some (_, none), [] => none

theorem option?_of_isOperand (h : IsOperand argument) : option? argument = none := by
  unfold option?
  split
  · rename_i hargument
    exact absurd hargument (h _ _)
  · rename_i hargument
    exact absurd hargument (h _ _)
  · rfl

theorem option?_of_named (h : Named argument field) : option? argument = some (field, none) := by
  cases h with
  | long hname => cases field <;> cases hname <;> simp [option?]
  | short hletter => cases field <;> cases hletter <;> simp [option?, Progress.attachedValue?]

theorem option?_long {name : String} (h : field.longName? = some name) :
    option? ("--" ++ name ++ "=" ++ value) = some (field, some value) := by
  cases field <;> cases h <;> simp [option?]

theorem option?_short {letter c : Char} {rest : List Char} (h : field.letter? = some letter)
    (hc : c ≠ '=') : option? (String.ofList ('-' :: letter :: c :: rest)) =
      some (field, some (String.ofList (c :: rest))) := by
  cases field <;> cases h <;> simp [option?, Progress.attachedValue?, hc]

theorem option?_shortEquals {letter : Char} (h : field.letter? = some letter) :
    option? (String.ofList ['-', letter, '='] ++ value) = some (field, some value) := by
  cases field <;> cases h <;> simp [option?, Progress.attachedValue?]

theorem firstItem?_of_option?_eq_some {attached : Option String}
    (h : option? argument = some (field, attached)) :
    firstItem? (argument :: rest) =
      match attached, rest with
      | some value, rest => some (.value field value, rest)
      | none, value :: rest => some (.value field value, rest)
      | none, [] => none := by
  have hhyphens : argument ≠ "--" := by
    rintro rfl
    simp [option?] at h
  have henv : argument ≠ "--env" := by
    rintro rfl
    simp [option?] at h
  unfold firstItem?
  simp only [hhyphens, henv, if_false, h]
  cases attached <;> cases rest <;> rfl

theorem Chunk.firstItem?_append (h : Chunk chunk item) :
    firstItem? (chunk ++ rest) = some (item, rest) := by
  cases h with
  | separate hnamed hvalue => exact firstItem?_of_option?_eq_some (option?_of_named hnamed)
  | long hname => exact firstItem?_of_option?_eq_some (option?_long hname)
  | short hletter hc => exact firstItem?_of_option?_eq_some (option?_short hletter hc)
  | shortEquals hletter => exact firstItem?_of_option?_eq_some (option?_shortEquals hletter)
  | environment => simp [firstItem?]
  | @template value hvalue =>
    have hhyphens : value ≠ "--" := by
      rintro rfl
      exact hvalue '-' [] (by simp)
    have henv : value ≠ "--env" := by
      rintro rfl
      exact hvalue '-' ['e', 'n', 'v'] (by simp)
    simp [firstItem?, hhyphens, henv, option?_of_isOperand hvalue]

/-- Chunks are read off one by one, up to arguments that say nothing. -/
theorem chunks_unique {chunks chunks' : List (List String)} {items' : List Item}
    {rest rest' : List String} (h : List.Forall₂ Chunk chunks items)
    (h' : List.Forall₂ Chunk chunks' items') (hrest : firstItem? rest = none)
    (hrest' : firstItem? rest' = none) (heq : chunks.flatten ++ rest = chunks'.flatten ++ rest') :
    items = items' ∧ rest = rest' := by
  induction h generalizing chunks' items' with
  | nil =>
    cases h' with
    | nil => exact ⟨rfl, heq⟩
    | cons hchunk' _ =>
      simp only [List.flatten_nil, List.nil_append, List.flatten_cons, List.append_assoc] at heq
      rw [heq, hchunk'.firstItem?_append] at hrest
      cases hrest
  | cons hchunk _ ih =>
    rw [List.flatten_cons, List.append_assoc] at heq
    cases h' with
    | nil =>
      simp only [List.flatten_nil, List.nil_append] at heq
      rw [← heq, hchunk.firstItem?_append] at hrest'
      cases hrest'
    | cons hchunk' hchunks' =>
      rw [List.flatten_cons, List.append_assoc] at heq
      have hfirst := congrArg firstItem? heq
      rw [hchunk.firstItem?_append, hchunk'.firstItem?_append] at hfirst
      obtain ⟨rfl, htail⟩ := Prod.mk.injEq .. ▸ Option.some.inj hfirst
      obtain ⟨rfl, hrests⟩ := ih hchunks' htail
      exact ⟨rfl, hrests⟩

theorem Spelled.exists_chunks (h : Spelled only arguments items) :
    ∃ chunks said rest, List.Forall₂ Chunk chunks said ∧ firstItem? rest = none ∧
      arguments = chunks.flatten ++ rest ∧ items = said ++ rest.tail.map (.value .template) := by
  cases h with
  | options hchunks => exact ⟨_, _, [], hchunks, rfl, by simp, by simp⟩
  | operands values hchunks => exact ⟨_, _, "--" :: values, hchunks, rfl, rfl, rfl⟩

theorem Spelled.unique {only' : Bool} {items' : List Item} (h : Spelled only arguments items)
    (h' : Spelled only' arguments items') : items = items' := by
  obtain ⟨chunks, said, rest, hchunks, hrest, heq, rfl⟩ := h.exists_chunks
  obtain ⟨chunks', said', rest', hchunks', hrest', heq', rfl⟩ := h'.exists_chunks
  obtain ⟨rfl, rfl⟩ := chunks_unique hchunks hchunks' hrest hrest' (heq.symm.trans heq')
  rfl

end Unique

end PropertyTemplate.CommandLine
