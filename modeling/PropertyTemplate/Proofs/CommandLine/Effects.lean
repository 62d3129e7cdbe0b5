import PropertyTemplate.Proofs.CommandLine.Precedence
import PropertyTemplate.Proofs.File.Tree

/-! # What hosts change

Seen from outside, a state of a host has files at places, paths that lead to places, and the octets
that were written to standard output. Reading changes no state, and writing a file replaces its
whole content or changes nothing. A write to standard output can break off at any octet.
-/

namespace PropertyTemplate

variable {σ ι : Type}

/-- What is seen of the states of a host. A path that is an output names standard output, as
`/dev/stdout` does. -/
structure View (σ ι : Type) where
  place? : σ → String → Option ι
  entry? : σ → ι → Option FileEntry
  output : σ → ByteArray
  IsOutput : String → Prop

structure Inputs where
  files : String → Except FileError ByteArray
  input : Except FileError ByteArray
  environment : Environment

namespace Host

def inputs (host : Host (StateM σ)) (state : σ) : Inputs where
  files path := ((host.fileContent path).run state).1
  input := (host.readInput.run state).1
  environment := (host.environment.run state).1

/-- The file that a path leads to has a new content, and all else is as before. -/
structure Replaced (host : Host (StateM σ)) (view : View σ ι) (state : σ) (path : String)
    (content : ByteArray) (after : σ) : Prop where
  files : (host.inputs after).files path = .ok content
  entry? : ∃ place, view.place? state path = some place ∧
    view.entry? after place = some (.file content) ∧
    ∀ other, other ≠ place → view.entry? after other = view.entry? state other
  output : view.output after = view.output state

/-- Octets were written to standard output, and all else is as before. -/
structure Printed (view : View σ ι) (state : σ) (octets : ByteArray) (after : σ) : Prop where
  entry? : view.entry? after = view.entry? state
  output : view.output after = view.output state ++ octets

/-- A beginning of a text was written to standard output, and all else is as before. -/
def BrokenOff (view : View σ ι) (state : σ) (text : String) (after : σ) : Prop :=
  ∃ written rest, written ++ rest = text.toUTF8 ∧ Printed view state written after

/-- What is assumed of a host. Only files are written as a whole or not at all. -/
structure Atomic (host : Host (StateM σ)) (view : View σ ι) : Prop where
  fileContent : ∀ path state, ((host.fileContent path).run state).2 = state
  readInput : ∀ state, (host.readInput.run state).2 = state
  environment : ∀ state, (host.environment.run state).2 = state
  replaceFile_error : ∀ {path text state cause after}, ¬ view.IsOutput path →
    (host.replaceFile path text).run state = (.error cause, after) → after = state
  replaceFile_ok : ∀ {path text state after}, ¬ view.IsOutput path →
    (host.replaceFile path text).run state = (.ok (), after) →
    host.Replaced view state path text.toUTF8 after
  replaceOutput_error : ∀ {path text state cause after}, view.IsOutput path →
    (host.replaceFile path text).run state = (.error cause, after) →
    BrokenOff view state text after
  replaceOutput_ok : ∀ {path text state after}, view.IsOutput path →
    (host.replaceFile path text).run state = (.ok (), after) →
    Printed view state text.toUTF8 after
  writeOutput_error : ∀ {text state cause after},
    (host.writeOutput text).run state = (.error cause, after) → BrokenOff view state text after
  writeOutput_ok : ∀ {text state after},
    (host.writeOutput text).run state = (.ok (), after) → Printed view state text.toUTF8 after

namespace Atomic

variable {host : Host (StateM σ)} {view : View σ ι}

theorem run_fileContent (h : host.Atomic view) (path : String) (state : σ) :
    (host.fileContent path).run state = ((host.inputs state).files path, state) :=
  Prod.ext rfl (h.fileContent path state)

theorem run_readInput (h : host.Atomic view) (state : σ) :
    host.readInput.run state = ((host.inputs state).input, state) :=
  Prod.ext rfl (h.readInput state)

theorem shows (h : host.Atomic view) (state : σ) :
    host.Shows state (host.inputs state).files (host.inputs state).environment :=
  ⟨fun path => h.run_fileContent path state, Prod.ext rfl (h.environment state)⟩

end Atomic

end Host

namespace Machine

/-- The files of a machine by their places in its tree. -/
def view : View Machine (List (List Char)) where
  place? machine path := machine.files.place? path
  entry? machine place := machine.files.entry? place
  output machine := machine.output.toUTF8
  IsOutput path := path ∈ outputPaths

theorem exists_accepted_append (room : Option Nat) (cs : List Char) :
    ∃ rest, accepted room cs ++ rest = cs := by
  cases room with
  | none => exact ⟨[], List.append_nil cs⟩
  | some n => exact ⟨cs.drop n, List.take_append_drop n cs⟩

section Print

variable {machine after : Machine} {text : String} {cause : FileError}

theorem printed_accepted {result : Except FileError Unit}
    (h : machine.print text = (result, after)) : Host.Printed view machine
      (String.ofList (accepted machine.room text.toList)).toUTF8 after := by
  obtain ⟨-, rfl⟩ := Prod.mk.inj h
  exact ⟨rfl, String.toByteArray_append⟩

theorem brokenOff_of_print {result : Except FileError Unit}
    (h : machine.print text = (result, after)) : Host.BrokenOff view machine text after := by
  obtain ⟨rest, hrest⟩ := exists_accepted_append machine.room text.toList
  refine ⟨_, (String.ofList rest).toUTF8, ?_, printed_accepted h⟩
  rw [String.toUTF8_eq_toByteArray, String.toUTF8_eq_toByteArray, ← String.toByteArray_append,
    ← String.ofList_append, hrest, String.ofList_toList, String.toUTF8_eq_toByteArray]

theorem printed_of_print (h : machine.print text = (.ok (), after)) :
    Host.Printed view machine text.toUTF8 after := by
  have hall : accepted machine.room text.toList = text.toList := by
    obtain ⟨rest, hrest⟩ := exists_accepted_append machine.room text.toList
    have hlength := congrArg List.length hrest
    obtain ⟨hresult, -⟩ := Prod.mk.inj h
    split at hresult
    · cases hresult
    · rw [List.length_append] at hlength
      obtain rfl := List.length_eq_zero_iff.1 (show rest.length = 0 by omega)
      exact (List.append_nil _).symm.trans hrest
  have hprinted := printed_accepted h
  rwa [hall, String.ofList_toList] at hprinted

end Print

theorem run_replaceFile_of_isOutput {path : String} (hpath : path ∈ outputPaths) (machine : Machine)
    (text : String) : (host.replaceFile path text).run machine = machine.print text :=
  if_pos hpath

theorem run_replaceFile {path : String} (hpath : path ∉ outputPaths) (machine : Machine)
    (text : String) : (host.replaceFile path text).run machine =
      match machine.files.write path text.toUTF8 with
      | .error cause => (.error cause, machine)
      | .ok files => (.ok (), { machine with files }) :=
  if_neg hpath

theorem atomic : host.Atomic view where
  fileContent _ _ := rfl
  readInput _ := rfl
  environment _ := rfl
  replaceFile_error {path text machine cause after} hpath h := by
    rw [run_replaceFile hpath] at h
    split at h <;> cases h
    rfl
  replaceFile_ok {path text machine after} hpath h := by
    rw [run_replaceFile hpath] at h
    split at h
    · cases h
    · rename_i files hwrite
      cases h
      exact ⟨FileTree.read_write hwrite, FileTree.entry?_write hwrite, rfl⟩
  replaceOutput_error hpath h := brokenOff_of_print (run_replaceFile_of_isOutput hpath .. ▸ h)
  replaceOutput_ok hpath h := printed_of_print (run_replaceFile_of_isOutput hpath .. ▸ h)
  writeOutput_error h := brokenOff_of_print h
  writeOutput_ok h := printed_of_print h

end Machine

end PropertyTemplate
