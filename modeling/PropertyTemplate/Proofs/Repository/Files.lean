import PropertyTemplate.Proofs.Outcome
import PropertyTemplate.Repository

/-! # Sources that files hold

Loading a property file reads it and decodes what it holds, and several are loaded one by one. What
is loaded from a path is named by the path, and binds what the decoder of its format reads. A path
from which nothing is loaded shows no format, cannot be read, or leads to a file that is not of its
format.
-/

namespace PropertyTemplate

theorem fromUTF8?_eq_some_iff {bytes : ByteArray} {text : String} :
    String.fromUTF8? bytes = some text ↔ bytes = text.toUTF8 := by
  unfold String.fromUTF8?
  split
  · rename_i h
    rw [Option.some.injEq, ← String.toByteArray_inj, String.toUTF8_eq_toByteArray]
    rfl
  · rename_i h
    simp only [reduceCtorEq, false_iff]
    rintro rfl
    exact h text.isValidUTF8

theorem decodeUtf8_eq_ok_iff {bytes : ByteArray} {text : String} :
    Text.decodeUtf8 bytes = .ok text ↔ bytes = text.toUTF8 := by
  rw [← fromUTF8?_eq_some_iff]
  unfold Text.decodeUtf8
  cases String.fromUTF8? bytes <;> simp

@[simp] theorem decodeUtf8_toByteArray (text : String) :
    Text.decodeUtf8 text.toByteArray = .ok text :=
  decodeUtf8_eq_ok_iff.2 String.toUTF8_eq_toByteArray.symm

theorem decodeUtf8_eq_error {content : ByteArray} {e : Text.Utf8Error}
    (h : Text.decodeUtf8 content = .error e) (text : String) : content ≠ text.toUTF8 := by
  intro heq
  rw [decodeUtf8_eq_ok_iff.2 heq] at h
  cases h

theorem exists_decodeUtf8_eq_error {content : ByteArray}
    (h : ∀ text : String, content ≠ text.toUTF8) : ∃ e, Text.decodeUtf8 content = .error e := by
  cases hcontent : Text.decodeUtf8 content with
  | error e => exact ⟨e, rfl⟩
  | ok text => exact absurd (decodeUtf8_eq_ok_iff.1 hcontent) (h text)

namespace Format

/-- The text holds the bindings, as the decoder of its format reads it. -/
inductive Decodes : Format → String → Bindings → Prop
  | properties {text : String} {bindings : Bindings} :
      PropertyFile.properties text = .ok bindings → Decodes properties text bindings
  | yaml {text : String} {bindings : Bindings} :
      Yaml.properties text = .ok bindings → Decodes yaml text bindings

/-- The decoder of its format rejects the text with a message. -/
inductive Rejects : Format → String → String → Prop
  | properties {text : String} {cause : PropertyFile.Error} :
      PropertyFile.properties text = .error cause →
      Rejects properties text ("properties decoding failed: " ++ cause.message)
  | yaml {text : String} {cause : Yaml.Error} : Yaml.properties text = .error cause →
      Rejects yaml text ("YAML decoding failed: " ++ cause.message)

variable {format : Format} {text message : String} {bindings : Bindings}

theorem decodes_or_rejects (format : Format) (text : String) :
    match format.decode text with
    | .ok bindings => format.Decodes text bindings
    | .error cause => format.Rejects text cause.message := by
  cases format with
  | properties =>
    cases h : PropertyFile.properties text with
    | ok bindings => simpa only [decode, h] using .properties h
    | error cause => simpa only [decode, h] using .properties h
  | yaml =>
    cases h : Yaml.properties text with
    | ok bindings => simpa only [decode, h] using .yaml h
    | error cause => simpa only [decode, h] using .yaml h

theorem decode_eq_ok_iff : format.decode text = .ok bindings ↔ format.Decodes text bindings := by
  constructor
  · intro h
    have hdecodes := decodes_or_rejects format text
    rwa [h] at hdecodes
  · intro h
    cases h with
    | properties h => simp only [decode, h]
    | yaml h => simp only [decode, h]

theorem decode_eq_error_iff :
    (∃ cause, format.decode text = .error cause ∧ cause.message = message) ↔
      format.Rejects text message := by
  constructor
  · rintro ⟨cause, h, rfl⟩
    have hrejects := decodes_or_rejects format text
    rwa [h] at hrejects
  · intro h
    cases h with
    | properties h => exact ⟨.properties _, by simp only [decode, h], rfl⟩
    | yaml h => exact ⟨.yaml _, by simp only [decode, h], rfl⟩

end Format

/-- The source that a path leads to among some files, or why it leads to none. -/
def fileSource (files : String → Except FileError ByteArray) (path : String) :
    Except LoadError Source :=
  match Format.ofPath? path with
  | none => .error (.unsupportedFormat path)
  | some format => Source.ofFile path format (files path)

/-- A property file holds a source, whose name is the last part of the path. -/
structure HoldsSource (files : String → Except FileError ByteArray) (path : String)
    (source : Source) : Prop where
  content : ∃ format text, Format.ofPath? path = some format ∧ files path = .ok text.toUTF8 ∧
    format.Decodes text source.bindings
  name : Path.fileName? path = some source.name.toList

variable {files : String → Except FileError ByteArray} {path : String} {source : Source}

theorem exists_fileName_of_format {format : Format} (h : Format.ofPath? path = some format) :
    ∃ name, Path.fileName? path = some name := by
  obtain ⟨_, hextension, -⟩ := Option.bind_eq_some_iff.1 h
  obtain ⟨name, hname, -⟩ := Option.bind_eq_some_iff.1 hextension
  exact ⟨name, hname⟩

theorem holdsSource_of_fileSource (h : fileSource files path = .ok source) :
    HoldsSource files path source := by
  unfold fileSource at h
  split at h
  · cases h
  · rename_i format hformat
    obtain ⟨name, hname⟩ := exists_fileName_of_format hformat
    unfold Source.ofFile at h
    split at h
    · cases h
    · cases h
    · rename_i bytes hbytes
      split at h
      · cases h
      · rename_i text htext
        obtain rfl := decodeUtf8_eq_ok_iff.1 htext
        split at h
        · cases h
        · rename_i bindings hdecode
          obtain rfl := Except.ok.inj h
          exact ⟨⟨format, text, hformat, hbytes, Format.decode_eq_ok_iff.1 hdecode⟩,
            by simp [hname]⟩

theorem fileSource_eq_ok_iff :
    fileSource files path = .ok source ↔ HoldsSource files path source := by
  constructor
  · exact holdsSource_of_fileSource
  · rintro ⟨⟨format, text, hformat, hbytes, hdecode⟩, hname⟩
    simp [fileSource, Source.ofFile, hformat, hbytes, Format.decode_eq_ok_iff.2 hdecode, hname]

/-- Why no source is loaded from a path: the first of these that holds. -/
inductive Unloadable (files : String → Except FileError ByteArray) (path : String) :
    LoadError → Prop
  | unsupported : Format.ofPath? path = none → Unloadable files path (.unsupportedFormat path)
  | missing {format : Format} : Format.ofPath? path = some format →
      files path = .error .notFound → Unloadable files path (.notFound path)
  | unreadable {format : Format} {cause : FileError} : Format.ofPath? path = some format →
      files path = .error cause → cause ≠ .notFound → Unloadable files path (.io cause)
  | notUtf8 {format : Format} {content : ByteArray} : Format.ofPath? path = some format →
      files path = .ok content → (∀ text : String, content ≠ text.toUTF8) →
      Unloadable files path (.io .notUtf8)
  | malformed {format : Format} {text message : String} : Format.ofPath? path = some format →
      files path = .ok text.toUTF8 → format.Rejects text message →
      Unloadable files path (.parse path message)

theorem fileSource_eq_error_iff {e : LoadError} :
    fileSource files path = .error e ↔ Unloadable files path e := by
  constructor
  · intro h
    unfold fileSource at h
    split at h
    · rename_i hformat
      cases h
      exact .unsupported hformat
    · rename_i format hformat
      unfold Source.ofFile at h
      split at h
      · rename_i hfile
        cases h
        exact .missing hformat hfile
      · rename_i cause hcause hfile
        cases h
        exact .unreadable hformat hfile hcause
      · rename_i content hfile
        split at h
        · rename_i hcontent
          cases h
          exact .notUtf8 hformat hfile (decodeUtf8_eq_error hcontent)
        · rename_i text htext
          obtain rfl := decodeUtf8_eq_ok_iff.1 htext
          split at h
          · rename_i cause hdecode
            cases h
            exact .malformed hformat hfile (Format.decode_eq_error_iff.1 ⟨cause, hdecode, rfl⟩)
          · cases h
  · intro h
    cases h with
    | unsupported hformat => simp [fileSource, hformat]
    | missing hformat hfile => simp [fileSource, Source.ofFile, hformat, hfile]
    | unreadable hformat hfile hcause => simp [fileSource, Source.ofFile, hformat, hfile]
    | notUtf8 hformat hfile htext =>
      obtain ⟨e, he⟩ := exists_decodeUtf8_eq_error htext
      simp [fileSource, Source.ofFile, hformat, hfile, he]
    | malformed hformat hfile hrejects =>
      obtain ⟨cause, hdecode, rfl⟩ := Format.decode_eq_error_iff.2 hrejects
      simp [fileSource, Source.ofFile, hformat, hfile, hdecode]

section Load

variable {σ : Type} {read : String → StateM σ (Except FileError ByteArray)} {s : σ}
  {repository : Repository (StateM σ)} {loaded : String → Except LoadError Source}

theorem run_load (hread : (read path).run s = (files path, s)) :
    ((Repository.ofFiles read).load path).run s = (fileSource files path, s) := by
  cases hformat : Format.ofPath? path with
  | none =>
    simp only [Repository.ofFiles, fileSource, hformat]
    rfl
  | some format =>
    simp only [Repository.ofFiles, fileSource, hformat, StateT.run_bind, hread]
    rfl

theorem run_loadSources (hload : ∀ path, (repository.load path).run s = (loaded path, s))
    (paths : List String) : (repository.loadSources paths).run s = (paths.mapM loaded, s) := by
  induction paths with
  | nil => rfl
  | cons path paths ih =>
    rw [Repository.loadSources, List.mapM_cons, StateT.run_bind, hload path]
    cases loaded path with
    | error e => rfl
    | ok source =>
      refine (StateT.run_bind ..).trans ?_
      rw [ih]
      cases paths.mapM loaded with
      | error e => rfl
      | ok sources => rfl

end Load

theorem mapM_fileSource_eq_ok_iff {paths : List String} {sources : List Source} :
    paths.mapM (fileSource files) = .ok sources ↔
      List.Forall₂ (HoldsSource files) paths sources := by
  simp only [mapM_eq_ok, fileSource_eq_ok_iff]

theorem mapM_fileSource_eq_error_iff {paths : List String} {e : LoadError} :
    paths.mapM (fileSource files) = .error e ↔ ∃ front path back, paths = front ++ path :: back ∧
      (∀ earlier ∈ front, ∃ source, HoldsSource files earlier source) ∧ Unloadable files path e := by
  simp only [mapM_eq_error, fileSource_eq_ok_iff, fileSource_eq_error_iff]

theorem exists_holdsSource {paths : List String} {sources : List Source}
    (h : List.Forall₂ (HoldsSource files) paths sources) (hpath : path ∈ paths) :
    ∃ source, HoldsSource files path source := by
  induction h with
  | nil => cases hpath
  | cons hsource _ ih =>
    rcases List.mem_cons.1 hpath with rfl | hpath
    · exact ⟨_, hsource⟩
    · exact ih hpath

theorem HoldsSource.not_unloadable {e : LoadError} (h : HoldsSource files path source) :
    ¬ Unloadable files path e := by
  rw [← fileSource_eq_error_iff, fileSource_eq_ok_iff.2 h]
  exact nofun

end PropertyTemplate
