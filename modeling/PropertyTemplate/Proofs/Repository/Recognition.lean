import PropertyTemplate.Proofs.File.Path
import PropertyTemplate.Proofs.Repository.Files

/-! # Recognising property files

The last component of a path alone says whether the path is that of a property file, and of which
format. If it is, what reading the file gives decides between a source and the ways to fail; if not,
the file is not even read.
-/

namespace PropertyTemplate

namespace Format

def extensions : Format → List String
  | properties => ["properties"]
  | yaml => ["yml", "yaml"]

/-- The last component of a path is a name with an extension of the format. -/
structure ShownBy (format : Format) (path : String) (name : List Char) : Prop where
  last : Path.LastComponent path name
  ne_dots : name ≠ ['.', '.']
  extension : ∃ stem extension, Path.Splits name stem extension ∧
    String.ofList extension ∈ format.extensions

variable {format format' : Format} {path : String} {name name' extension : List Char}

theorem ofExtension?_eq_some_iff :
    ofExtension? extension = some format ↔ String.ofList extension ∈ format.extensions := by
  have heq : ∀ text : String,
      (extension == text.toList) = decide (String.ofList extension = text) := by
    intro text
    rw [Bool.eq_iff_iff, beq_iff_eq, decide_eq_true_iff, ← String.toList_inj, String.toList_ofList]
  simp only [ofExtension?, heq]
  generalize String.ofList extension = text
  cases format <;> grind [extensions]

theorem ofPath?_eq_some_iff : ofPath? path = some format ↔ ∃ name, format.ShownBy path name := by
  rw [ofPath?, Option.bind_eq_some_iff]
  simp only [Path.extension?_eq_some_iff, ofExtension?_eq_some_iff]
  constructor
  · rintro ⟨extension, ⟨name, stem, hlast, hdots, hsplits⟩, hmem⟩
    exact ⟨name, hlast, hdots, stem, extension, hsplits, hmem⟩
  · rintro ⟨name, hlast, hdots, stem, extension, hsplits, hmem⟩
    exact ⟨extension, ⟨name, stem, hlast, hdots, hsplits⟩, hmem⟩

/-- A name without a stem shows no format; dots and slashes behind a name do not hide it. -/
example : ofPath? "conf/a.b.yml/.//" = some .yaml ∧ ofPath? "conf/.yml" = none := by decide

theorem ShownBy.unique (h : format.ShownBy path name) (h' : format'.ShownBy path name') :
    format' = format ∧ name' = name := by
  refine ⟨?_, h'.last.unique h.last⟩
  exact Option.some.inj ((ofPath?_eq_some_iff.2 ⟨_, h'⟩).symm.trans (ofPath?_eq_some_iff.2 ⟨_, h⟩))

end Format

/-- What is loaded from a property file, by what reading it gave. -/
structure LoadOutcome (path : String) (format : Format) (name : List Char)
    (content : Except FileError ByteArray) (result : Except LoadError Source) : Prop where
  notFound_iff : ∀ missing,
    result = .error (.notFound missing) ↔ missing = path ∧ content = .error .notFound
  io_iff : ∀ cause, result = .error (.io cause) ↔
    content = .error cause ∧ cause ≠ .notFound ∨
    cause = .notUtf8 ∧ ∃ bytes, content = .ok bytes ∧ ∀ text : String, bytes ≠ text.toUTF8
  parse_iff : ∀ malformed message, result = .error (.parse malformed message) ↔
    malformed = path ∧ ∃ text : String, content = .ok text.toUTF8 ∧ format.Rejects text message
  ok_iff : ∀ source, result = .ok source ↔
    source.name = String.ofList name ∧ ∃ text : String, content = .ok text.toUTF8 ∧
      format.Decodes text source.bindings
  supported : ∀ unsupported, result ≠ .error (.unsupportedFormat unsupported)

section Load

variable {path : String} {format : Format} {name : List Char}

theorem loadOutcome_ofFile (hformat : Format.ofPath? path = some format)
    (hname : Path.fileName? path = some name) (content : Except FileError ByteArray) :
    LoadOutcome path format name content (Source.ofFile path format content) := by
  have hsource : Source.ofFile path format content = fileSource (fun _ => content) path := by
    simp only [fileSource, hformat]
  have hother : ∀ {other}, Format.ofPath? path = some other → other = format := fun h =>
    Option.some.inj (h.symm.trans hformat)
  rw [hsource]
  constructor
  · intro missing
    rw [fileSource_eq_error_iff]
    constructor
    · intro h
      cases h with
      | missing _ hcontent => exact ⟨rfl, hcontent⟩
    · rintro ⟨rfl, hcontent⟩
      exact .missing hformat hcontent
  · intro cause
    rw [fileSource_eq_error_iff]
    constructor
    · intro h
      cases h with
      | unreadable _ hcontent hcause => exact .inl ⟨hcontent, hcause⟩
      | notUtf8 _ hcontent htext => exact .inr ⟨rfl, _, hcontent, htext⟩
    · rintro (⟨hcontent, hcause⟩ | ⟨rfl, bytes, hcontent, htext⟩)
      · exact .unreadable hformat hcontent hcause
      · exact .notUtf8 hformat hcontent htext
  · intro malformed message
    rw [fileSource_eq_error_iff]
    constructor
    · intro h
      cases h with
      | malformed hshown hcontent hrejects =>
        exact ⟨rfl, _, hcontent, hother hshown ▸ hrejects⟩
    · rintro ⟨rfl, text, hcontent, hrejects⟩
      exact .malformed hformat hcontent hrejects
  · intro source
    rw [fileSource_eq_ok_iff]
    constructor
    · rintro ⟨⟨other, text, hshown, hcontent, hdecode⟩, hlast⟩
      refine ⟨?_, text, hcontent, hother hshown ▸ hdecode⟩
      rw [Option.some.inj (hname.symm.trans hlast), String.ofList_toList]
    · rintro ⟨hsource, text, hcontent, hdecode⟩
      refine ⟨⟨format, text, hformat, hcontent, hdecode⟩, ?_⟩
      rw [hname, hsource, String.toList_ofList]
  · intro unsupported h
    cases fileSource_eq_error_iff.1 h with
    | unsupported hnone => rw [hformat] at hnone; cases hnone

/-- A path whose last component shows no format is not read. Otherwise the file is read once, and
what that gave decides the outcome; the source has the name of the last component. -/
theorem load_by_last_component (path : String) :
    (¬ (∃ format name, Format.ShownBy format path name) ∧ Format.ofPath? path = none ∧
      ∀ {m : Type → Type} [Monad m] (read : String → m (Except FileError ByteArray)),
        (Repository.ofFiles read).load path = pure (.error (.unsupportedFormat path))) ∨
    ∃ format name outcome, Format.ShownBy format path name ∧
      (∀ format' name', Format.ShownBy format' path name' → format' = format ∧ name' = name) ∧
      Format.ofPath? path = some format ∧ Path.fileName? path = some name ∧
      (∀ content, LoadOutcome path format name content (outcome content)) ∧
      ∀ {m : Type → Type} [Monad m] [LawfulMonad m]
        (read : String → m (Except FileError ByteArray)),
        (Repository.ofFiles read).load path = outcome <$> read path := by
  cases hformat : Format.ofPath? path with
  | none =>
    refine .inl ⟨?_, rfl, ?_⟩
    · rintro ⟨format, hshown⟩
      rw [Format.ofPath?_eq_some_iff.2 hshown] at hformat
      cases hformat
    · intro m _ read
      simp only [Repository.ofFiles, hformat]
  | some format =>
    obtain ⟨name, hshown⟩ := Format.ofPath?_eq_some_iff.1 hformat
    have hname : Path.fileName? path = some name :=
      Path.fileName?_eq_some_iff.2 ⟨hshown.last, hshown.ne_dots⟩
    refine .inr ⟨format, name, Source.ofFile path format, hshown, fun _ _ => hshown.unique, rfl,
      hname, loadOutcome_ofFile hformat hname, ?_⟩
    intro m _ _ read
    simp only [Repository.ofFiles, hformat]
    exact bind_pure_comp _ _

end Load

end PropertyTemplate
