import Mathlib.Data.List.Induction
import Mathlib.Data.List.Infix
import PropertyTemplate.CommandLine.Run
import PropertyTemplate.Proofs.CommandLine.Reading

/-! # Renderings of a command line

What a command line says can be written in any order, as long as files and definitions keep theirs,
and each option in any of its spellings. All that is written in this way is read as the same command
line.
-/

namespace PropertyTemplate.CommandLine

def StandsAlone (text : String) : Prop :=
  text ≠ "" ∧ text.toList.head? ≠ some '-' ∧ text.toList.head? ≠ some '='

instance : DecidablePred StandsAlone := fun text => inferInstanceAs
  (Decidable (text ≠ "" ∧ text.toList.head? ≠ some '-' ∧ text.toList.head? ≠ some '='))

/-- Whatever its spelling, no value of the line is taken for anything else. -/
structure IsSpellable (line : CommandLine) : Prop where
  template : ∀ path ∈ line.template, StandsAlone path
  propertyFiles : ∀ path ∈ line.propertyFiles, StandsAlone path
  definitions : ∀ definition ∈ line.definitions,
    StandsAlone definition.1 ∧ '=' ∉ definition.1.toList
  output : ∀ path ∈ line.output, StandsAlone path

instance : DecidablePred IsSpellable := fun line =>
  decidable_of_iff ((∀ path ∈ line.template, StandsAlone path) ∧
      (∀ path ∈ line.propertyFiles, StandsAlone path) ∧
      (∀ definition ∈ line.definitions,
        StandsAlone definition.1 ∧ '=' ∉ definition.1.toList) ∧
      ∀ path ∈ line.output, StandsAlone path)
    ⟨fun h => ⟨h.1, h.2.1, h.2.2.1, h.2.2.2⟩, fun h => ⟨h.1, h.2, h.3, h.4⟩⟩

namespace Item

/-- The spellings of an item. Directly behind a letter, the value must not be empty and must not
start with an equals sign. -/
def spellings : Item → List (List String)
  | .environment => [["--env"]]
  | .value field text =>
    match field.longName?, field.letter? with
    | some name, some letter =>
      [["--" ++ name, text], ["--" ++ name ++ "=" ++ text], [String.ofList ['-', letter], text],
          [String.ofList ['-', letter, '='] ++ text]] ++
        if text.toList.head?.any (· != '=') then [[String.ofList ['-', letter] ++ text]] else []
    | _, _ => [[text]]

def text? (field : Field) : Item → Option String
  | .value other text => if other = field then some text else none
  | .environment => none

end Item

def texts (line : CommandLine) : Field → List String
  | .template => line.template.toList
  | .propertyFile => line.propertyFiles
  | .definition => line.definitions.map fun definition => definition.1 ++ "=" ++ definition.2
  | .output => line.output.toList

/-- The items are those of the line, of which the ones of each field are in order. -/
structure Arranges (items : List Item) (line : CommandLine) : Prop where
  texts : ∀ field, items.filterMap (Item.text? field) = line.texts field
  environment : items.count .environment = line.useEnvironment.toNat

variable {line line' : CommandLine} {items : List Item} {item : Item} {text key value : String}
  {chunk : List String} {chunks : List (List String)} {field : Field}

section Spelling

theorem StandsAlone.exists_cons (h : StandsAlone text) :
    ∃ c rest, text.toList = c :: rest ∧ c ≠ '-' ∧ c ≠ '=' := by
  obtain ⟨hne, hhyphen, hequals⟩ := h
  cases htext : text.toList with
  | nil => exact absurd (String.toList_inj.1 htext) hne
  | cons c rest =>
    refine ⟨c, rest, rfl, ?_, ?_⟩ <;> rintro rfl
    · simp [htext] at hhyphen
    · simp [htext] at hequals

theorem StandsAlone.isOperand (h : StandsAlone text) : IsOperand text := by
  obtain ⟨c, rest, htext, hhyphen, -⟩ := h.exists_cons
  intro letter more heq
  rw [htext] at heq
  exact hhyphen (List.cons.inj heq).1

theorem StandsAlone.append (h : StandsAlone key) (rest : String) : StandsAlone (key ++ rest) := by
  obtain ⟨c, more, hkey, hc⟩ := h.exists_cons
  constructor
  · intro heq
    simp [← String.toList_inj, hkey] at heq
  · simpa [hkey] using hc

theorem IsSpellable.standsAlone (h : IsSpellable line) (field : Field) :
    ∀ text ∈ line.texts field, StandsAlone text := by
  cases field with
  | template => simpa [texts] using h.template
  | propertyFile => exact h.propertyFiles
  | definition =>
    rw [texts, List.forall_mem_map]
    intro definition hmem
    rw [String.append_assoc]
    exact (h.definitions definition hmem).1.append _
  | output => simpa [texts] using h.output

/-- In a spelling the value is an argument of its own, or part of the one that names the field. -/
theorem cases_of_mem_spellings (h : chunk ∈ (Item.value field text).spellings) :
    (∃ name, chunk = [name, text] ∧ Named name field) ∨
      (∃ argument, chunk = [argument] ∧ option? argument = some (field, some text) ∧
        Chunk [argument] (.value field text)) ∨
      field = .template ∧ chunk = [text] := by
  rw [Item.spellings] at h
  split at h
  · rename_i name letter hname hletter
    simp only [List.mem_append, List.mem_cons, List.not_mem_nil, or_false] at h
    rcases h with (rfl | rfl | rfl | rfl) | h
    · exact .inl ⟨_, rfl, .long hname⟩
    · exact .inr (.inl ⟨_, rfl, option?_long hname, .long hname⟩)
    · exact .inl ⟨_, rfl, .short hletter⟩
    · exact .inr (.inl ⟨_, rfl, option?_shortEquals hletter, .shortEquals hletter⟩)
    · split at h
      · obtain rfl := List.mem_singleton.1 h
        rename_i hhead
        cases htext : text.toList with
        | nil => simp [htext] at hhead
        | cons c rest =>
          have hc : c ≠ '=' := by simpa [htext] using hhead
          obtain rfl : text = String.ofList (c :: rest) := by rw [← htext, String.ofList_toList]
          rw [← String.ofList_append]
          exact .inr (.inl ⟨_, rfl, option?_short hletter hc, .short hletter hc⟩)
      · cases h
  · rename_i hnone
    refine .inr (.inr ⟨?_, List.mem_singleton.1 h⟩)
    cases field with
    | template => rfl
    | _ => exact (hnone _ _ rfl rfl).elim

theorem chunk_of_mem_spellings (h : chunk ∈ item.spellings)
    (hitem : ∀ field text, item = .value field text → StandsAlone text) : Chunk chunk item := by
  cases item with
  | environment =>
    obtain rfl := List.mem_singleton.1 h
    exact .environment
  | value field text =>
    have htext := (hitem field text rfl).isOperand
    rcases cases_of_mem_spellings h with ⟨name, rfl, hnamed⟩ | ⟨_, rfl, -, hchunk⟩ | ⟨rfl, rfl⟩
    · exact .separate hnamed htext
    · exact hchunk
    · exact .template htext

end Spelling

section Arrangement

def collect (items : List Item) : CommandLine where
  template := (items.filterMap (Item.text? .template)).head?
  propertyFiles := items.filterMap (Item.text? .propertyFile)
  definitions := items.filterMap Item.definition?
  useEnvironment := decide (.environment ∈ items)
  output := (items.filterMap (Item.text? .output)).head?

/-- What can be said once other items were. -/
inductive Fits (items : List Item) : Item → Prop
  | template {text : String} : text ≠ "" → items.filterMap (Item.text? .template) = [] →
      Fits items (.value .template text)
  | propertyFile {text : String} : text ≠ "" → Fits items (.value .propertyFile text)
  | definition {text : String} : '=' ∈ text.toList → Fits items (.value .definition text)
  | environment : .environment ∉ items → Fits items .environment
  | output {text : String} : text ≠ "" → items.filterMap (Item.text? .output) = [] →
      Fits items (.value .output text)

theorem definition?_eq (h : '=' ∈ text.toList) :
    definition? text = (Item.value .definition text).definition? := by
  cases hdefinition : definition? text with
  | none =>
    rw [definition?, Option.map_eq_none_iff, Text.cut_eq_none_iff] at hdefinition
    exact absurd ((List.singleton_infix_iff _ _).2 h) hdefinition
  | some definition =>
    obtain ⟨hkey, hvalue, -⟩ := parts_of_definition? hdefinition
    simp [Item.definition?, hkey, hvalue]

theorem definition?_append (h : '=' ∉ key.toList) (value : String) :
    (Item.value .definition (key ++ "=" ++ value)).definition? = some (key, value) := by
  have hkey : ∀ c ∈ key.toList, (c != '=') = true := by
    intro c hc
    rw [bne_iff_ne]
    rintro rfl
    exact h hc
  simp [Item.definition?, List.takeWhile_append_of_pos hkey, List.dropWhile_append_of_pos hkey]

theorem add_collect (h : Fits items item) :
    (collect items).add item = .ok (collect (items ++ [item])) := by
  cases h with
  | template hne hnone =>
    rw [add_template_iff, store_template_iff]
    simp [collect, hnone, hne, Item.text?, Item.definition?]
  | propertyFile hne =>
    refine store_propertyFile_iff.2 ⟨hne, ?_⟩
    simp [collect, Item.text?, Item.definition?]
  | definition hmem =>
    refine store_definition_iff.2 ⟨_, definition?_eq hmem, ?_⟩
    simp [collect, Item.text?, Item.definition?]
  | environment hnot =>
    rw [add_environment_iff]
    simp [collect, hnot, Item.text?, Item.definition?]
  | output hne hnone =>
    refine store_output_iff.2 ⟨?_, hne, ?_⟩ <;>
      simp [collect, hnone, Item.text?, Item.definition?]

/-- What items say adds up if each of them fits what was said before it. -/
theorem foldlM_add_collect
    (h : ∀ front item back, items = front ++ item :: back → Fits front item) :
    items.foldlM add {} = .ok (collect items) := by
  induction items using List.reverseRecOn with
  | nil => rfl
  | append_singleton items item ih =>
    refine foldlM_add_snoc (ih ?_) (add_collect (h items item [] rfl))
    rintro front other back rfl
    exact h front other (back ++ [item]) (by simp)

namespace Arranges

variable {front back : List Item}

theorem mem_texts (h : Arranges items line) (hmem : .value field text ∈ items) :
    text ∈ line.texts field := by
  rw [← h.texts]
  exact List.mem_filterMap.2 ⟨_, hmem, by simp [Item.text?]⟩

theorem eq_nil_of_length_le_one (h : Arranges (front ++ .value field text :: back) line)
    (hlength : (line.texts field).length ≤ 1) : front.filterMap (Item.text? field) = [] := by
  rw [← h.texts, List.filterMap_append, List.filterMap_cons_some (b := text) (by simp [Item.text?]),
    List.length_append, List.length_cons] at hlength
  apply List.length_eq_zero_iff.1
  omega

theorem fits (h : Arranges (front ++ item :: back) line) (hline : IsSpellable line) :
    Fits front item := by
  cases item with
  | environment =>
    apply Fits.environment
    have hcount := h.environment
    have hle := Bool.toNat_le line.useEnvironment
    rw [List.count_append, List.count_cons_self] at hcount
    apply List.count_eq_zero.1
    omega
  | value field text =>
    have hmem : text ∈ line.texts field := h.mem_texts (by simp)
    have hne := (hline.standsAlone field text hmem).1
    cases field with
    | template => exact .template hne (h.eq_nil_of_length_le_one Option.length_toList_le)
    | propertyFile => exact .propertyFile hne
    | definition =>
      obtain ⟨definition, -, rfl⟩ := List.mem_map.1 hmem
      exact .definition (by simp)
    | output => exact .output hne (h.eq_nil_of_length_le_one Option.length_toList_le)

theorem definitions_eq (h : Arranges items line) (hline : IsSpellable line) :
    items.filterMap Item.definition? = line.definitions := by
  have hitems : items.filterMap Item.definition? =
      (items.filterMap (Item.text? .definition)).filterMap
        fun text => (Item.value .definition text).definition? := by
    rw [List.filterMap_filterMap]
    congr 1
    funext item
    cases item with
    | environment => rfl
    | value field text => cases field <;> rfl
  have hparts : ∀ definition ∈ line.definitions,
      (Item.value .definition (definition.1 ++ "=" ++ definition.2)).definition? =
        some definition :=
    fun definition hmem => definition?_append (hline.definitions definition hmem).2 definition.2
  rw [hitems, h.texts, CommandLine.texts, List.filterMap_map]
  exact (List.filterMap_congr hparts).trans List.filterMap_some

theorem collect_eq (h : Arranges items line) (hline : IsSpellable line) :
    collect items = line := by
  have henvironment : .environment ∈ items ↔ line.useEnvironment = true := by
    rw [← List.count_pos_iff, h.environment]
    cases line.useEnvironment <;> decide
  simp [collect, h.texts, CommandLine.texts, h.definitions_eq hline, henvironment]

theorem foldlM_add (h : Arranges items line) (hline : IsSpellable line) :
    items.foldlM add {} = .ok line := by
  rw [← h.collect_eq hline]
  apply foldlM_add_collect
  rintro front item back rfl
  exact h.fits hline

theorem standsAlone (h : Arranges items line) (hline : IsSpellable line) :
    ∀ text, .value field text ∈ items → StandsAlone text :=
  fun text hmem => hline.standsAlone field text (h.mem_texts hmem)

end Arranges

end Arrangement

section Rendering

theorem forall₂_chunk (hline : IsSpellable line) (hitems : Arranges items line)
    (hchunks : List.Forall₂ (fun chunk item => chunk ∈ item.spellings) chunks items) :
    List.Forall₂ Chunk chunks items := by
  rw [List.forall₂_iff_zip] at hchunks ⊢
  obtain ⟨hlength, hmem⟩ := hchunks
  refine ⟨hlength, fun {chunk item} hzip => chunk_of_mem_spellings (hmem hzip) ?_⟩
  rintro field text rfl
  exact hitems.standsAlone hline text (List.of_mem_zip hzip).2

theorem rejects_of_mem_spellings {p : Progress} (h : p.Settles line) {bad : List String}
    (hbad : bad ∈ (Item.value .definition text).spellings) (htext : '=' ∉ text.toList)
    (more : List String) : Rejects ((bad ++ more).foldlM Progress.read p >>= Progress.settle) := by
  rcases cases_of_mem_spellings hbad with ⟨name, rfl, hnamed⟩ | ⟨_, rfl, hargument, -⟩ | ⟨h, -⟩
  · exact h.rejects_separate (option?_of_named hnamed) htext more
  · exact h.rejects_attached hargument htext more
  · cases h

/-- Arguments that render a command line are read as this line, in whatever order and spelling. One
definition without an equals sign among them is enough for an error. -/
theorem ofArguments_rendering (hline : IsSpellable line) (hitems : Arranges items line)
    (hchunks : List.Forall₂ (fun chunk item => chunk ∈ item.spellings) chunks items) :
    ofArguments chunks.flatten = .ok line ∧
      (∀ {m : Type → Type} [Monad m] (host : Host m),
        (∀ template, (ofArguments chunks.flatten).map (fun parsed => parsed.resolve host template) =
          .ok (line.resolve host template)) ∧
        execute host chunks.flatten = do return Exit.ofRun (← line.run host)) ∧
      ∀ front back text bad, chunks = front ++ back → '=' ∉ text.toList →
        bad ∈ (Item.value .definition text).spellings →
        Rejects (ofArguments (front.flatten ++ bad ++ back.flatten)) := by
  have hspelled := forall₂_chunk hline hitems hchunks
  have hadd := hitems.foldlM_add hline
  have hread := ofArguments_flatten hspelled hadd
  refine ⟨hread, ?_, ?_⟩
  · intro m _ host
    constructor
    · intro template
      rw [hread]
      rfl
    · rw [execute, hread]
  · rintro front back text bad rfl htext hbad
    have hfront := List.forall₂_take front.length hspelled
    rw [List.take_left] at hfront
    rw [← List.take_append_drop front.length items, List.foldlM_append] at hadd
    obtain ⟨begun, hbegun, -⟩ := bind_eq_ok.1 hadd
    obtain ⟨p, hp, hsettles⟩ := Progress.settles_start.foldlM_flatten hfront hbegun
    apply rejects_ofArguments
    rw [List.append_assoc, List.foldlM_append, hp]
    exact rejects_of_mem_spellings hsettles hbad htext back.flatten

theorem ofArguments_rendering_of_mixed_spellings :
    ofArguments ["-p=a.yml", "-Dk=v=w", "t.txt", "--env", "--properties", "b.yml", "-oout",
        "--define=k="] =
      .ok ⟨some "t.txt", ["a.yml", "b.yml"], [("k", "v=w"), ("k", "")], true, some "out"⟩ ∧
    Rejects (ofArguments ["-p=a.yml", "-Dk=v=w", "t.txt", "--env", "-D", "--", "--properties",
      "b.yml", "-oout", "--define=k="]) := by
  have hline : IsSpellable
      ⟨some "t.txt", ["a.yml", "b.yml"], [("k", "v=w"), ("k", "")], true, some "out"⟩ := by
    decide +kernel
  have hitems : Arranges
      [.value .propertyFile "a.yml", .value .definition "k=v=w", .value .template "t.txt",
        .environment, .value .propertyFile "b.yml", .value .output "out", .value .definition "k="]
      ⟨some "t.txt", ["a.yml", "b.yml"], [("k", "v=w"), ("k", "")], true, some "out"⟩ :=
    ⟨fun field => by cases field <;> rfl, rfl⟩
  have hchunks : List.Forall₂ (fun chunk item => chunk ∈ Item.spellings item)
      ([["-p=a.yml"], ["-Dk=v=w"], ["t.txt"], ["--env"]] ++
        [["--properties", "b.yml"], ["-oout"], ["--define=k="]])
      [.value .propertyFile "a.yml", .value .definition "k=v=w", .value .template "t.txt",
        .environment, .value .propertyFile "b.yml", .value .output "out",
        .value .definition "k="] := by
    decide
  obtain ⟨hread, -, hrejects⟩ := ofArguments_rendering hline hitems hchunks
  exact ⟨hread, hrejects _ _ "--" ["-D", "--"] rfl (by decide) (by decide)⟩

end Rendering

end PropertyTemplate.CommandLine
