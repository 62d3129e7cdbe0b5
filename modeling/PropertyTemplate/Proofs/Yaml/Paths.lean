import PropertyTemplate.Proofs.Yaml.Leaves

/-! # Keys that lead back to their leaves

A dot or an opening bracket starts a step of a written path. If the keys of mappings hold neither,
the steps can be read off the key of a leaf; if moreover each mapping has keys of different texts,
different leaves have different keys, and flattening loses none of them.
-/

namespace PropertyTemplate.Yaml.Value

/-- A character that starts a step behind another one. -/
def isStepMark (c : Char) : Bool := c == '.' || c == '['

/-- No step seems to start in the text. -/
def Unmarked (text : List Char) : Prop := ∀ c ∈ text, isStepMark c = false

instance : DecidablePred Unmarked := List.decidableBAll (isStepMark · = false)

/-- Each mapping has keys of different texts, in which no step seems to start. -/
inductive WellKeyed : Value → Prop
  | null : WellKeyed .null
  | boolean (value : Bool) : WellKeyed (.boolean value)
  | number (value : Number) : WellKeyed (.number value)
  | string (text : String) : WellKeyed (.string text)
  | sequence {items : List Value} : (∀ item ∈ items, WellKeyed item) → WellKeyed (.sequence items)
  | mapping {entries : List (Value × Value)} :
      (entries.map fun entry => entry.1.propertyText).Nodup →
      (∀ entry ∈ entries, Unmarked entry.1.propertyText.toList) →
      (∀ entry ∈ entries, WellKeyed entry.2) → WellKeyed (.mapping entries)
  | tagged {tag : String} {value : Value} : WellKeyed value → WellKeyed (.tagged tag value)

def isCollection : Value → Bool
  | .sequence _ | .mapping _ => true
  | .tagged _ value => isCollection value
  | _ => false

section Steps

variable {steps others : List Step} {x y : List Char}

/-- The key of the step, if it has one, ends where the next step starts. -/
def Step.Readable : Step → Prop
  | .member key => Unmarked key.propertyText.toList
  | .item _ => True

theorem isStepMark_of_isDigit {c : Char} (h : c.isDigit = true) : isStepMark c = false := by
  have hne : c ≠ '.' ∧ c ≠ '[' := by constructor <;> rintro rfl <;> simp at h
  simpa [isStepMark] using hne

theorem Step.Readable.exists_text {step : Step} (h : step.Readable) : ∃ mark body,
    step.text.toList = mark :: body ∧ isStepMark mark = true ∧ Unmarked body := by
  cases step with
  | member key => exact ⟨'.', _, by simp [Step.text], rfl, h⟩
  | item index =>
    refine ⟨'[', Nat.toDigits 10 index ++ [']'], ?_, rfl, ?_⟩
    · simp [Step.text]
    · intro c hc
      rcases List.mem_append.1 hc with hdigit | hbracket
      · exact isStepMark_of_isDigit (Nat.isDigit_of_mem_toDigits (by decide) (by decide) hdigit)
      · rw [List.mem_singleton.1 hbracket]
        rfl

theorem takeWhile_append_tailText (hx : Unmarked x) (hsteps : ∀ step ∈ steps, step.Readable) :
    (x ++ (tailText steps).toList).takeWhile (!isStepMark ·) = x := by
  rw [List.takeWhile_append_of_pos (by simpa [Unmarked] using hx)]
  cases steps with
  | nil => simp [tailText]
  | cons step steps =>
    obtain ⟨mark, body, htext, hmark, -⟩ := (hsteps step List.mem_cons_self).exists_text
    simp [tailText, htext, hmark]

/-- A text in which no step starts ends where the first step does. -/
theorem append_tailText_inj (hx : Unmarked x) (hy : Unmarked y)
    (hsteps : ∀ step ∈ steps, step.Readable) (hothers : ∀ step ∈ others, step.Readable)
    (h : x ++ (tailText steps).toList = y ++ (tailText others).toList) :
    x = y ∧ tailText steps = tailText others := by
  have hxy : x = y := by
    rw [← takeWhile_append_tailText hx hsteps, h, takeWhile_append_tailText hy hothers]
  subst hxy
  exact ⟨rfl, String.toList_inj.1 (List.append_cancel_left h)⟩

theorem text_append_tailText_inj {step other : Step} (hstep : step.Readable)
    (hother : other.Readable) (hsteps : ∀ step ∈ steps, step.Readable)
    (hothers : ∀ step ∈ others, step.Readable)
    (h : step.text ++ tailText steps = other.text ++ tailText others) :
    step.text = other.text ∧ tailText steps = tailText others := by
  obtain ⟨mark, body, htext, -, hbody⟩ := hstep.exists_text
  obtain ⟨mark', body', htext', -, hbody'⟩ := hother.exists_text
  rw [← String.toList_inj, String.toList_append, String.toList_append, htext, htext',
    List.cons_append, List.cons_append, List.cons.injEq] at h
  obtain ⟨rfl, h⟩ := h
  obtain ⟨rfl, htail⟩ := append_tailText_inj hbody hbody' hsteps hothers h
  exact ⟨String.toList_inj.1 (htext.trans htext'.symm), htail⟩

theorem tailText_ne_empty {step : Step} (hstep : step.Readable) (steps : List Step) :
    tailText (step :: steps) ≠ "" := by
  obtain ⟨mark, body, htext, -, -⟩ := hstep.exists_text
  intro h
  have hlist := congrArg String.toList h
  simp [tailText, htext] at hlist

theorem map_text_eq_of_tailText (hsteps : ∀ step ∈ steps, step.Readable)
    (hothers : ∀ step ∈ others, step.Readable) (h : tailText steps = tailText others) :
    steps.map Step.text = others.map Step.text := by
  induction steps generalizing others with
  | nil =>
    cases others with
    | nil => rfl
    | cons other others =>
      exact absurd h.symm (tailText_ne_empty (hothers other List.mem_cons_self) others)
  | cons step steps ih =>
    cases others with
    | nil => exact absurd h (tailText_ne_empty (hsteps step List.mem_cons_self) steps)
    | cons other others =>
      obtain ⟨hstep, hsteps⟩ := List.forall_mem_cons.1 hsteps
      obtain ⟨hother, hothers⟩ := List.forall_mem_cons.1 hothers
      obtain ⟨htext, htail⟩ := text_append_tailText_inj hstep hother hsteps hothers h
      rw [List.map_cons, List.map_cons, htext, ih hsteps hothers htail]

end Steps

section Leaves

variable {leaf : Leaf} {items : List Value} {entries : List (Value × Value)}

def Leaf.stepTexts (leaf : Leaf) : List String := leaf.path.map Step.text

theorem mem_entryLeaves : leaf ∈ entryLeaves entries ↔
    ∃ entry ∈ entries, ∃ inner ∈ entry.2.leaves, inner.below (.member entry.1) = leaf := by
  induction entries with
  | nil => simp [entryLeaves]
  | cons entry entries ih => simp [entryLeaves, ih]

theorem exists_of_mem_itemLeaves {start : Nat} (h : leaf ∈ itemLeaves start items) :
    ∃ index item, start ≤ index ∧ item ∈ items ∧
      ∃ inner ∈ item.leaves, inner.below (.item index) = leaf := by
  induction items generalizing start with
  | nil => simp [itemLeaves] at h
  | cons item items ih =>
    rcases List.mem_append.1 h with h | h
    · obtain ⟨inner, hinner, heq⟩ := List.mem_map.1 h
      exact ⟨start, item, le_rfl, List.mem_cons_self, inner, hinner, heq⟩
    · obtain ⟨index, item, hindex, hitem, hinner⟩ := ih h
      exact ⟨index, item, by omega, List.mem_cons_of_mem _ hitem, hinner⟩

theorem text_item_inj {i j : Nat} (h : (Step.item i).text = (Step.item j).text) : i = j := by
  have hdigits : Nat.toDigits 10 i = Nat.toDigits 10 j := by
    rw [← String.toList_inj] at h
    simpa [Step.text] using h
  rw [← Nat.ofDigitChars_ten_toDigits (n := i), hdigits, Nat.ofDigitChars_ten_toDigits]

theorem text_member_inj {key key' : Value}
    (h : (Step.member key).text = (Step.member key').text) :
    key.propertyText = key'.propertyText := by
  rw [← String.toList_inj] at h
  simpa [Step.text, String.toList_inj] using h

theorem nodup_map_below {leaves : List Leaf} (step : Step)
    (h : (leaves.map Leaf.stepTexts).Nodup) :
    ((leaves.map (·.below step)).map Leaf.stepTexts).Nodup := by
  have hbelow : (leaves.map (·.below step)).map Leaf.stepTexts =
      (leaves.map Leaf.stepTexts).map (step.text :: ·) := by
    simp [Leaf.stepTexts, Leaf.below]
  rw [hbelow]
  exact h.map fun _ _ heq => (List.cons.inj heq).2

theorem nodup_itemLeaves {start : Nat}
    (h : ∀ item ∈ items, (item.leaves.map Leaf.stepTexts).Nodup) :
    ((itemLeaves start items).map Leaf.stepTexts).Nodup := by
  induction items generalizing start with
  | nil => exact .nil
  | cons item items ih =>
    obtain ⟨hitem, hitems⟩ := List.forall_mem_cons.1 h
    rw [itemLeaves, List.map_append, List.nodup_append]
    refine ⟨nodup_map_below _ hitem, ih hitems, ?_⟩
    intro _ hfirst _ hlater heq
    subst heq
    simp only [List.mem_map] at hfirst hlater
    obtain ⟨_, ⟨inner, -, rfl⟩, rfl⟩ := hfirst
    obtain ⟨_, hmem, heq⟩ := hlater
    obtain ⟨index, _, hindex, -, later, -, rfl⟩ := exists_of_mem_itemLeaves hmem
    have hsame : index = start := text_item_inj (List.cons.inj heq).1
    omega

theorem nodup_entryLeaves (hkeys : (entries.map fun entry => entry.1.propertyText).Nodup)
    (h : ∀ entry ∈ entries, (entry.2.leaves.map Leaf.stepTexts).Nodup) :
    ((entryLeaves entries).map Leaf.stepTexts).Nodup := by
  induction entries with
  | nil => exact .nil
  | cons entry entries ih =>
    obtain ⟨hkey, hkeys⟩ := List.nodup_cons.1 hkeys
    obtain ⟨hentry, hentries⟩ := List.forall_mem_cons.1 h
    rw [entryLeaves, List.map_append, List.nodup_append]
    refine ⟨nodup_map_below _ hentry, ih hkeys hentries, ?_⟩
    intro _ hfirst _ hlater heq
    subst heq
    simp only [List.mem_map] at hfirst hlater
    obtain ⟨_, ⟨inner, -, rfl⟩, rfl⟩ := hfirst
    obtain ⟨_, hmem, heq⟩ := hlater
    obtain ⟨other, hother, later, -, rfl⟩ := mem_entryLeaves.1 hmem
    have hsame : other.1.propertyText = entry.1.propertyText :=
      text_member_inj (List.cons.inj heq).1
    exact hkey (List.mem_map.2 ⟨other, hother, hsame⟩)

variable {v : Value}

theorem WellKeyed.nodup_stepTexts (h : v.WellKeyed) : (v.leaves.map Leaf.stepTexts).Nodup := by
  induction h with
  | null | boolean _ | number _ | string _ => simp [leaves]
  | sequence _ ih =>
    rw [leaves]
    exact nodup_itemLeaves ih
  | mapping hkeys _ _ ih =>
    rw [leaves]
    exact nodup_entryLeaves hkeys ih
  | tagged _ ih =>
    rw [leaves]
    exact ih

theorem WellKeyed.readable (h : v.WellKeyed) :
    ∀ leaf ∈ v.leaves, ∀ step ∈ leaf.path, step.Readable := by
  induction h with
  | null | boolean _ | number _ | string _ => simp [leaves]
  | sequence _ ih =>
    intro leaf hleaf
    rw [leaves] at hleaf
    obtain ⟨index, item, -, hitem, inner, hinner, rfl⟩ := exists_of_mem_itemLeaves hleaf
    exact List.forall_mem_cons.2 ⟨trivial, ih item hitem inner hinner⟩
  | mapping _ hunmarked _ ih =>
    intro leaf hleaf
    rw [leaves] at hleaf
    obtain ⟨entry, hentry, inner, hinner, rfl⟩ := mem_entryLeaves.1 hleaf
    exact List.forall_mem_cons.2 ⟨hunmarked entry hentry, ih entry hentry inner hinner⟩
  | tagged _ ih =>
    rw [leaves]
    exact ih

theorem leaves_of_isCollection : ∀ {v : Value}, v.isCollection = true →
    (∃ entries, v.leaves = entryLeaves entries) ∨ ∃ items, v.leaves = itemLeaves 0 items
  | .mapping entries, _ => .inl ⟨entries, by rw [leaves]⟩
  | .sequence items, _ => .inr ⟨items, by rw [leaves]⟩
  | .tagged _ value, h => by
      rw [leaves]
      exact leaves_of_isCollection h

end Leaves

section Keys

variable {v : Value} {leaf other : Leaf}

theorem key?_below_member_inj {key key' : Value}
    (hleaf : ∀ step ∈ (leaf.below (.member key)).path, step.Readable)
    (hother : ∀ step ∈ (other.below (.member key')).path, step.Readable)
    (h : (leaf.below (.member key)).key? = (other.below (.member key')).key?) :
    (leaf.below (.member key)).stepTexts = (other.below (.member key')).stepTexts := by
  obtain ⟨hkey, hleaf⟩ := List.forall_mem_cons.1 hleaf
  obtain ⟨hkey', hother⟩ := List.forall_mem_cons.1 hother
  have hlist := congrArg String.toList (Option.some.inj h)
  rw [String.toList_append, String.toList_append] at hlist
  obtain ⟨htext, htail⟩ := append_tailText_inj hkey hkey' hleaf hother hlist
  simp only [Leaf.stepTexts, Leaf.below, List.map_cons, Step.text, String.toList_inj.1 htext,
    map_text_eq_of_tailText hleaf hother htail]

theorem key?_below_item_inj {i j : Nat}
    (hleaf : ∀ step ∈ (leaf.below (.item i)).path, step.Readable)
    (hother : ∀ step ∈ (other.below (.item j)).path, step.Readable)
    (h : (leaf.below (.item i)).key? = (other.below (.item j)).key?) :
    (leaf.below (.item i)).stepTexts = (other.below (.item j)).stepTexts := by
  obtain ⟨hi, hleaf⟩ := List.forall_mem_cons.1 hleaf
  obtain ⟨hj, hother⟩ := List.forall_mem_cons.1 hother
  obtain ⟨htext, htail⟩ := text_append_tailText_inj hi hj hleaf hother (Option.some.inj h)
  simp only [Leaf.stepTexts, Leaf.below, List.map_cons, htext,
    map_text_eq_of_tailText hleaf hother htail]

/-- The steps to a leaf of a collection can be read off its key. -/
theorem WellKeyed.stepTexts_eq_of_key? (h : v.WellKeyed) (hroot : v.isCollection = true)
    (hleaf : leaf ∈ v.leaves) (hother : other ∈ v.leaves) (hkey : leaf.key? = other.key?) :
    leaf.stepTexts = other.stepTexts := by
  have hsteps := h.readable leaf hleaf
  have hsteps' := h.readable other hother
  rcases leaves_of_isCollection hroot with ⟨entries, hleaves⟩ | ⟨items, hleaves⟩
  · rw [hleaves, mem_entryLeaves] at hleaf hother
    obtain ⟨_, -, _, -, rfl⟩ := hleaf
    obtain ⟨_, -, _, -, rfl⟩ := hother
    exact key?_below_member_inj hsteps hsteps' hkey
  · rw [hleaves] at hleaf hother
    obtain ⟨_, _, -, -, _, -, rfl⟩ := exists_of_mem_itemLeaves hleaf
    obtain ⟨_, _, -, -, _, -, rfl⟩ := exists_of_mem_itemLeaves hother
    exact key?_below_item_inj hsteps hsteps' hkey

theorem exists_key?_of_isCollection (hroot : v.isCollection = true) (hleaf : leaf ∈ v.leaves) :
    ∃ key, leaf.key? = some key := by
  rcases leaves_of_isCollection hroot with ⟨entries, hleaves⟩ | ⟨items, hleaves⟩
  · rw [hleaves, mem_entryLeaves] at hleaf
    obtain ⟨_, -, _, -, rfl⟩ := hleaf
    exact ⟨_, rfl⟩
  · rw [hleaves] at hleaf
    obtain ⟨_, _, -, -, _, -, rfl⟩ := exists_of_mem_itemLeaves hleaf
    exact ⟨_, rfl⟩

theorem WellKeyed.eq_of_key? (h : v.WellKeyed) (hroot : v.isCollection = true)
    (hleaf : leaf ∈ v.leaves) (hother : other ∈ v.leaves) (hkey : leaf.key? = other.key?) :
    leaf = other :=
  List.inj_on_of_nodup_map h.nodup_stepTexts hleaf hother
    (h.stepTexts_eq_of_key? hroot hleaf hother hkey)

theorem leaves_of_not_isCollection : ∀ {v : Value}, v.isCollection = false →
    ∃ scalar, v.leaves = [⟨[], scalar⟩]
  | .tagged _ value, h => by
      rw [leaves]
      exact leaves_of_not_isCollection h
  | .null, _ | .boolean _, _ | .number _, _ | .string _, _ => ⟨_, by simp [leaves]; rfl⟩

theorem WellKeyed.nodup_key? (h : v.WellKeyed) : (v.leaves.map Leaf.key?).Nodup := by
  cases hroot : v.isCollection with
  | true =>
    rw [List.nodup_map_iff_inj_on (.of_map _ h.nodup_stepTexts)]
    exact fun _ hleaf _ hother => h.eq_of_key? hroot hleaf hother
  | false =>
    obtain ⟨scalar, hleaves⟩ := leaves_of_not_isCollection hroot
    simp [hleaves]

theorem map_writesUnder_none {leaves : List Leaf}
    (h : ∀ leaf ∈ leaves, ∃ key, leaf.key? = some key) :
    (writesUnder none leaves).map (fun write => (some write.1, write.2)) =
      leaves.map fun leaf => (leaf.key?, leaf.text) := by
  induction leaves with
  | nil => rfl
  | cons leaf leaves ih =>
    obtain ⟨⟨key, hkey⟩, hleaves⟩ := List.forall_mem_cons.1 h
    have hwrites : writesUnder none (leaf :: leaves) =
        (key, leaf.text) :: writesUnder none leaves :=
      List.filterMap_cons_some (by simp [Leaf.keyUnder?, hkey])
    rw [hwrites, List.map_cons, List.map_cons, ih hleaves, hkey]

/-- No leaf is lost if each mapping has keys of different texts, in which no step seems to start:
different leaves have different keys, and unless the root is a scalar there is one property for each
leaf, whose key leads back to the leaf and is bound to its text. -/
theorem WellKeyed.flatten_loses_nothing (h : v.WellKeyed) :
    (v.leaves.map Leaf.key?).Nodup ∧
    (v.isCollection = true →
      ((v.flatten none .empty).entries.map fun entry => (some entry.1, entry.2)).Perm
        (v.leaves.map fun leaf => (leaf.key?, leaf.text)) ∧
      (v.flatten none .empty).size = v.leaves.length ∧
      (∀ leaf ∈ v.leaves, ∀ other ∈ v.leaves, leaf.key? = other.key? → leaf.path = other.path) ∧
      ∀ leaf ∈ v.leaves, ∃ key, leaf.key? = some key ∧
        (v.flatten none .empty).get? key = some leaf.text) := by
  refine ⟨h.nodup_key?, fun hroot => ?_⟩
  have hwrites := map_writesUnder_none fun _ hleaf => exists_key?_of_isCollection hroot hleaf
  have hperm : ((v.flatten none .empty).entries.map fun entry => (some entry.1, entry.2)).Perm
      (v.leaves.map fun leaf => (leaf.key?, leaf.text)) := by
    have hkeys : ((writesUnder none v.leaves).map (·.1)).Nodup := by
      have hsome : ((writesUnder none v.leaves).map (·.1)).map some = v.leaves.map Leaf.key? := by
        have hfst := congrArg (List.map Prod.fst) hwrites
        rw [List.map_map, List.map_map] at hfst
        rw [List.map_map]
        exact hfst
      exact .of_map some (hsome ▸ h.nodup_key?)
    rw [flatten_eq_ofList, ← hwrites]
    exact (Bindings.entries_ofList_perm hkeys).map _
  refine ⟨hperm, ?_, ?_, ?_⟩
  · simpa [Bindings.size] using hperm.length_eq
  · intro leaf hleaf other hother hkey
    rw [h.eq_of_key? hroot hleaf hother hkey]
  · intro leaf hleaf
    obtain ⟨key, hkey⟩ := exists_key?_of_isCollection hroot hleaf
    refine ⟨key, hkey, ?_⟩
    rw [← Bindings.mem_entries_iff]
    have hmem := hperm.mem_iff.2 (List.mem_map_of_mem hleaf)
    simpa [hkey] using hmem

/-- An empty key before a sequence, a closing bracket in a key, and the number of a text. -/
theorem flatten_loses_nothing_empty_key :
    let v : Value := .tagged "t" (.mapping [
      (.string "", .sequence [.null,
        .mapping [(.string "a]", .boolean true), (.null, .string "x")]]),
      (.number (.integer 1), .sequence []), (.string "01", .tagged "u" (.number (.integer 2)))])
    v.WellKeyed ∧ v.isCollection = true ∧
      (v.leaves.map Leaf.key?).Nodup ∧ (v.flatten none .empty).size = v.leaves.length ∧
      v.leaves.map (fun leaf => (leaf.key?, leaf.text)) = [(some "[0]", ""),
        (some "[1].a]", "true"), (some "[1].", "x"), (some "01", "2")] := by
  intro v
  have hinner : (Value.mapping [(.string "a]", .boolean true), (.null, .string "x")]).WellKeyed :=
    .mapping (by decide) (by decide)
      (by simp only [List.forall_mem_cons]; exact ⟨.boolean _, .string _, nofun⟩)
  have hitems : (Value.sequence [.null,
      .mapping [(.string "a]", .boolean true), (.null, .string "x")]]).WellKeyed :=
    .sequence (by simp only [List.forall_mem_cons]; exact ⟨.null, hinner, nofun⟩)
  have hwell : v.WellKeyed := by
    refine .tagged (.mapping (by decide) (by decide) ?_)
    simp only [List.forall_mem_cons]
    exact ⟨hitems, .sequence nofun, .tagged (.number _), nofun⟩
  obtain ⟨hnodup, hflatten⟩ := hwell.flatten_loses_nothing
  exact ⟨hwell, rfl, hnodup, (hflatten rfl).2.1, by decide⟩

end Keys

end PropertyTemplate.Yaml.Value
