import PropertyTemplate.Proofs.Placeholder.Readings
import PropertyTemplate.Property.Stack

/-! # The keys that matter to a text

Two stores that agree on the keys of the policy and on the keys of the tokens resolve a text alike.
Neither the kind of a store nor any other binding of it can be seen in the resolved text, and a
store without a binding that matters cannot be told from none.
-/

namespace PropertyTemplate

open Delimiters

/-- The keys that matter to a text under a policy: the two that hold the policy, and the key of each
token. -/
inductive Policy.Relevant (p : Policy) (text : String) : String → Prop
  | enable : Relevant p text enableKey
  | separator : Relevant p text separatorKey
  | token {pieces : Pieces Char} {readings : List (String × String)} {reading : String × String} :
      p.Reads text pieces readings → reading ∈ readings → Relevant p text reading.1

theorem Policy.Reads.relevant_iff {p : Policy} {text key : String} {pieces : Pieces Char}
    {readings : List (String × String)} (h : p.Reads text pieces readings) :
    p.Relevant text key ↔ key ∈ enableKey :: separatorKey :: readings.map (·.1) := by
  simp only [List.mem_cons, List.mem_map]
  constructor
  · rintro (_ | _ | ⟨hother, hmem⟩)
    · exact .inl rfl
    · exact .inr (.inl rfl)
    · obtain ⟨-, rfl⟩ := hother.unique h
      exact .inr (.inr ⟨_, hmem, rfl⟩)
  · rintro (rfl | rfl | ⟨reading, hmem, rfl⟩)
    · exact .enable
    · exact .separator
    · exact .token h hmem

/-- Two stores agree on the keys that matter to a text under the policy of the first one. -/
def Store.Agree (store store' : Option Store) (text : String) : Prop :=
  ∀ key, (Policy.read store).value.Relevant text key → boundIn store key = boundIn store' key

variable {store store' : Option Store} {text : String}

theorem Store.Agree.policy_eq (h : Store.Agree store store' text) :
    (Policy.read store').value = (Policy.read store).value := by
  rw [Policy.value_read, Policy.value_read, h _ .enable, h _ .separator]

theorem Store.Agree.resolveText_eq (h : Store.Agree store store' text) :
    resolveText store text = resolveText store' text := by
  obtain ⟨pieces, readings, hreads⟩ := (Policy.read store).value.exists_reads text
  have hreads' : (Policy.read store').value.Reads text pieces readings := h.policy_eq ▸ hreads
  rw [hreads.resolveText_eq, hreads'.resolveText_eq]
  apply Pieces.resolved_congr
  intro reading hmem
  exact h reading.1 (.token hreads hmem)

theorem Store.Agree.insert {bindings : Bindings} {key : String} (value : String)
    (h : ¬ (Policy.read (some bindings.store)).value.Relevant text key) :
    Store.Agree (some bindings.store) (some (bindings.insert key value).store) text := by
  intro relevant hrelevant
  have hne : relevant ≠ key := by
    rintro rfl
    exact h hrelevant
  simp [Store.boundIn, Bindings.store, hne]

theorem Store.agree_stack (name : String) (bindings : Bindings) (text : String) :
    Store.Agree (some (Stack.mk [⟨name, bindings⟩]).store) (some bindings.store) text := by
  intro key _
  simp only [Store.boundIn, Stack.store, Stack.get?, Bindings.store, Source.get?,
    List.findSome?_singleton, Option.bind_some]

/-- Only the keys that matter to a text can change what it is resolved to. -/
theorem resolveText_eq_of_agree :
    (∀ (store store' : Option Store) (text : String), Store.Agree store store' text →
      resolveText store text = resolveText store' text) ∧
    (∀ (bindings : Bindings) (name text : String),
      resolveText (some (Source.mk name bindings).store) text =
        resolveText (some bindings.store) text ∧
      resolveText (some (Stack.mk [⟨name, bindings⟩]).store) text =
        resolveText (some bindings.store) text) ∧
    (∀ (bindings : Bindings) (key value text : String),
      ¬ (Policy.read (some bindings.store)).value.Relevant text key →
      resolveText (some (bindings.insert key value).store) text =
        resolveText (some bindings.store) text) ∧
    ∀ (store : Store) (text : String),
      (∀ key, (Policy.mk false ":").Relevant text key → store.get? key = none) →
      resolveText (some store) text = resolveText none text := by
  refine ⟨fun _ _ _ h => h.resolveText_eq, fun bindings name text => ⟨rfl, ?_⟩,
    fun _ _ value _ h => (Store.Agree.insert value h).resolveText_eq.symm, ?_⟩
  · exact (Store.agree_stack name bindings text).resolveText_eq
  · intro store text h
    have hagree : Store.Agree none (some store) text := fun key hkey => (h key hkey).symm
    exact hagree.resolveText_eq.symm

/-- The second placeholder is escaped, so its key does not matter. -/
theorem resolveText_eq_of_agree_escaped :
    let text := "$\x7ba:b\x7d\\$\x7bx\x7d"
    let bindings := Bindings.ofList [("a", ""), (Policy.enableKey, "TRUE")]
    let stack : Stack := ⟨[⟨"upper", .ofList [("x", "1"), (Policy.enableKey, "TRUE")]⟩,
      ⟨"lower", .ofList [("a", "")]⟩]⟩
    let other := (Bindings.ofList [("x", "1"), ("a", "3")]).store
    Store.Agree (some bindings.store) (some stack.store) text ∧
      resolveText (some bindings.store) text = resolveText (some stack.store) text ∧
      ¬ (Policy.read (some bindings.store)).value.Relevant text "x" ∧
      resolveText (some (bindings.insert "x" "2").store) text =
        resolveText (some bindings.store) text ∧
      resolveText (some bindings.store) text = "$\x7bx\x7d" ∧
      (∀ key, (Policy.mk false ":").Relevant text key → other.get? key = none) ∧
      resolveText (some other) text = resolveText none text := by
  intro text bindings stack other
  have hreads : (Policy.mk true ":").Reads text
      ⟨[], [(['a', ':', 'b'], ['$', '\x7b', 'x', '\x7d'])]⟩ [("a", "b")] := by
    have hcut : Text.LeftmostCut placeholder.opening text.toList [] (text.toList.drop 2) :=
      Text.cut_eq_some_iff.1 (by decide)
    have hclosing : Text.LeftmostCut placeholder.closing (text.toList.drop 2) ['a', ':', 'b']
        (text.toList.drop 6) := Text.cut_eq_some_iff.1 (by decide)
    have hescaped : Text.LeftmostCut placeholder.opening (text.toList.drop 6) ['\\']
        ['x', '\x7d'] := Text.cut_eq_some_iff.1 (by decide)
    refine ⟨⟨[.literal [], .token [['a', ':', 'b']], .escapedOpening [], .literal ['x', '\x7d']],
      ?_, rfl⟩, .cons (Policy.reading_of_split_eq_some (by decide)) .nil⟩
    refine .token hcut (by decide) (.last hclosing (by decide)) ?_
    exact .escapedOpening hescaped (.literal (by decide))
  have hpolicy : (Policy.read (some bindings.store)).value = ⟨true, ":"⟩ := by decide
  have hagree : Store.Agree (some bindings.store) (some stack.store) text := by
    intro key hkey
    rw [hpolicy, hreads.relevant_iff] at hkey
    revert key
    decide
  have hirrelevant : ¬ (Policy.read (some bindings.store)).value.Relevant text "x" := by
    rw [hpolicy, hreads.relevant_iff]
    decide
  have hnone : ∀ key, (Policy.mk false ":").Relevant text key → other.get? key = none := by
    have hwhole : (Policy.mk false ":").Reads text
        ⟨[], [(['a', ':', 'b'], ['$', '\x7b', 'x', '\x7d'])]⟩ [("a:b", "$\x7ba:b\x7d")] :=
      ⟨hreads.cut, .cons (Policy.reading_of_split_eq_none (by decide)) .nil⟩
    intro key hkey
    rw [hwhole.relevant_iff] at hkey
    revert key
    decide
  refine ⟨hagree, resolveText_eq_of_agree.1 _ _ _ hagree, hirrelevant,
    resolveText_eq_of_agree.2.2.1 _ _ "2" _ hirrelevant, ?_, hnone,
    resolveText_eq_of_agree.2.2.2 _ _ hnone⟩
  rw [Policy.Reads.resolveText_eq (hpolicy ▸ hreads)]
  decide

end PropertyTemplate
