import Mathlib.Logic.Relation
import PropertyTemplate.Proofs.Template.OctetScan
import PropertyTemplate.Proofs.Template.Rendering

/-! # The runs of a scan in octets

A run goes through its rounds until it is done, and asks its handler on the way. It keeps step with
the scan that goes through the characters: where that one is at a position, this one is at its
offset. So both call the handler alike and have the same output.
-/

namespace PropertyTemplate.OctetScan

open Text

variable {d : Delimiters Char} {text : String} {state state' : State} {needle : List Char}

section Fidelity

variable {m : Type → Type} [Monad m]

/-- The output of a scan from a state, unless it asks for text that is not there. -/
def run (d : Delimiters Char) (text : String) (handle : String → m String) (state : State) :
    m (Option String) :=
  match _h : next d text state with
  | none => return none
  | some (.finish output) => return some output
  | some (.go state) => run d text handle state
  | some (.ask content resume) => do
    let value ← handle content
    run d text handle (resume value)
termination_by state.due text.utf8ByteSize
decreasing_by
  · exact Advance.due_lt (Step.advance ⟨_, _h, .go _⟩)
  · exact Advance.due_lt (Step.advance ⟨_, _h, .answer _ _ value⟩)

variable {handle : String → m String} {position found : Nat} {output content : List Char}

theorem run_eq_of_go (h : next d text state = some (.go state')) :
    run d text handle state = run d text handle state' := by
  rw [run]
  split <;> rename_i hnext <;> cases hnext.symm.trans h
  rfl

theorem run_eq_of_finish {output : String} (h : next d text state = some (.finish output)) :
    run d text handle state = pure (some output) := by
  rw [run]
  split <;> rename_i hnext <;> cases hnext.symm.trans h
  rfl

theorem run_eq_of_ask {content : String} {resume : String → State}
    (h : next d text state = some (.ask content resume)) :
    run d text handle state = handle content >>= fun value => run d text handle (resume value) := by
  rw [run]
  split <;> rename_i hnext <;> cases hnext.symm.trans h
  rfl

theorem findOffset?_of_findFrom (hne : needle ≠ []) (hle : position ≤ text.toList.length)
    (h : findFrom needle text.toList position = some found) :
    findOffset? needle text (offsetOf text.toList position) =
      some (offsetOf text.toList found) := by
  rw [findOffset?_offsetOf hne hle, h, Option.map_some]

theorem findOffset?_of_findFrom_eq_none (hne : needle ≠ []) (hle : position ≤ text.toList.length)
    (h : findFrom needle text.toList position = none) :
    findOffset? needle text (offsetOf text.toList position) = none := by
  rw [findOffset?_offsetOf hne hle, h, Option.map_none]

theorem slice?_rest (text : String) (h : position ≤ text.toList.length) :
    slice? text (offsetOf text.toList position) text.utf8ByteSize =
      some (String.ofList (text.toList.drop position)) := by
  rw [utf8ByteSize_eq, ← offsetOf_length, slice?_offsetOf text h, List.extract_eq_take_drop,
    ← List.length_drop, List.take_length]

theorem ofList_append_toList (x : List Char) (y : String) :
    String.ofList (x ++ y.toList) = String.ofList x ++ y := by
  rw [String.ofList_append, String.ofList_toList]

def onChars (handle : String → m String) (content : List Char) : m (List Char) :=
  String.toList <$> handle (String.ofList content)

theorem run_of_findFrom_eq_none (output : List Char) (hle : position ≤ text.toList.length)
    (hfind : findFrom d.opening text.toList position = none) :
    run d text handle (.outside (offsetOf text.toList position) (String.ofList output)) =
      pure (some (String.ofList (output ++ text.toList.drop position))) := by
  apply run_eq_of_finish
  have hoffset := findOffset?_of_findFrom_eq_none d.opening_ne_nil hle hfind
  simp only [next, hoffset, slice?_rest text hle, String.ofList_append]
  rfl

theorem run_at_end (output : List Char) :
    run d text handle (.outside text.utf8ByteSize (String.ofList output)) =
      pure (some (String.ofList output)) := by
  have hnone : findFrom d.opening text.toList text.toList.length = none := by
    apply findFrom_eq_none
    rw [List.drop_length, List.infix_nil]
    exact d.opening_ne_nil
  rw [utf8ByteSize_eq, ← offsetOf_length, run_of_findFrom_eq_none output (Nat.le_refl _) hnone,
    List.drop_length, List.append_nil]

variable (hescape : d.escape = '\\')
include hescape

theorem isEscaped?_of_findFrom (hfind : findFrom needle text.toList position = some found) :
    isEscaped? text (offsetOf text.toList found) (offsetOf text.toList position) =
      some (d.isEscaped text.toList found position) := by
  obtain ⟨hge, hend⟩ := bounds_of_findFrom hfind
  rw [isEscaped?_offsetOf hge (by omega), Delimiters.isEscaped, hescape]

theorem slice?_of_isEscaped (h : d.isEscaped text.toList found position = true) :
    slice? text (offsetOf text.toList position) (offsetOf text.toList found - 1) =
      some (String.ofList (text.toList.extract position (found - 1))) := by
  rw [Delimiters.isEscaped, hescape, Bool.and_eq_true, decide_eq_true_iff, decide_eq_true_iff] at h
  obtain ⟨hlt, hmark⟩ := h
  rw [offsetOf_sub_one_of_escape (Nat.zero_lt_of_lt hlt) hmark]
  exact slice?_offsetOf text (Nat.le_sub_one_of_lt hlt)

theorem next_outside (output : List Char) (hle : position ≤ text.toList.length)
    (hfind : findFrom d.opening text.toList position = some found) :
    next d text (.outside (offsetOf text.toList position) (String.ofList output)) =
      some (.go (if d.isEscaped text.toList found position then
        .outside (offsetOf text.toList (found + d.opening.length))
          (String.ofList (output ++ text.toList.extract position (found - 1) ++ d.opening))
      else
        .inside (offsetOf text.toList found) (offsetOf text.toList (found + d.opening.length))
          (String.ofList []) (String.ofList (output ++ text.toList.extract position found)))) := by
  have hoffset := findOffset?_of_findFrom d.opening_ne_nil hle hfind
  have hend := offsetOf_add_of_findFrom hfind
  have hjudged := isEscaped?_of_findFrom hescape hfind
  cases hescaped : d.isEscaped text.toList found position with
  | true =>
    have hbefore := slice?_of_isEscaped hescape hescaped
    simp only [next, hoffset, hjudged, hescaped, hbefore, hend, String.ofList_append, if_true]
    rfl
  | false =>
    have hbefore := slice?_offsetOf text (bounds_of_findFrom hfind).1
    simp only [next, hoffset, hjudged, hescaped, hbefore, hend, String.ofList_append]
    rfl

theorem next_inside (start : Nat) (content : List Char) (output : String)
    (hle : position ≤ text.toList.length)
    (hfind : findFrom d.closing text.toList position = some found) :
    next d text (.inside start (offsetOf text.toList position) (String.ofList content) output) =
      some (if d.isEscaped text.toList found position then
        .go (.inside start (offsetOf text.toList (found + d.closing.length))
          (String.ofList (content ++ text.toList.extract position (found - 1) ++ d.closing)) output)
      else
        .ask (String.ofList (content ++ text.toList.extract position found)) fun value =>
          .outside (offsetOf text.toList (found + d.closing.length)) (output ++ value)) := by
  have hoffset := findOffset?_of_findFrom d.closing_ne_nil hle hfind
  have hend := offsetOf_add_of_findFrom hfind
  have hjudged := isEscaped?_of_findFrom hescape hfind
  cases hescaped : d.isEscaped text.toList found position with
  | true =>
    have hbefore := slice?_of_isEscaped hescape hescaped
    simp only [next, hoffset, hjudged, hescaped, hbefore, hend, String.ofList_append, if_true]
    rfl
  | false =>
    have hbefore := slice?_offsetOf text (bounds_of_findFrom hfind).1
    simp only [next, hoffset, hjudged, hescaped, hbefore, hend, String.ofList_append]
    rfl

/-- In a token the run reads a content as the scan of the characters does, fragment by fragment. -/
theorem run_inside {start : Nat} {output : String} (hstart : start ≤ text.toList.length)
    (hle : position ≤ text.toList.length) :
    run d text handle (.inside (offsetOf text.toList start) (offsetOf text.toList position)
        (String.ofList content) output) =
      match d.readContent text.toList position content with
      | none => run d text handle
          (.outside text.utf8ByteSize (output ++ String.ofList (text.toList.drop start)))
      | some (content, stop) => handle (String.ofList content) >>= fun value => run d text handle
          (.outside (offsetOf text.toList (stop + d.closing.length)) (output ++ value)) := by
  fun_induction Delimiters.readContent d text.toList position content with
  | case1 position content hfind =>
    apply run_eq_of_go
    have hoffset := findOffset?_of_findFrom_eq_none d.closing_ne_nil hle hfind
    simp only [next, hoffset, slice?_rest text hstart]
    rfl
  | case2 position content stop hfind hescaped ih =>
    have hnext := next_inside hescape (offsetOf text.toList start) content output hle hfind
    rw [if_pos hescaped] at hnext
    rw [run_eq_of_go hnext]
    exact ih (bounds_of_findFrom hfind).2
  | case3 position content stop hfind hescaped =>
    have hnext := next_inside hescape (offsetOf text.toList start) content output hle hfind
    rw [if_neg hescaped] at hnext
    exact run_eq_of_ask hnext

/-- Where the scan of the characters stands at a position, the run at its offset goes on alike. -/
theorem run_outside [LawfulMonad m] (hle : position ≤ text.toList.length) :
    run d text handle (.outside (offsetOf text.toList position) (String.ofList output)) =
      (fun output => some (String.ofList output)) <$>
        d.scanFrom (onChars handle) text.toList position output := by
  fun_induction Delimiters.scanFrom d (onChars handle) text.toList position output with
  | case1 position output hfind =>
    rw [run_of_findFrom_eq_none output hle hfind, map_pure]
  | case2 position output start hfind hescaped ih =>
    have hnext := next_outside hescape output hle hfind
    rw [if_pos hescaped] at hnext
    rw [run_eq_of_go hnext]
    exact ih (bounds_of_findFrom hfind).2
  | case3 position output start hfind hescaped hcontent =>
    obtain ⟨-, hend⟩ := bounds_of_findFrom hfind
    have hnext := next_outside hescape output hle hfind
    rw [if_neg hescaped] at hnext
    rw [run_eq_of_go hnext, run_inside hescape (by omega) hend, hcontent, map_pure]
    -- The token is never closed, so the run stands at the end of the text and finds no other.
    dsimp only
    rw [← String.ofList_append, run_at_end]
  | case4 position output start hfind hescaped content stop hcontent ih =>
    obtain ⟨-, hend⟩ := bounds_of_findFrom hfind
    obtain ⟨-, hstop⟩ := d.bounds_of_readContent hcontent
    have hnext := next_outside hescape output hle hfind
    rw [if_neg hescaped] at hnext
    rw [run_eq_of_go hnext, run_inside hescape (by omega) hend, hcontent, onChars, map_bind,
      bind_map_left]
    apply bind_congr
    intro value
    rw [← ofList_append_toList, ih value.toList hstop]

end Fidelity

theorem fields_of_ofTexts {opening closing : String} {d : Delimiters Char}
    (h : Delimiters.ofTexts opening closing = .ok d) :
    d.opening = opening.toList ∧ d.closing = closing.toList ∧ d.escape = '\\' := by
  unfold Delimiters.ofTexts at h
  split at h
  · cases h
  · split at h <;> cases h
    exact ⟨rfl, rfl, rfl⟩

/-- A scan that counts in octets only asks for text that is there, goes on in every round, and makes
of a text what the scan of its characters makes of it. -/
theorem run_safe_and_eq_scanM {opening closing : String} {d : Delimiters Char}
    (h : Delimiters.ofTexts opening closing = .ok d) (text : String) :
    (∀ state, Relation.ReflTransGen (Step d text) (.outside 0 "") state →
      state.Safe d text ∧ (next d text state).isSome) ∧
    (∀ offset output offset' output',
      Relation.TransGen (Step d text) (.outside offset output) (.outside offset' output') →
      offset + opening.utf8ByteSize ≤ offset') ∧
    (∀ start offset content output start' offset' content' output',
      Step d text (.inside start offset content output) (.inside start' offset' content' output') →
      offset + closing.utf8ByteSize ≤ offset') ∧
    WellFounded (Function.swap (Step d text)) ∧
    ∀ {m : Type → Type} [Monad m] [LawfulMonad m] (handle : String → m String),
      run d text handle (.outside 0 "") =
        (fun output => some (String.ofList output)) <$> d.scanM (onChars handle) text.toList := by
  obtain ⟨hopening, hclosing, hescape⟩ := fields_of_ofTexts h
  refine ⟨?_, ?_, ?_, ?_, ?_⟩
  · intro state hreach
    have hsafe := safe_of_reachable hreach
    exact ⟨hsafe, hsafe.isSome_next⟩
  · intro offset output offset' output' hsteps
    rw [utf8ByteSize_eq, ← hopening]
    exact behind_of_transGen hsteps
  · intro start offset content output start' offset' content' output' hstep
    rw [utf8ByteSize_eq, ← hclosing]
    cases hstep.advance with
    | escapedClosing hfind => exact Nat.add_le_add_right (bounds_of_findOffset? hfind).1 _
  · exact Subrelation.wf (fun hstep => hstep.advance.due_lt)
      (measure (State.due text.utf8ByteSize)).wf
  · intro m _ _ handle
    exact run_outside hescape (Nat.zero_le _)

/-- Delimiters and text of several octets for a character. -/
theorem run_between_guillemets :
    ∃ d, Delimiters.ofTexts "«" "»" = .ok d ∧
      Id.run (run d "é\\«a» «ü\\»»✓" (fun content => pure ("<" ++ content ++ ">"))
        (.outside 0 "")) = some "é«a» <ü»>✓" := by
  have h : Delimiters.ofTexts "«" "»" =
      .ok ⟨"«".toList, "»".toList, '\\', by decide, by decide⟩ := rfl
  refine ⟨_, h, ?_⟩
  rw [(run_safe_and_eq_scanM h _).2.2.2.2]
  decide +kernel

end PropertyTemplate.OctetScan
