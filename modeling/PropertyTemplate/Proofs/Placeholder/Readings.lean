import Mathlib.Data.List.Forall2
import PropertyTemplate.Proofs.Placeholder.Tokens

/-! # Texts as a policy reads them

A policy reads a text as literal pieces and one key for each token, with what replaces the token if
the key is not bound. There is one such reading, whatever the store. So a resolved text depends on
the two keys of the policy and on these keys alone; no store at all is a store that binds nothing.
-/

namespace PropertyTemplate

open Delimiters Text

/-- The value of a key. Without a store no key has one. -/
def Store.boundIn (store : Option Store) (key : String) : Option String :=
  store.bind fun s => s.get? key

/-- What replaces a token, if `values` are the values of keys. -/
def replacement (values : String → Option String) (reading : String × String) : String :=
  (values reading.1).getD reading.2

def Pieces.resolved (pieces : Pieces Char) (readings : List (String × String))
    (values : String → Option String) : String :=
  String.ofList (pieces.fill (readings.map fun reading => (replacement values reading).toList))

theorem Pieces.resolved_congr {pieces : Pieces Char} {readings : List (String × String)}
    {values values' : String → Option String}
    (h : ∀ reading ∈ readings, values reading.1 = values' reading.1) :
    pieces.resolved readings values = pieces.resolved readings values' := by
  unfold resolved
  congr 2
  apply List.map_congr_left
  intro reading hmem
  rw [replacement, replacement, h reading hmem]

namespace Policy

variable {p : Policy} {text content key key' fallback fallback' : String}
  {pieces pieces' : Pieces Char} {readings readings' : List (String × String)}

theorem value_read (store : Option Store) : (read store).value =
    ⟨eqIgnoringCase ((Store.boundIn store enableKey).getD "false") "true",
      (Store.boundIn store separatorKey).getD ":"⟩ := by
  cases store with
  | none => rfl
  | some store => rfl

theorem Reading.unique (h : p.Reading content key fallback)
    (h' : p.Reading content key' fallback') : key = key' ∧ fallback = fallback' := by
  cases h with
  | split henabled hcut =>
    cases h' with
    | split _ hcut' =>
      obtain ⟨hkey, hfallback⟩ := hcut.unique hcut'
      exact ⟨String.toList_inj.1 hkey, String.toList_inj.1 hfallback⟩
    | whole hno => exact absurd ⟨henabled, hcut.isInfix⟩ hno
  | whole hno =>
    cases h' with
    | split henabled hcut' => exact absurd ⟨henabled, hcut'.isInfix⟩ hno
    | whole _ => exact ⟨rfl, rfl⟩

theorem readings_unique {contents : List (List Char)}
    (h : List.Forall₂ (fun content reading =>
      p.Reading (String.ofList content) reading.1 reading.2) contents readings)
    (h' : List.Forall₂ (fun content reading =>
      p.Reading (String.ofList content) reading.1 reading.2) contents readings') :
    readings = readings' := by
  refine List.right_unique_forall₂' ?_ h h'
  intro content reading reading' hreading hreading'
  obtain ⟨hkey, hfallback⟩ := hreading.unique hreading'
  exact Prod.ext hkey hfallback

/-- A policy reads a text as pieces, and their contents as keys and what replaces their tokens if
the keys are not bound. -/
structure Reads (p : Policy) (text : String) (pieces : Pieces Char)
    (readings : List (String × String)) : Prop where
  cut : ∃ segments, placeholder.Segmentation text.toList segments ∧
    pieces = placeholder.pieces segments
  readings : List.Forall₂ (fun content reading =>
    p.Reading (String.ofList content) reading.1 reading.2) pieces.contents readings

theorem exists_reads (p : Policy) (text : String) :
    ∃ pieces readings, p.Reads text pieces readings := by
  obtain ⟨segments, hsegments⟩ := placeholder.exists_segmentation text.toList
  obtain ⟨readings, hreadings, -⟩ :=
    Resolver.exists_readings ⟨fun _ => none⟩ p (placeholder.pieces segments).contents
  exact ⟨_, readings, ⟨segments, hsegments, rfl⟩, hreadings⟩

namespace Reads

theorem unique (h : p.Reads text pieces readings) (h' : p.Reads text pieces' readings') :
    pieces = pieces' ∧ readings = readings' := by
  obtain ⟨segments, hsegments, rfl⟩ := h.cut
  obtain ⟨segments', hsegments', rfl⟩ := h'.cut
  obtain rfl := hsegments.unique hsegments'
  exact ⟨rfl, readings_unique h.readings h'.readings⟩

theorem resolve_eq (h : p.Reads text pieces readings) (store : Store) :
    (Resolver.mk (some store) p).resolve text =
      ⟨pieces.resolved readings store.get?, readings.map (·.1)⟩ := by
  obtain ⟨segments, hsegments, rfl⟩ := h.cut
  obtain ⟨readings', hreadings', hmap⟩ :=
    Resolver.exists_readings store p (placeholder.pieces segments).contents
  obtain rfl := readings_unique h.readings hreadings'
  rw [Resolver.resolve_eq_fill hsegments, hmap]
  simp [bind, pure, Pieces.resolved, replacement]

end Reads

end Policy

theorem Resolver.value_resolve_congr {r r' : Resolver}
    (h : ∀ content, (r.value content).value = (r'.value content).value) (text : String) :
    (r.resolve text).value = (r'.resolve text).value := by
  obtain ⟨segments, hsegments⟩ := placeholder.exists_segmentation text.toList
  rw [Resolver.resolve_eq_fill hsegments, Resolver.resolve_eq_fill hsegments]
  simp only [Recorded.value_bind, Recorded.value_pure, Recorded.mapM_eq, Recorded.value_map, h]

theorem resolveText_none (text : String) :
    resolveText none text = resolveText (some ⟨fun _ => none⟩) text := by
  refine Resolver.value_resolve_congr (fun content => ?_) text
  rfl

theorem Policy.Reads.resolveText_eq {text : String} {pieces : Pieces Char}
    {readings : List (String × String)} {store : Option Store}
    (h : (Policy.read store).value.Reads text pieces readings) :
    resolveText store text = pieces.resolved readings (Store.boundIn store) := by
  cases store with
  | none =>
    rw [resolveText_none]
    exact congrArg Recorded.value (h.resolve_eq ⟨fun _ => none⟩)
  | some store => exact congrArg Recorded.value (h.resolve_eq store)

end PropertyTemplate
