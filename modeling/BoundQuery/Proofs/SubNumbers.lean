import BoundQuery.Proofs.HavingNumbers
import BoundQuery.Proofs.Placeholder.Substitution

/-!
# The numbers of a sub-expression

By position, every placeholder of a sub-expression takes one value, and the places count on from the
values bound before. Two passes over the text have to agree: one counts the places before anything
is bound, the other writes the numbers. `bytes_numberFrom` says what the second one does to the
text, and `numbers_of_sub` puts both together. A sub-expression without arguments is not counted at
all; its placeholders stay as they are (`not_every_sub_counted`).
-/

namespace BoundQuery

namespace Placeholder

open Text (bytes spliced)

/-- The spans of the positional placeholders, with placeholders numbered upwards from `first`. -/
def numberedSpans (first : Nat) (list : List Placeholder) : List (Span × String) :=
  ((list.filter (·.kind.isPositional)).zipIdx first).map fun (token, number) =>
    (token.span, positionalText number)

/-- Counting upwards answers the positional placeholders with the numbers from `first` on. -/
theorem edits_count (first : Nat) (list : List Placeholder) :
    edits list ((answersFrom countAnswer countNext first (list.map (·.kind))).map
        (·.map positionalText)) =
      numberedSpans first list := by
  induction list generalizing first with
  | nil => rfl
  | cons token rest ih =>
      obtain ⟨kind, span⟩ := token
      cases kind with
      | positional number => exact congrArg ((span, positionalText first) :: ·) (ih (first + 1))
      | named name => exact ih first

/-- Numbering upwards puts a number in the place of each positional placeholder, and keeps every
other byte. -/
theorem bytes_numberFrom (text : String) (first : Nat) :
    bytes (numberFrom text first) =
      spliced (bytes text) 0 (numberedSpans first (placeholders text)) := by
  rw [numberFrom_eq_exchanged, exchanged, ← replaced_positionalText, bytes_replaced, kinds,
    edits_count]

/-- Nothing is numbered in a text without positional placeholders. -/
theorem numberFrom_of_still {text : String} (h : positionalCount text = 0) (first : Nat) :
    numberFrom text first = text := by
  have hNone : (placeholders text).filter (·.kind.isPositional) = [] := by
    rw [← List.length_eq_zero_iff, ← List.countP_eq_length_filter]
    exact h
  refine Text.bytes_inj.mp ?_
  rw [bytes_numberFrom, numberedSpans, hNone]
  rfl

end Placeholder

namespace Snippet

open Placeholder (numberFrom numberedSpans positionalCount)
open Text (bytes spliced)

/-- A sub-expression with plain values goes through without any, or with as many as it has places;
only then is it numbered. -/
theorem finish_sub_values (text : String) (values bound : List Value) :
    (writeSub text (values.map .value)).finish (.positional bound) =
      if values = [] ∨ positionalCount text = values.length then
        .ok (if positionalCount text = values.length then numberFrom text (bound.length + 1)
          else text, .positional (bound ++ values))
      else .error (.miscount text (positionalCount text) values.length) := by
  cases values with
  | nil =>
      show Except.ok (text, Bindings.positional bound) = _
      rw [if_pos (.inl rfl), List.append_nil]
      by_cases hStill : positionalCount text = ([] : List Value).length
      · rw [if_pos hStill, Placeholder.numberFrom_of_still hStill]
      · rw [if_neg hStill]
  | cons value rest =>
      have hPlaced : placedSub bound.length text ((value :: rest).map .value) =
          if positionalCount text = (value :: rest).length then
            .ok (numberFrom text (bound.length + 1), value :: rest)
          else .error (.miscount text (positionalCount text) (value :: rest).length) := by
        rw [placedSub, plainValues_map]
      rw [Piece.finish_sub_positional, if_neg (by simp), hPlaced]
      by_cases hCount : positionalCount text = (value :: rest).length
      · rw [if_pos hCount, if_pos (.inr hCount), if_pos hCount]
        rfl
      · rw [if_neg hCount, if_neg (not_or.mpr ⟨List.cons_ne_nil value rest, hCount⟩)]
        rfl

/-- A sub-expression with plain values, written after others by position. It is refused, for its
count, just when there are values but not as many as places. Otherwise the values are appended: with
as many values as places, the places are numbered from left to right after the values before, and
every other byte of the text is kept; with no values, the text is kept with all its places. -/
theorem numbers_of_sub (text : String) (values bound : List Value) :
    let outcome := (writeSub text (values.map .value)).finish (.positional bound)
    let places := positionalCount text
    ((∃ result, outcome = .ok result) ↔ values = [] ∨ places = values.length) ∧
    (∀ fault, outcome = .error fault ↔
      values ≠ [] ∧ places ≠ values.length ∧ fault = .miscount text places values.length) ∧
    ∀ written after, outcome = .ok (written, after) →
      after = .positional (bound ++ values) ∧
      (values = [] → written = text) ∧
      (places = values.length →
        bytes written =
          spliced (bytes text) 0 (numberedSpans (bound.length + 1) (placeholders text))) := by
  intro outcome places
  have hOutcome : outcome = _ := finish_sub_values text values bound
  by_cases hGoes : values = [] ∨ places = values.length
  · rw [if_pos hGoes] at hOutcome
    refine ⟨iff_of_true ⟨_, hOutcome⟩ hGoes, ?_, ?_⟩
    · intro fault
      refine iff_of_false ?_ fun hRefused => ?_
      · rw [hOutcome]
        exact fun hFalse => absurd hFalse (by simp)
      · exact hGoes.elim hRefused.1 hRefused.2.1
    · intro written after hOk
      obtain ⟨rfl, rfl⟩ := Prod.mk.inj (Except.ok.inj (hOutcome.symm.trans hOk))
      refine ⟨rfl, fun hNone => ?_, fun hCount => ?_⟩
      · by_cases hCount : places = values.length
        · rw [hNone] at hCount
          rw [if_pos (by rw [hNone]; exact hCount), Placeholder.numberFrom_of_still hCount]
        · rw [if_neg hCount]
      · rw [if_pos hCount, Placeholder.bytes_numberFrom]
  · rw [if_neg hGoes] at hOutcome
    obtain ⟨hSome, hCount⟩ := not_or.mp hGoes
    refine ⟨iff_of_false ?_ hGoes, ?_, ?_⟩
    · rintro ⟨result, hOk⟩
      exact absurd (hOutcome.symm.trans hOk) (by simp)
    · intro fault
      rw [hOutcome, Except.error.injEq, eq_comm]
      exact ⟨fun hFault => ⟨hSome, hCount, hFault⟩, fun hRefused => hRefused.2.2⟩
    · intro written after hOk
      exact absurd (hOutcome.symm.trans hOk) (by simp)

/-- A sub-expression with two places behind two values. -/
theorem numbers_of_sub_between :
    (writeSub "e.a BETWEEN ? AND ?7" ([.integer 10, .integer 20].map .value)).finish
        (.positional [.integer 1, .integer 2]) =
      .ok ("e.a BETWEEN ?3 AND ?4",
        .positional [.integer 1, .integer 2, .integer 10, .integer 20]) ∧
    bytes "e.a BETWEEN ?3 AND ?4" = spliced (bytes "e.a BETWEEN ? AND ?7") 0
      [(⟨12, 13⟩, "?3"), (⟨18, 20⟩, "?4")] := by
  have hOk : (writeSub "e.a BETWEEN ? AND ?7" ([.integer 10, .integer 20].map .value)).finish
      (.positional [.integer 1, .integer 2]) =
      .ok ("e.a BETWEEN ?3 AND ?4",
        .positional [.integer 1, .integer 2, .integer 10, .integer 20]) := rfl
  have hPlaces : positionalCount "e.a BETWEEN ? AND ?7" = 2 := by decide +kernel
  have hSpans : numberedSpans 3 (placeholders "e.a BETWEEN ? AND ?7") =
      [(⟨12, 13⟩, "?3"), (⟨18, 20⟩, "?4")] := by decide +kernel
  obtain ⟨-, -, hWritten⟩ := numbers_of_sub "e.a BETWEEN ? AND ?7" [.integer 10, .integer 20]
    [.integer 1, .integer 2]
  refine ⟨hOk, ?_⟩
  rw [← hSpans]
  exact (hWritten _ _ hOk).2.2 hPlaces

/-- A sub-expression without arguments keeps a place that no value is for. -/
theorem not_every_sub_counted :
    ¬ ∀ (text : String) (values bound : List Value),
      (∃ result,
          (writeSub text (values.map .value)).finish (.positional bound) = .ok result) ↔
        positionalCount text = values.length := by
  intro hCounted
  have hPlaces : positionalCount "e.a = ?" = 1 := by decide +kernel
  have hNone : positionalCount "e.a = ?" = 0 := (hCounted "e.a = ?" [] []).mp ⟨_, rfl⟩
  omega

end Snippet

end BoundQuery
