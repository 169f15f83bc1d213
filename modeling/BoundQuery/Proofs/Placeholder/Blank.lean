import Mathlib.Data.List.TakeWhile
import BoundQuery.Proofs.Placeholder.Qualified

/-!
# Blank texts

A text is blank when all of its characters are (`isBlankText_iff`), so one in two parts is blank
when both are. A blank text holds no placeholder, and what is written in the place of one is not
blank: exchanging placeholders makes no text blank that was not, and the other way around
(`isBlankText_exchanged`).
-/

namespace BoundQuery

open Placeholder (Quiet)

namespace Text

/-- A text is blank when all of its characters are. -/
theorem isBlankText_iff {text : String} :
    isBlankText text = true ↔ ∀ c ∈ text.toList, isBlank c = true := by
  have hStart : ∀ {cs : List Char}, trimStart cs = [] ↔ ∀ c ∈ cs, isBlank c = true :=
    List.dropWhile_eq_nil_iff
  rw [isBlankText, beq_iff_eq, trim, String.ofList_eq_empty_iff, trimChars,
    List.reverse_eq_nil_iff, hStart]
  simp only [List.mem_reverse]
  rw [← hStart, trimStart_trimStart, hStart]

@[simp] theorem isBlankText_append (front back : String) :
    isBlankText (front ++ back) = (isBlankText front && isBlankText back) := by
  rw [Bool.eq_iff_iff, Bool.and_eq_true, isBlankText_iff, isBlankText_iff, isBlankText_iff,
    String.toList_append, List.forall_mem_append]

/-- Blanks mean nothing to a scan. -/
theorem quiet_of_isBlankText {text : String} (h : isBlankText text = true) :
    Quiet text.toList := by
  intro c hc
  have hBlank := isBlankText_iff.mp h c hc
  refine ⟨?_, ?_, ?_⟩ <;> rintro rfl <;> exact absurd hBlank (by decide)

end Text

open Text (isBlankText)

theorem Scope.isBlankText_qualify (scope : Scope) (field : Field) :
    isBlankText (scope.qualify field.text) = false := by
  obtain ⟨front, -, hEq⟩ := scope.qualify_eq field.text
  simp [hEq]

namespace Placeholder

theorem isBlankText_of_kinds {text : String} (h : kinds text ≠ []) : isBlankText text = false := by
  rw [← Bool.not_eq_true]
  intro hBlank
  exact h (kinds_quiet (Text.quiet_of_isBlankText hBlank))

theorem exchange_of_kinds_eq_nil {parts : List Segment} (h : parts.filterMap Segment.kind? = [])
    (answers : List (Option Nat)) : exchange answers parts = parts := by
  induction parts with
  | nil => rfl
  | cons part rest ih =>
      cases part with
      | plain c => exact congrArg (Segment.plain c :: ·) (ih h)
      | marker kind spelling => exact absurd h (List.cons_ne_nil _ _)

theorem isBlankText_exchanged (answers : List (Option Nat)) (text : String) :
    isBlankText (exchanged answers text) = isBlankText text := by
  by_cases hNone : kinds text = []
  · have hSame : exchange answers (segments text) = segments text :=
      exchange_of_kinds_eq_nil (by rw [← kinds_eq, hNone]) answers
    rw [exchanged, hSame, spelling_segments]
  · have hSome : kinds (exchanged answers text) ≠ [] := by
      rw [kinds_exchanged]
      obtain ⟨kind, rest, hKinds⟩ := List.exists_cons_of_ne_nil hNone
      rw [hKinds]
      exact List.cons_ne_nil _ _
    rw [isBlankText_of_kinds hNone, isBlankText_of_kinds hSome]

theorem isBlankText_renumber (text : String) (number : Nat) :
    isBlankText (renumber text number) = isBlankText text := by
  rw [renumber_eq_exchanged, isBlankText_exchanged]

theorem isBlankText_numberFrom (text : String) (first : Nat) :
    isBlankText (numberFrom text first) = isBlankText text := by
  rw [numberFrom_eq_exchanged, isBlankText_exchanged]

end Placeholder

end BoundQuery
