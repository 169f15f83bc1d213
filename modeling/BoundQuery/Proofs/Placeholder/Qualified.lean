import BoundQuery.Alias
import BoundQuery.Proofs.Placeholder.Exchange

/-!
# Placeholders of qualified fields

An alias is an identifier, so what stands in front of a qualified field is quiet: the placeholders
of the field are those of its text, whether it carries the alias already or not.
-/

namespace BoundQuery

open Placeholder (Quiet Closed kinds numbers)

theorem Alias.quiet_of_isPart {c : Char} (h : isPart c = true) :
    c ≠ '\'' ∧ c ≠ '?' ∧ c ≠ ':' := by
  refine ⟨?_, ?_, ?_⟩ <;> rintro rfl
  · exact absurd h (by decide +kernel)
  · exact absurd h (by decide +kernel)
  · exact absurd h (by decide +kernel)

theorem Alias.isPart_of_mem (name : Alias) : ∀ c ∈ name.text.toList, isPart c = true := by
  have hIdentifier := name.identifier
  cases hText : name.text.toList with
  | nil => exact fun c hc => absurd hc List.not_mem_nil
  | cons first rest =>
      rw [hText, isIdentifier, Bool.and_eq_true, List.all_eq_true] at hIdentifier
      exact hIdentifier.2

theorem Alias.quiet (name : Alias) : Quiet name.text.toList :=
  fun c hc => quiet_of_isPart (name.isPart_of_mem c hc)

namespace Scope

/-- A qualified field is its text, perhaps behind something quiet. -/
theorem qualify_eq (scope : Scope) (field : String) :
    ∃ front, Quiet front.toList ∧ scope.qualify field = front ++ field := by
  rw [qualify]
  split
  · exact ⟨"", by decide, by simp⟩
  · refine ⟨scope.entityAlias.text ++ ".", ?_, rfl⟩
    rw [String.toList_append]
    exact scope.entityAlias.quiet.append (by decide)

theorem kinds_qualify (scope : Scope) (field : String) :
    kinds (scope.qualify field) = kinds field := by
  obtain ⟨front, hQuiet, hEq⟩ := scope.qualify_eq field
  rw [hEq, Placeholder.kinds_quiet_append hQuiet]

theorem numbers_qualify (scope : Scope) (field : String) :
    numbers (scope.qualify field) = numbers field := by
  rw [numbers, kinds_qualify, numbers]

theorem closed_qualify (scope : Scope) {field : String} (h : Closed field) :
    Closed (scope.qualify field) := by
  obtain ⟨front, hQuiet, hEq⟩ := scope.qualify_eq field
  rw [hEq]
  exact (Placeholder.closed_of_quiet hQuiet).append h

end Scope

end BoundQuery
