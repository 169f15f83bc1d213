import BoundQuery.Proofs.ArgumentsKept
import BoundQuery.Proofs.Placeholder.Seam
import BoundQuery.Proofs.Statements
import BoundQuery.Proofs.Update

/-!
# Clauses behind a condition

The clauses of a call are written right behind the condition, with nothing between them. A clause
that has a word of its own, such as GROUP BY, puts a space in front of it; a condition in place, a
sub-expression and a native fragment do not, so that they may read on from what stands before them.
`placeholders_of_query` says that this is all that can go wrong: a query has just the placeholders
that its condition and its clauses have on their own, in turn, if and only if no clause without a
word of its own fuses with the text before it.
-/

namespace BoundQuery

open Placeholder (Apart Fuses apart_of_front inTurn kinds kinds_inTurn)
open Text (byteLength)

namespace Clause

/-- Whether a clause starts with a word of its own. -/
def isHeaded : Clause → Bool
  | .groupBy _ | .orderBy _ | .having _ | .aggregate _ => true
  | .condition _ | .sub _ | .native _ => false

/-- No clause of a list reads on from the text before it; one with a word of its own cannot. -/
def StandApart (scope : Scope) (front : String) (bindings : Bindings) : List Clause → Prop
  | [] => True
  | clause :: rest =>
      (clause.isHeaded = false → ¬ Fuses front (clause.write scope bindings).text) ∧
        StandApart scope (front ++ (clause.write scope bindings).text)
          (clause.write scope bindings).bindings rest

/-- The word of a clause comes behind a space. -/
theorem apart_of_isHeaded {clause : Clause} (h : clause.isHeaded = true) (scope : Scope)
    (bindings : Bindings) : Apart (clause.write scope bindings).text.toList := by
  have hFields : ∀ (word : String) (fields : Fields),
      Apart (scope.fieldClause word fields).toList := by
    intro word fields
    rw [Scope.fieldClause, String.append_assoc, String.append_assoc]
    exact apart_of_front (by decide) rfl _
  have hWord : ∀ step : Step, Apart ((Step.emit " HAVING " ++ step) bindings).text.toList := by
    intro step
    show Apart (" HAVING " ++ (step bindings).text).toList
    exact apart_of_front (by decide) rfl _
  cases clause with
  | groupBy fields => exact hFields "GROUP BY" fields
  | orderBy fields => exact hFields "ORDER BY" fields
  | aggregate aggregate => exact hFields "GROUP BY" aggregate.fields
  | having having =>
      cases having with
      | condition condition => exact hWord _
      | text snippet =>
          obtain ⟨text, arguments⟩ := snippet
          exact hWord _
  | condition condition => exact absurd h (by simp [isHeaded])
  | sub snippet => exact absurd h (by simp [isHeaded])
  | native snippet => exact absurd h (by simp [isHeaded])

theorem standApart_iff {scope : Scope} {front : String} {bindings : Bindings}
    {clauses : List Clause} :
    StandApart scope front bindings clauses ↔
      Placeholder.StandApart front ((drafts scope bindings clauses).map Draft.text) := by
  induction clauses generalizing front bindings with
  | nil => exact Iff.rfl
  | cons clause rest ih =>
      refine and_congr ⟨fun h => ?_, fun h _ => h⟩ ih
      cases hHeaded : clause.isHeaded with
      | false => exact h hHeaded
      | true =>
          exact Placeholder.not_fuses_of_apart (apart_of_isHeaded hHeaded scope bindings) front

end Clause

/-! ## Queries -/

/-- The query of a call that goes through is the text of its condition and then what each clause
adds, written on what the one before it has left. Where none of these leaves a literal open, a scan
of the query finds the placeholders of the condition and then those of each clause, as they are when
that text is scanned alone, just when no clause without a word of its own fuses with the text before
it. -/
theorem placeholders_of_query {scope : Scope} {assignments : Option (List Assignment)}
    {condition : Option Condition} {arguments : List Argument} {compiled : Compiled}
    (hOk : compile scope assignments condition arguments = .ok compiled) :
    ∃ before,
      (frontStep scope assignments condition).finish (opening condition arguments) =
        .ok (compiled.assignments.getD "" ++ compiled.text, before) ∧
      let clauses := arguments.filterMap Argument.clause?
      let added := (Clause.drafts scope before clauses).map Draft.text
      compiled.query = compiled.text ++ String.join added ∧
      (EvenQuotes compiled.text → (∀ text ∈ added, EvenQuotes text) →
        (placeholders compiled.query =
            placeholders compiled.text ++ inTurn (byteLength compiled.text.toList) added ↔
          Clause.StandApart scope compiled.text before clauses) ∧
        (Clause.StandApart scope compiled.text before clauses →
          kinds compiled.query = kinds compiled.text ++ added.flatMap kinds)) := by
  obtain ⟨before, after, hFront, hTail, -, -⟩ := parts_of_compile hOk
  obtain ⟨-, hText, -⟩ := Clause.drafts_of_finish hTail
  refine ⟨before, hFront, ?_, fun hCondition hAdded => ?_⟩
  · rw [Compiled.query, hText]
  · have hIff := Placeholder.placeholders_join_iff hCondition.closed fun text hMem =>
      (hAdded text hMem).closed
    rw [← hText, ← Clause.standApart_iff] at hIff
    refine ⟨hIff, fun hApart => ?_⟩
    have hScan : placeholders compiled.query = _ := hIff.mpr hApart
    rw [kinds, hScan, List.map_append, kinds_inTurn]
    rfl

/-- A native fragment with a value and a HAVING clause, behind a condition in parentheses. -/
theorem placeholders_of_query_behind_group :
    ∃ compiled,
      compile .standard none
          (some (.group (.joined false (hasText statusField "OPEN")
            [(Group.andPhrase, hasText ownerField "A")])))
          [.clause (.native (.mk "NOW" [.value (.integer 7)])),
            .clause (.having (.text (.mk "COUNT(e) > ?" [.value (.integer 2)])))] =
        .ok compiled ∧
      compiled.query = "(e.status = ?1 AND e.owner = ?2)SQL('NOW', ?3) HAVING COUNT(e) > ?4" ∧
      kinds compiled.query = [.positional (some 1), .positional (some 2), .positional (some 3),
        .positional (some 4)] := by
  have hOk : compile .standard none
      (some (.group (.joined false (hasText statusField "OPEN")
        [(Group.andPhrase, hasText ownerField "A")])))
      [.clause (.native (.mk "NOW" [.value (.integer 7)])),
        .clause (.having (.text (.mk "COUNT(e) > ?" [.value (.integer 2)])))] =
      .ok ⟨none, "(e.status = ?1 AND e.owner = ?2)", "SQL('NOW', ?3) HAVING COUNT(e) > ?4",
        .positional [.string "OPEN", .string "A", .integer 7, .integer 2], []⟩ := rfl
  refine ⟨_, hOk, rfl, ?_⟩
  obtain ⟨before, hFront, -, hScan⟩ := placeholders_of_query hOk
  obtain rfl : Bindings.positional [.string "OPEN", .string "A"] = before :=
    congrArg Prod.snd (Except.ok.inj ((rfl : _ = Except.ok _).symm.trans hFront))
  have hEnd : "(e.status = ?1 AND e.owner = ?2)".toList =
      "(e.status = ?1 AND e.owner = ?2".toList ++ [')'] := rfl
  have hSeam := Placeholder.not_fuses_of_end hEnd (by decide)
  have hAdded : ∀ text ∈ ["SQL('NOW', ?3)", " HAVING COUNT(e) > ?4"], EvenQuotes text := by
    decide +kernel
  obtain ⟨-, hKinds⟩ := hScan (by decide +kernel) hAdded
  have hApart : Clause.StandApart .standard "(e.status = ?1 AND e.owner = ?2)"
      (.positional [.string "OPEN", .string "A"])
      [.native (.mk "NOW" [.value (.integer 7)]),
        .having (.text (.mk "COUNT(e) > ?" [.value (.integer 2)]))] :=
    ⟨fun _ => hSeam _, fun hHeaded => absurd hHeaded (by decide), trivial⟩
  refine (hKinds hApart).trans ?_
  show kinds "(e.status = ?1 AND e.owner = ?2)" ++
    ["SQL('NOW', ?3)", " HAVING COUNT(e) > ?4"].flatMap kinds = _
  decide +kernel

/-- Not every clause leaves the placeholders before it as they are: the word of a native fragment
becomes a part of the name at the end of the condition. -/
theorem not_every_clause_scanned_alone :
    ¬ ∀ (scope : Scope) (condition : Option Condition) (arguments : List Argument)
        (compiled : Compiled) (before : Bindings),
        compile scope none condition arguments = .ok compiled →
        (frontStep scope none condition).finish (opening condition arguments) =
          .ok (compiled.text, before) →
        EvenQuotes compiled.text →
        (∀ draft ∈ Clause.drafts scope before (arguments.filterMap Argument.clause?),
          EvenQuotes draft.text) →
        kinds compiled.query = kinds compiled.text ++
          (Clause.drafts scope before (arguments.filterMap Argument.clause?)).flatMap
            fun draft => kinds draft.text := by
  intro hAll
  have hOk : compile .standard none (some (hasText statusField "OPEN"))
      [.mapping .empty, .clause (.native (.mk "x" []))] =
      .ok ⟨none, "e.status = :status", "SQL('x')",
        .named ⟨[("status", .string "OPEN")], by decide⟩ [], []⟩ := rfl
  have hEven : ∀ draft ∈ Clause.drafts .standard
      (.named ⟨[("status", .string "OPEN")], by decide⟩) [.native (.mk "x" [])],
      EvenQuotes draft.text :=
    List.forall_mem_singleton.mpr (by decide +kernel)
  have hKinds := hAll _ _ _ _ _ hOk rfl (by decide +kernel) hEven
  have hFused : kinds "e.status = :statusSQL('x')" = [.named "statusSQL"] := by decide +kernel
  have hAlone : kinds "e.status = :status" ++ ["SQL('x')"].flatMap kinds = [.named "status"] := by
    decide +kernel
  exact absurd (hFused.symm.trans (hKinds.trans hAlone)) (by decide)

end BoundQuery
