import BoundQuery.Entity
import BoundQuery.Proofs.Numbering
import BoundQuery.Proofs.Placeholder.Blank
import BoundQuery.Proofs.Placeholder.Joined

/-!
# Statements over one filter

Five kinds of statements read or delete the rows of an entity that a condition lets through. They
are put together on paths of their own, but all around one compiled filter: `Retrieval.run_eq` says
that a statement is the filter with a head, and with a grouping before the tail. So they fail alike
and bind alike (`statements_agree`). The placeholders of the filter were numbered before the
grouping came between its condition and its tail; where the texts around it are inert, the
placeholders of a statement still are those of the filter, in their order.
-/

namespace BoundQuery

open Placeholder (Apart Closed Quiet apart_of_front shifted stops_nil)
open Text (byteLength)

/-! ## Inert texts -/

theorem closed_iff_evenQuotes {text : String} : Closed text ↔ EvenQuotes text := by
  rw [Closed, EvenQuotes, Placeholder.leavesOpen_eq]
  rcases Nat.mod_two_eq_zero_or_one (text.toList.count '\'') with hEven | hOdd
  · simp [hEven]
  · simp [hOdd]

/-- A text without placeholders in which quotes come in pairs. -/
def Inert (text : String) : Prop := EvenQuotes text ∧ placeholders text = []

instance (text : String) : Decidable (Inert text) :=
  inferInstanceAs (Decidable (EvenQuotes text ∧ placeholders text = []))

namespace Inert

theorem quiet {text : String} (h : Quiet text.toList) : Inert text :=
  ⟨closed_iff_evenQuotes.mp (Placeholder.closed_of_quiet h),
    Placeholder.placeholders_eq_nil_iff.mpr (Placeholder.kinds_quiet h)⟩

theorem append {front back : String} (hFront : Inert front) (hBack : Inert back)
    (hApart : Apart back.toList) : Inert (front ++ back) := by
  refine ⟨closed_iff_evenQuotes.mp (hFront.1.closed.append hBack.1.closed), ?_⟩
  rw [Placeholder.placeholders_append hFront.1.closed hApart, hFront.2, hBack.2]
  rfl

theorem quiet_append {front back : String} (hFront : Quiet front.toList) (hBack : Inert back) :
    Inert (front ++ back) := by
  refine ⟨closed_iff_evenQuotes.mp
    ((Placeholder.closed_of_quiet hFront).append hBack.1.closed), ?_⟩
  rw [Placeholder.placeholders_quiet_append hFront, hBack.2]
  rfl

theorem qualify (scope : Scope) {field : String} (h : Inert field) :
    Inert (scope.qualify field) := by
  refine ⟨closed_iff_evenQuotes.mp (scope.closed_qualify h.1.closed), ?_⟩
  rw [Placeholder.placeholders_eq_nil_iff, scope.kinds_qualify,
    Placeholder.placeholders_eq_nil_iff.mp h.2]

theorem qualifyAll (scope : Scope) {fields : List String} (h : ∀ field ∈ fields, Inert field) :
    Inert (scope.qualifyAll fields) := by
  induction fields with
  | nil => exact quiet (by simp [Scope.qualifyAll, Quiet])
  | cons first rest ih =>
      have hFirst := (h first (.head _)).qualify scope
      cases rest with
      | nil => exact hFirst
      | cons second rest =>
          have hRest := ih fun field hField => h field (.tail _ hField)
          have hJoined : scope.qualifyAll (first :: second :: rest) =
              scope.qualify first ++ (", " ++ scope.qualifyAll (second :: rest)) := by
            rw [← String.append_assoc]
            exact String.intercalate_cons_cons
          rw [hJoined]
          exact hFirst.append (quiet_append (by decide) hRest) (apart_of_front (by decide) rfl _)

end Inert

/-! ## Texts around a condition -/

/-- A condition behind an inert head has its own placeholders, whether it is left out or not. -/
theorem placeholders_whereText {head condition : String} (hHead : Inert head)
    (hCondition : EvenQuotes condition) :
    Closed (head ++ Entity.whereText condition) ∧
      placeholders (head ++ Entity.whereText condition) =
        (placeholders condition).map (shifted (byteLength (head ++ " WHERE ").toList)) := by
  unfold Entity.whereText
  by_cases hBlank : Text.isBlankText condition = true
  · have hNone : placeholders condition = [] :=
      (Inert.quiet (Text.quiet_of_isBlankText hBlank)).2
    rw [if_pos hBlank, String.append_empty, hNone]
    exact ⟨hHead.1.closed, hHead.2⟩
  · have hWord : Quiet " WHERE ".toList := by decide
    have hApart : Apart (" WHERE " ++ condition).toList :=
      apart_of_front (by decide) rfl condition
    rw [if_neg hBlank]
    refine ⟨hHead.1.closed.append
      ((Placeholder.closed_of_quiet hWord).append hCondition.closed), ?_⟩
    have hStart : shifted (byteLength head.toList) ∘ shifted (byteLength " WHERE ".toList) =
        shifted (byteLength (head ++ " WHERE ").toList) := by
      rw [String.toList_append, Text.byteLength_append]
      exact funext fun token => Placeholder.shifted_shifted _ _ token
    rw [Placeholder.placeholders_append hHead.1.closed hApart, hHead.2, List.nil_append,
      Placeholder.placeholders_quiet_append hWord, List.map_map, hStart]

/-- The placeholders of a statement that is put together around a condition. -/
theorem placeholders_around {head condition grouping tail : String} (hHead : Inert head)
    (hCondition : EvenQuotes condition) (hGrouping : Inert grouping)
    (hBehind : Apart grouping.toList) (hTail : Apart tail.toList) :
    placeholders (head ++ Entity.whereText condition ++ grouping ++ tail) =
      (placeholders condition).map (shifted (byteLength (head ++ " WHERE ").toList)) ++
        (placeholders tail).map
          (shifted (byteLength (head ++ Entity.whereText condition ++ grouping).toList)) := by
  obtain ⟨hClosed, hFilter⟩ := placeholders_whereText hHead hCondition
  rw [Placeholder.placeholders_append (hClosed.append hGrouping.1.closed) hTail,
    Placeholder.placeholders_append hClosed hBehind, hFilter, hGrouping.2, List.map_nil,
    List.append_nil]

/-! ## Statements -/

/-- The statements that do something with the rows that a condition lets through. -/
inductive Retrieval where
  | select (projection : Projection)
  | count
  | countBy (fields : String)
  | delete

namespace Retrieval

/-- The statement of an entity, a condition and the arguments of a call. -/
def run (entity : Entity) (condition : Option Condition) (arguments : List Argument) :
    Retrieval → Except Fault Query
  | .select projection => entity.select projection condition arguments
  | .count => entity.count condition arguments
  | .countBy fields => entity.countBy fields condition arguments
  | .delete => entity.delete condition arguments

/-- What a statement asks for: a projection, or nothing where rows are deleted. Only the fields to
count by have to be read. -/
def projection? (entity : Entity) : Retrieval → Except Fault (Option Projection)
  | .select projection => .ok (some projection)
  | .count => .ok (some (.expression entity.countText))
  | .countBy fields => (Fields.parse fields).map fun list =>
      some (.aggregate ((Aggregate.ofFields list).withOutput "count" entity.countText))
  | .delete => .ok none

/-- What stands before the condition. -/
def headText (entity : Entity) : Option Projection → String
  | some projection =>
      "SELECT " ++ projection.text entity.scope ++ " FROM " ++ entity.name.text ++ " " ++
        entity.scope.entityAlias.text
  | none => "DELETE FROM " ++ entity.name.text ++ " " ++ entity.scope.entityAlias.text

/-- What stands between the condition and the tail. -/
def groupingText (scope : Scope) : Option Projection → String
  | some (.aggregate summary) => scope.fieldClause "GROUP BY" summary.fields
  | _ => ""

/-- A statement that is put together around a compiled filter. -/
def around (entity : Entity) (wanted : Option Projection) (compiled : Compiled) : Query :=
  ⟨headText entity wanted ++ Entity.whereText compiled.text ++ groupingText entity.scope wanted ++
    compiled.tail, compiled.parameters, compiled.paging⟩

theorem select_eq (entity : Entity) (projection : Projection) (condition : Option Condition)
    (arguments : List Argument) :
    entity.select projection condition arguments =
      (compile entity.scope none condition arguments).map (around entity (some projection)) := by
  have hGrouping : projection.grouping entity.scope =
      groupingText entity.scope (some projection) := by
    cases projection <;> rfl
  unfold Entity.select
  cases compile entity.scope none condition arguments with
  | error fault => rfl
  | ok compiled =>
      simp only [bind, Except.bind, pure, Except.pure, Except.map, Query.ofCompiled, around,
        headText, Entity.source, hGrouping, String.append_assoc]

theorem delete_eq (entity : Entity) (condition : Option Condition) (arguments : List Argument) :
    entity.delete condition arguments =
      (compile entity.scope none condition arguments).map (around entity none) := by
  unfold Entity.delete
  cases compile entity.scope none condition arguments with
  | error fault => rfl
  | ok compiled =>
      simp only [bind, Except.bind, pure, Except.pure, Except.map, Query.ofCompiled, around,
        headText, groupingText, Entity.source, String.append_assoc, String.empty_append]

/-- Whatever a statement asks for, it is put together around the same filter. -/
theorem run_eq {entity : Entity} {retrieval : Retrieval} {wanted : Option Projection}
    (h : retrieval.projection? entity = .ok wanted) (condition : Option Condition)
    (arguments : List Argument) :
    retrieval.run entity condition arguments =
      (compile entity.scope none condition arguments).map (around entity wanted) := by
  cases retrieval with
  | select projection =>
      obtain rfl := Except.ok.inj h
      exact select_eq entity projection condition arguments
  | count =>
      obtain rfl := Except.ok.inj h
      exact select_eq entity (.expression entity.countText) condition arguments
  | countBy fields =>
      obtain ⟨list, hList, rfl⟩ := map_eq_ok.mp h
      have hSummary : entity.countAggregate fields =
          .ok ((Aggregate.ofFields list).withOutput "count" entity.countText) := by
        rw [Entity.countAggregate, Aggregate.parse, hList]
        rfl
      rw [run, Entity.countBy, hSummary]
      exact select_eq entity (.aggregate _) condition arguments
  | delete =>
      obtain rfl := Except.ok.inj h
      exact delete_eq entity condition arguments

/-! ## The texts of a statement -/

/-- The texts that a statement puts around its filter hold no placeholders, and leave no literal
open; neither does the condition. The tail does not continue what stands before it. -/
structure Tidy (entity : Entity) (wanted : Option Projection) (compiled : Compiled) : Prop where
  name : Inert entity.name.text
  projection : ∀ projection, wanted = some projection → Inert (projection.text entity.scope)
  fields : ∀ summary, wanted = some (.aggregate summary) →
    ∀ field ∈ summary.fields.toList, Inert field.text
  condition : EvenQuotes compiled.text
  tail : compiled.tail = "" ∨ compiled.tail.toList.head? = some ' '

theorem inert_headText {entity : Entity} (hName : Inert entity.name.text)
    {wanted : Option Projection}
    (hProjection : ∀ projection, wanted = some projection →
      Inert (projection.text entity.scope)) :
    Inert (headText entity wanted) := by
  have hAlias : Quiet (" " ++ entity.scope.entityAlias.text).toList := by
    rw [String.toList_append]
    exact Quiet.append (by decide) entity.scope.entityAlias.quiet
  have hSource : Inert (entity.name.text ++ (" " ++ entity.scope.entityAlias.text)) :=
    hName.append (.quiet hAlias) (apart_of_front (by decide) rfl _)
  cases wanted with
  | none =>
      have hHead : Inert ("DELETE FROM " ++ _) := .quiet_append (by decide) hSource
      rwa [← String.append_assoc, ← String.append_assoc] at hHead
  | some projection =>
      have hFrom : Inert (" FROM " ++ _) := .quiet_append (by decide) hSource
      have hBoth := (hProjection projection rfl).append hFrom (apart_of_front (by decide) rfl _)
      have hHead : Inert ("SELECT " ++ _) := .quiet_append (by decide) hBoth
      simpa only [headText, String.append_assoc] using hHead

theorem inert_groupingText (scope : Scope) {wanted : Option Projection}
    (hFields : ∀ summary, wanted = some (.aggregate summary) →
      ∀ field ∈ summary.fields.toList, Inert field.text) :
    Inert (groupingText scope wanted) ∧ Apart (groupingText scope wanted).toList := by
  have hNone : Inert "" ∧ Apart "".toList := ⟨by decide, stops_nil _⟩
  cases wanted with
  | none => exact hNone
  | some projection =>
      cases projection with
      | entity => exact hNone
      | expression text => exact hNone
      | aggregate summary =>
          have hTexts : ∀ text ∈ summary.fields.toList.map (·.text), Inert text := by
            intro text hText
            obtain ⟨field, hField, rfl⟩ := List.mem_map.mp hText
            exact hFields summary rfl field hField
          have hWords : groupingText scope (some (.aggregate summary)) =
              " GROUP BY " ++ scope.qualifyAll (summary.fields.toList.map (·.text)) := rfl
          rw [hWords]
          exact ⟨.quiet_append (by decide) (.qualifyAll scope hTexts),
            apart_of_front (by decide) rfl _⟩

theorem Tidy.placeholders_around {entity : Entity} {wanted : Option Projection}
    {compiled : Compiled} (h : Tidy entity wanted compiled) :
    placeholders (around entity wanted compiled).text =
      (placeholders compiled.text).map
          (shifted (byteLength (headText entity wanted ++ " WHERE ").toList)) ++
        (placeholders compiled.tail).map (shifted (byteLength (headText entity wanted ++
          Entity.whereText compiled.text ++ groupingText entity.scope wanted).toList)) := by
  obtain ⟨hGrouping, hBehind⟩ := inert_groupingText entity.scope h.fields
  have hTail : Apart compiled.tail.toList := by
    rcases h.tail with hNone | hSpace
    · rw [hNone]
      exact stops_nil _
    · intro c hc
      obtain rfl := Option.some.inj (hSpace.symm.trans hc)
      decide
  exact BoundQuery.placeholders_around (inert_headText h.name h.projection) h.condition hGrouping
    hBehind hTail

end Retrieval

/-- Statements that select, count, count by fields that can be read, or delete, over one condition
and one list of arguments. They all fail with the fault of compiling the filter, or they all go
through, with the parameters and settings of the compiled filter and with texts that are, each, a
head of its own, the condition behind WHERE unless it is blank, the grouping of an aggregate, and
the tail. Where the texts around the filter are tidy, a scan of the statement finds the placeholders
of the condition and then those of the tail, at the places where these now stand. -/
theorem statements_agree (entity : Entity) (condition : Option Condition)
    (arguments : List Argument) :
    (∃ fault, compile entity.scope none condition arguments = .error fault ∧
      ∀ (retrieval : Retrieval) (wanted : Option Projection),
        retrieval.projection? entity = .ok wanted →
        retrieval.run entity condition arguments = .error fault) ∨
    ∃ compiled, compile entity.scope none condition arguments = .ok compiled ∧
      ∀ (retrieval : Retrieval) (wanted : Option Projection),
        retrieval.projection? entity = .ok wanted →
        let head := Retrieval.headText entity wanted
        let filter := if Text.isBlankText compiled.text then "" else " WHERE " ++ compiled.text
        let grouping := Retrieval.groupingText entity.scope wanted
        ∃ query, retrieval.run entity condition arguments = .ok query ∧
          query.parameters = compiled.parameters ∧ query.paging = compiled.paging ∧
          query.text = head ++ filter ++ grouping ++ compiled.tail ∧
          (Retrieval.Tidy entity wanted compiled →
            placeholders query.text =
              (placeholders compiled.text).map (shifted (byteLength (head ++ " WHERE ").toList)) ++
                (placeholders compiled.tail).map
                  (shifted (byteLength (head ++ filter ++ grouping).toList))) := by
  cases hCompiled : compile entity.scope none condition arguments with
  | error fault =>
      refine .inl ⟨fault, rfl, fun retrieval wanted hWanted => ?_⟩
      rw [Retrieval.run_eq hWanted, hCompiled]
      rfl
  | ok compiled =>
      refine .inr ⟨compiled, rfl, fun retrieval wanted hWanted => ?_⟩
      refine ⟨Retrieval.around entity wanted compiled, ?_, rfl, rfl, rfl, fun hTidy => ?_⟩
      · rw [Retrieval.run_eq hWanted, hCompiled]
        rfl
      · exact hTidy.placeholders_around

/-- Rows counted by a field: the grouping comes between a condition with a literal and a HAVING
clause, and both keep their numbers. -/
theorem statements_agree_grouped :
    ∃ entity wanted compiled query,
      Retrieval.projection? entity (.countBy "dept") = .ok wanted ∧
      Retrieval.Tidy entity wanted compiled ∧
      entity.countBy "dept" (some (.sub (.mk "e.a <> '?' AND e.b > ?" [.value (.integer 3)])))
        [.clause (.having (.text (.mk "COUNT(e) > ?" [.value (.integer 2)])))] = .ok query ∧
      query.text = "SELECT e.dept, COUNT(e) FROM Emp e WHERE e.a <> '?' AND e.b > ?1" ++
        " GROUP BY e.dept HAVING COUNT(e) > ?2" ∧
      (placeholders query.text).map (·.kind) = [.positional (some 1), .positional (some 2)] := by
  have hCompiled : compile Scope.standard none
      (some (.sub (.mk "e.a <> '?' AND e.b > ?" [.value (.integer 3)])))
      [.clause (.having (.text (.mk "COUNT(e) > ?" [.value (.integer 2)])))] =
      .ok ⟨none, "e.a <> '?' AND e.b > ?1", " HAVING COUNT(e) > ?2",
        .positional [.integer 3, .integer 2], []⟩ := rfl
  have hWanted : Retrieval.projection? ⟨⟨"Emp", by decide +kernel, by decide⟩, Scope.standard⟩
      (.countBy "dept") =
      .ok (some (.aggregate ⟨⟨⟨"dept", by decide +kernel, by decide⟩, []⟩,
        Dict.empty.insert "count" "COUNT(e)"⟩)) := rfl
  rcases statements_agree ⟨⟨"Emp", by decide +kernel, by decide⟩, Scope.standard⟩
      (some (.sub (.mk "e.a <> '?' AND e.b > ?" [.value (.integer 3)])))
      [.clause (.having (.text (.mk "COUNT(e) > ?" [.value (.integer 2)])))] with
    ⟨fault, hError, -⟩ | ⟨compiled, hOk, hAll⟩
  · exact absurd (hCompiled.symm.trans hError) (by simp)
  · obtain rfl := Except.ok.inj (hCompiled.symm.trans hOk)
    obtain ⟨query, hRun, -, -, hText, hScan⟩ := hAll (.countBy "dept") _ hWanted
    have hTidy : Retrieval.Tidy ⟨⟨"Emp", by decide +kernel, by decide⟩, Scope.standard⟩
        (some (.aggregate ⟨⟨⟨"dept", by decide +kernel, by decide⟩, []⟩,
          Dict.empty.insert "count" "COUNT(e)"⟩))
        ⟨none, "e.a <> '?' AND e.b > ?1", " HAVING COUNT(e) > ?2",
          .positional [.integer 3, .integer 2], []⟩ := by
      refine ⟨by decide +kernel, ?_, ?_, by decide +kernel, .inr (by decide +kernel)⟩
      · rintro projection ⟨⟩
        decide +kernel
      · rintro summary ⟨⟩
        decide +kernel
    refine ⟨_, _, _, query, hWanted, hTidy, hRun, hText.trans (by decide +kernel), ?_⟩
    rw [hScan hTidy]
    decide +kernel

end BoundQuery
