import BoundQuery.Proofs.Call
import BoundQuery.Proofs.Draft.Literal
import BoundQuery.Proofs.Placeholder.Counting
import BoundQuery.Proofs.Placeholder.Qualified
import BoundQuery.Proofs.Tree.Separation

/-!
# Numbers follow the sequence of values

By position, all texts of a call share one count of values. `Piece.Orderly` is what keeps it in step
with the numbers in the text: literals are closed where a text of the caller ends, and placeholders
stand only where a value is bound through them. Every orderly piece counts the values that it adds
(`Piece.counted_placed`), hence so does every run, and the numbers in the assignments, the condition
and the clauses of a call are those of the values of the returned sequence, none missed and in their
order (`numbering_of_compile`).
-/

namespace BoundQuery

open Placeholder (Closed Counted Follows Numbering Quiet hasPositional numbers)

/-- Quotes that come in pairs. -/
def EvenQuotes (text : String) : Prop := text.toList.count '\'' % 2 = 0

instance (text : String) : Decidable (EvenQuotes text) :=
  inferInstanceAs (Decidable (text.toList.count '\'' % 2 = 0))

theorem EvenQuotes.closed {text : String} (h : EvenQuotes text) : Closed text := by
  rw [Closed, Placeholder.leavesOpen_eq, h]
  rfl

theorem numbers_eq_nil {text : String} (h : hasPositional text = false) : numbers text = [] := by
  rw [Placeholder.hasPositional_eq] at h
  simpa using h

theorem numbers_ne_nil {text : String} (h : hasPositional text = true) : numbers text ≠ [] := by
  rw [Placeholder.hasPositional_eq] at h
  simpa using h

/-- A text of the caller in which no literal stays open and no value is asked for by position. -/
def Still (text : String) : Prop := EvenQuotes text ∧ hasPositional text = false

theorem Still.counted {text : String} (h : Still text) (size : Nat) : Counted size text size :=
  .still h.1.closed (numbers_eq_nil h.2) size

/-- What keeps numbers in step: literals end where the texts of the caller end, and a positional
placeholder stands only in a comparison of a value or in a snippet with arguments. -/
def Piece.Orderly : Piece → Prop
  | .field column => Still column.text
  | .phrase text => Still text
  | .null column operator _ | .scalar column operator _ _ =>
      EvenQuotes column.text ∧ EvenQuotes (Comparison.operatorText operator)
  | .sub text arguments | .having text arguments =>
      EvenQuotes text ∧ (arguments.isEmpty = true → hasPositional text = false)
  | .assigned _ assignment => Still assignment.field.text
  | .word _ | .literal _ | .value _ | .mapping _ | .stop _ => True

instance (text : String) : Decidable (Still text) :=
  inferInstanceAs (Decidable (EvenQuotes text ∧ hasPositional text = false))

instance : DecidablePred Piece.Orderly
  | .field column => inferInstanceAs (Decidable (Still column.text))
  | .phrase text => inferInstanceAs (Decidable (Still text))
  | .null column operator _ | .scalar column operator _ _ =>
      inferInstanceAs (Decidable
        (EvenQuotes column.text ∧ EvenQuotes (Comparison.operatorText operator)))
  | .sub text arguments | .having text arguments =>
      inferInstanceAs (Decidable
        (EvenQuotes text ∧ (arguments.isEmpty = true → hasPositional text = false)))
  | .assigned _ assignment => inferInstanceAs (Decidable (Still assignment.field.text))
  | .word _ | .literal _ | .value _ | .mapping _ | .stop _ => .isTrue trivial

/-! ## Comparisons -/

theorem Still.counted_qualify {field : String} (h : Still field) (scope : Scope) (size : Nat) :
    Counted size (scope.qualify field) size := by
  refine .still (scope.closed_qualify h.1.closed) ?_ size
  rw [scope.numbers_qualify, numbers_eq_nil h.2]

theorem Comparison.counted_nullText {scope : Scope} {field operator : String}
    (hField : Still field) (hOperator : Still operator) (size : Nat) :
    Counted size (Comparison.nullText scope field operator) size := by
  have hQualified := hField.counted_qualify scope size
  have hBehind : ∀ words : String, Quiet (" " ++ words).toList →
      Counted size (scope.qualify field ++ (" " ++ words)) size := by
    intro words hQuiet
    refine hQualified.append (.quiet hQuiet size) ?_
    rw [String.toList_append]
    exact Placeholder.stops_cons (by decide)
  unfold Comparison.nullText
  split
  · exact hBehind "IS NULL" (by decide)
  · split
    · exact hBehind "IS NOT NULL" (by decide)
    · have hNull : Counted size (operator ++ " " ++ "NULL") size :=
        (hOperator.counted size).append_space (.quiet (by decide) size)
      have hWords : scope.qualify field ++ (" " ++ operator ++ " NULL") =
          scope.qualify field ++ " " ++ (operator ++ " " ++ "NULL") := by
        simp only [String.append_assoc]
        rfl
      rw [hWords]
      exact hQualified.append_space hNull

/-- A comparison of a value counts the value whichever way it is placed. -/
theorem Comparison.counted_placed {scope : Scope} {size : Nat} {field operator text : String}
    {value : Value} {plain : String × List Value} {more : List Value}
    (hField : EvenQuotes field) (hOperator : EvenQuotes operator)
    (hPlain : Still field → Still operator → Counted size plain.1 (size + plain.2.length))
    (hPlaced : Comparison.placed scope size field operator value plain = (text, more)) :
    Counted size text (size + more.length) := by
  unfold Comparison.placed at hPlaced
  split at hPlaced
  · next hPositional =>
      obtain ⟨rfl, rfl⟩ := Prod.mk.inj hPlaced
      refine .renumber (scope.closed_qualify hField.closed) ?_ size
      rw [scope.numbers_qualify]
      exact numbers_ne_nil hPositional
  · next hNone =>
      have hStill : Still field := ⟨hField, by simpa using hNone⟩
      split at hPlaced
      · next hPositional =>
          obtain ⟨rfl, rfl⟩ := Prod.mk.inj hPlaced
          exact (hStill.counted_qualify scope size).append_space
            (.renumber hOperator.closed (numbers_ne_nil hPositional) size)
      · next hNoneEither =>
          have hBoth := hPlain hStill ⟨hOperator, by simpa using hNoneEither⟩
          rwa [hPlaced] at hBoth

/-! ## Snippets -/

theorem Snippet.counted_sub {size : Nat} {text written : String} {arguments : List Argument}
    {more : List Value} (hEven : EvenQuotes text)
    (hPlaced : Snippet.placedSub size text arguments = .ok (written, more)) :
    Counted size written (size + more.length) := by
  unfold Snippet.placedSub at hPlaced
  split at hPlaced
  · exact absurd hPlaced (by simp)
  · split at hPlaced
    · next hCount =>
        obtain ⟨rfl, rfl⟩ := Prod.mk.inj (Except.ok.inj hPlaced)
        rw [← hCount, Placeholder.positionalCount_eq]
        exact .numberFrom hEven.closed size
    · exact absurd hPlaced (by simp)

/-- Checked placeholders, once the fresh numbers are filled in, count the values taken. -/
theorem Snippet.follows_checkNumbers {fragment : String} {low last : Nat} {fresh : List Nat}
    {list : List Placeholder}
    (hChecked : Snippet.checkNumbers fragment (low + 1) list = .ok (fresh, last)) :
    ∃ high, last = high + 1 ∧ Follows low
      (Placeholder.filled fresh ((list.map (·.kind)).filterMap Placeholder.Kind.number?)) high := by
  induction list generalizing low fresh with
  | nil =>
      obtain ⟨rfl, rfl⟩ := Prod.mk.inj (Except.ok.inj hChecked)
      exact ⟨low, rfl, .nil low⟩
  | cons placeholder rest ih =>
      rcases placeholder with ⟨(_ | number) | name, span⟩
      · simp only [Snippet.checkNumbers] at hChecked
        obtain ⟨⟨later, after⟩, hRest, hChecked⟩ := bind_eq_ok.mp hChecked
        obtain ⟨rfl, rfl⟩ := Prod.mk.inj (Except.ok.inj hChecked)
        obtain ⟨high, hLast, hFollows⟩ := ih hRest
        exact ⟨high, hLast, .next (.inr rfl) hFollows⟩
      · simp only [Snippet.checkNumbers] at hChecked
        split at hChecked
        · next hNext =>
            obtain ⟨high, hLast, hFollows⟩ := ih hChecked
            exact ⟨high, hLast, .next (.inl hNext) hFollows⟩
        · split at hChecked
          · next hBack =>
              simp only [Bool.and_eq_true, decide_eq_true_eq] at hBack
              obtain ⟨high, hLast, hFollows⟩ := ih hChecked
              exact ⟨high, hLast, .back hBack.1 (by omega) hFollows⟩
          · exact absurd hChecked (by simp)
      · exact ih hChecked

theorem Snippet.counted_having {size : Nat} {text written : String} {arguments : List Argument}
    {more : List Value} (hEven : EvenQuotes text)
    (hPlaced : Snippet.placedHaving size text arguments = .ok (written, more)) :
    Counted size written (size + more.length) := by
  unfold Snippet.placedHaving at hPlaced
  split at hPlaced
  · exact absurd hPlaced (by simp)
  · next values hValues =>
      split at hPlaced
      · exact absurd hPlaced (by simp)
      · next fresh last hChecked =>
          split at hPlaced
          · next hCount =>
              obtain ⟨rfl, rfl⟩ := Prod.mk.inj (Except.ok.inj hPlaced)
              obtain ⟨high, rfl, hFollows⟩ := Snippet.follows_checkNumbers hChecked
              have hLow := hFollows.le
              have hHigh : size + values.length = high := by omega
              refine ⟨hEven.closed.fillNumbers fresh, ?_⟩
              rw [Placeholder.numbers_fillNumbers, hHigh]
              exact hFollows
          · exact absurd hPlaced (by simp)

/-! ## Pieces and runs -/

/-- The text of an assignment, with the words in it told apart. -/
theorem Assignment.text_apart (separator column place : String) :
    separator ++ column ++ " = " ++ place =
      separator ++ (column ++ " " ++ "=" ++ " " ++ place) := by
  simp only [String.append_assoc]
  rfl

/-- An orderly piece counts the values that it adds. -/
theorem Piece.counted_placed {scope : Scope} {size : Nat} {piece : Piece} {text : String}
    {more : List Value} (hOrderly : piece.Orderly)
    (hPlaced : piece.placed scope size = .ok (text, more)) :
    Counted size text (size + more.length) := by
  cases piece with
  | word token =>
      obtain ⟨rfl, rfl⟩ := Prod.mk.inj (Except.ok.inj hPlaced)
      exact .quiet token.quiet size
  | field column =>
      obtain ⟨rfl, rfl⟩ := Prod.mk.inj (Except.ok.inj hPlaced)
      exact Still.counted_qualify hOrderly scope size
  | phrase text =>
      obtain ⟨rfl, rfl⟩ := Prod.mk.inj (Except.ok.inj hPlaced)
      exact Still.counted hOrderly size
  | null column operator name =>
      refine Comparison.counted_placed hOrderly.1 hOrderly.2 ?_ (Except.ok.inj hPlaced)
      exact fun hField hOperator => Comparison.counted_nullText hField hOperator size
  | scalar column operator present name =>
      refine Comparison.counted_placed hOrderly.1 hOrderly.2 ?_ (Except.ok.inj hPlaced)
      intro hField hOperator
      have hFront := (hField.counted_qualify scope size).append_space (hOperator.counted size)
      exact hFront.append_space (.positionalText size)
  | sub text arguments =>
      rw [Piece.placed] at hPlaced
      split at hPlaced
      · next hEmpty =>
          obtain ⟨rfl, rfl⟩ := Prod.mk.inj (Except.ok.inj hPlaced)
          exact Still.counted ⟨hOrderly.1, hOrderly.2 hEmpty⟩ size
      · exact Snippet.counted_sub hOrderly.1 hPlaced
  | having text arguments =>
      rw [Piece.placed] at hPlaced
      split at hPlaced
      · next hEmpty =>
          obtain ⟨rfl, rfl⟩ := Prod.mk.inj (Except.ok.inj hPlaced)
          exact Still.counted ⟨hOrderly.1, hOrderly.2 hEmpty⟩ size
      · exact Snippet.counted_having hOrderly.1 hPlaced
  | literal text =>
      obtain ⟨rfl, rfl⟩ := Prod.mk.inj (Except.ok.inj hPlaced)
      refine .still (Snippet.closed_literalText text) ?_ size
      rw [numbers, Snippet.kinds_literalText, List.filterMap_nil]
  | value plain =>
      rw [Piece.placed] at hPlaced
      split at hPlaced
      · obtain ⟨rfl, rfl⟩ := Prod.mk.inj (Except.ok.inj hPlaced)
        exact .quiet (by decide) size
      · obtain ⟨rfl, rfl⟩ := Prod.mk.inj (Except.ok.inj hPlaced)
        exact .quiet_append (by decide) (.positionalText size)
  | mapping more => exact absurd hPlaced (by simp [Piece.placed])
  | assigned later assignment =>
      obtain ⟨rfl, rfl⟩ := Prod.mk.inj (Except.ok.inj hPlaced)
      have hField := Still.counted_qualify hOrderly scope size
      have hEquals : Counted size (scope.qualify assignment.field.text ++ " " ++ "=") size :=
        hField.append_space (.quiet (by decide) size)
      have hBoth := hEquals.append_space (.positionalText size)
      have hSeparator : Quiet (if later then ", " else "" : String).toList := by
        cases later <;> decide
      rw [Assignment.text_apart]
      exact .quiet_append hSeparator hBoth
  | stop fault => exact absurd hPlaced (by simp [Piece.placed])

/-- Orderly pieces that are read apart count the values that they add. -/
theorem Piece.counted_placedAll {scope : Scope} {size : Nat} {pieces : List Piece}
    {text : String} {more : List Value} (hOrderly : ∀ piece ∈ pieces, piece.Orderly)
    (hSeparated : Piece.Separated pieces)
    (hPlaced : Piece.placedAll scope size pieces = .ok (text, more)) :
    Counted size text (size + more.length) := by
  induction pieces generalizing size text more with
  | nil =>
      obtain ⟨rfl, rfl⟩ := Prod.mk.inj (Except.ok.inj hPlaced)
      exact .quiet (by decide) size
  | cons piece rest ih =>
      obtain ⟨front, first, back, later, hFront, hBack, rfl, rfl⟩ :=
        Piece.placedAll_cons_eq_ok.mp hPlaced
      obtain ⟨hNext, hRest⟩ := hSeparated
      have hFirst := Piece.counted_placed (hOrderly piece (by simp)) hFront
      have hLater := ih (fun other hOther => hOrderly other (by simp [hOther])) hRest hBack
      rw [List.length_append, ← Nat.add_assoc]
      rcases hNext with hWord | hOpens
      · cases piece with
        | word token =>
            obtain ⟨rfl, rfl⟩ := Prod.mk.inj (Except.ok.inj hFront)
            exact .quiet_append token.quiet hLater
        | _ => exact absurd hWord Bool.false_ne_true
      · exact hFirst.append hLater (Piece.apart_of_placedAll hOpens hBack)

/-! ## Calls -/

/-- Clauses in a row that each start a part of the query are read apart. -/
theorem separated_clausePieces {arguments : List Argument}
    (hClauses : ∀ clause, .clause clause ∈ arguments → clause.startsPart = true) :
    Piece.Separated (clausePieces arguments) := by
  refine (Clause.separated_flatMap fun clause hClause => ?_).1
  obtain ⟨argument, hArgument, hIs⟩ := List.mem_filterMap.mp hClause
  cases argument with
  | clause part =>
      obtain rfl := Option.some.inj hIs
      exact hClauses _ hArgument
  | _ => exact absurd hIs (by simp [Argument.clause?])

/-- By position, the numbers in what a call writes are those of the values of the sequence: none is
out of range, none behind the plain values is missed, and they are first used in their order. -/
theorem numbering_of_compile {scope : Scope} {assignments : Option (List Assignment)}
    {condition : Option Condition} {arguments : List Argument} {compiled : Compiled}
    {values : List Value} (hOk : compile scope assignments condition arguments = .ok compiled)
    (hPositional : compiled.parameters = .positional values)
    (hOrderly : ∀ piece ∈ callPieces assignments condition arguments, piece.Orderly)
    (hClauses : ∀ clause, .clause clause ∈ arguments → clause.startsPart = true) :
    Numbering (seeds arguments).length values.length
      (numbers (compiled.assignments.getD "") ++ numbers compiled.text ++
        numbers compiled.tail) := by
  have hStyle : callStyle condition arguments = .positional := by
    rw [← style_of_compile hOk, hPositional]
    rfl
  obtain ⟨call⟩ := placedCall_of_compile hStyle hOk
  have hValues : seeds arguments ++ call.first ++ call.second ++ call.third = values :=
    Parameters.positional.inj (call.hParameters.symm.trans hPositional)
  simp only [callPieces, List.mem_append] at hOrderly
  have hSet := Piece.counted_placedAll (fun piece h => hOrderly piece (.inl (.inl h)))
    (separated_setPieces assignments) call.hSet
  have hText := Piece.counted_placedAll (fun piece h => hOrderly piece (.inl (.inr h)))
    (separated_conditionPieces condition) call.hText
  have hTail := Piece.counted_placedAll (fun piece h => hOrderly piece (.inr h))
    (separated_clausePieces hClauses) call.hTail
  have hWritten : numbers (compiled.assignments.getD "") = numbers call.written := by
    rw [call.hAssignments]
    cases assignments with
    | some assignments => rfl
    | none =>
        obtain ⟨hEmpty, -⟩ := Prod.mk.inj (Except.ok.inj call.hSet)
        rw [← hEmpty]
        rfl
  rw [hWritten, ← hValues]
  simp only [List.length_append] at hText hTail ⊢
  exact ((hSet.follows.append hText.follows).append hTail.follows).numbering

/-- An update with a number that refers back to the plain value from its HAVING text. -/
theorem numbering_of_referring_update :
    ∃ assignments condition arguments compiled,
      compile .standard (some assignments) (some condition) arguments = .ok compiled ∧
        compiled.text = "e.price * ?3 > 0" ∧
        Numbering 1 4 (numbers (compiled.assignments.getD "") ++ numbers compiled.text ++
          numbers compiled.tail) := by
  have hOk : compile .standard
      (some [⟨⟨"name", by decide +kernel, by decide⟩, .null⟩])
      (some (.comparison (.scalar ⟨"price * ? > 0", by decide +kernel, by decide⟩ none
        ⟨.integer 3, rfl⟩ none)))
      [.value (.integer 7), .clause (.having (.text
        (.mk "MAX(e.age) > ? AND MIN(e.age) < ?1" [.value (.integer 9)])))] =
      .ok ⟨some "e.name = ?2", "e.price * ?3 > 0", " HAVING MAX(e.age) > ?4 AND MIN(e.age) < ?1",
        .positional [.integer 7, .null, .integer 3, .integer 9], []⟩ := rfl
  refine ⟨_, _, _, _, hOk, rfl, numbering_of_compile hOk rfl (by decide +kernel) ?_⟩
  intro clause hClause
  simp only [List.mem_cons, List.not_mem_nil, reduceCtorEq, Argument.clause.injEq, or_false,
    false_or] at hClause
  subst hClause
  rfl

end BoundQuery
