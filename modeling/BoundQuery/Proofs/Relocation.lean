import BoundQuery.Proofs.Numbering
import BoundQuery.Proofs.Placeholder.Moving

/-!
# Building behind other values

By position, a part of a query can be built behind any values: what it adds, and the fault that
stops it, are the same everywhere, and its text moves along (`Step.Relocates`). It takes the order
that keeps numbers in step (`Piece.Orderly`), and no HAVING text with arguments, since the numbers
in it may refer back. Then every piece, placed behind one count of values and behind another, has
related outcomes (`Piece.relocated_placed`); a run adds the same on both sides before each of its
pieces, so the same holds of runs, and `relocates_of_orderly` says it of conditions and clauses.
-/

namespace BoundQuery

open Placeholder (Counted Moves hasPositional moved numbers segments)

/-! ## The law -/

/-- A step that can be built behind any values: it goes through or is stopped in the same way
everywhere, adds the same values, and its text is numbered behind the values before it. -/
def Step.Relocates (step : Step) : Prop :=
  ∀ here there : List Value,
    (∀ fault, step.finish (.positional here) = .error fault ↔
      step.finish (.positional there) = .error fault) ∧
    ∀ text after, step.finish (.positional here) = .ok (text, after) →
      (∀ part ∈ segments text, part.Behind here.length) ∧
      ∃ added, after = .positional (here ++ added) ∧
        step.finish (.positional there) =
          .ok (moved here.length there.length text, .positional (there ++ added))

/-- Whether a piece is a HAVING text with arguments, whose numbers may refer back. -/
def Piece.mayReferBack : Piece → Bool
  | .having _ arguments => !arguments.isEmpty
  | _ => false

/-! ## Pieces -/

/-- Two outcomes of placing the same, behind `low` values and behind `high` ones. -/
inductive Relocated (low high : Nat) :
    Except Fault (String × List Value) → Except Fault (String × List Value) → Prop
  | stopped (fault : Fault) : Relocated low high (.error fault) (.error fault)
  | placed {here there : String} (added : List Value) (hMoves : Moves low high here there) :
      Relocated low high (.ok (here, added)) (.ok (there, added))

/-- A text that counts no values is the same behind any. -/
theorem Placeholder.Counted.moves {text : String} (h : Counted 0 text 0) (low high : Nat) :
    Moves low high text text := by
  refine .still h.closed ?_
  cases hNumbers : numbers text with
  | nil => rfl
  | cons carries rest =>
      have hMem : carries ∈ numbers text := hNumbers ▸ List.mem_cons_self
      obtain ⟨number, -, hPositive, hBound⟩ := h.follows.inRange carries hMem
      omega

/-- A comparison of a value moves along whichever way it is placed. -/
theorem Comparison.relocated_placed {scope : Scope} {low high : Nat} {field operator : String}
    {value : Value} {here there : String} {added : List Value} (hField : EvenQuotes field)
    (hOperator : EvenQuotes operator)
    (hPlain : Still field → Still operator → Moves low high here there) :
    Relocated low high
      (.ok (Comparison.placed scope low field operator value (here, added)))
      (.ok (Comparison.placed scope high field operator value (there, added))) := by
  unfold Comparison.placed
  split
  · exact .placed [value] (.renumber (scope.closed_qualify hField.closed) low high)
  · next hNone =>
      have hStill : Still field := ⟨hField, by simpa using hNone⟩
      split
      · have hFront := (hStill.counted_qualify scope 0).moves low high
        exact .placed [value] (hFront.append_space (.renumber hOperator.closed low high))
      · next hNoneEither =>
          exact .placed added (hPlain hStill ⟨hOperator, by simpa using hNoneEither⟩)

theorem Snippet.relocated_placedSub {text : String} (hEven : EvenQuotes text) (low high : Nat)
    (arguments : List Argument) :
    Relocated low high (Snippet.placedSub low text arguments)
      (Snippet.placedSub high text arguments) := by
  unfold Snippet.placedSub
  split
  · next fault _ => exact .stopped fault
  · next values _ =>
      split
      · exact .placed values (.numberFrom hEven.closed low high)
      · exact .stopped _

namespace Piece

variable {scope : Scope} {low high : Nat}

/-- An orderly piece that is placed in one way everywhere and binds nothing. -/
theorem relocated_of_still {piece : Piece} {text : String} (hOrderly : piece.Orderly)
    (hPlaced : ∀ size, piece.placed scope size = .ok (text, [])) :
    Relocated low high (piece.placed scope low) (piece.placed scope high) := by
  rw [hPlaced low, hPlaced high]
  exact .placed [] ((counted_placed hOrderly (hPlaced 0)).moves low high)

/-- A piece is placed alike behind any number of values. -/
theorem relocated_placed {piece : Piece} (hOrderly : piece.Orderly)
    (hAhead : piece.mayReferBack = false) :
    Relocated low high (piece.placed scope low) (piece.placed scope high) := by
  cases piece with
  | word token => exact relocated_of_still hOrderly fun _ => rfl
  | field column => exact relocated_of_still hOrderly fun _ => rfl
  | phrase text => exact relocated_of_still hOrderly fun _ => rfl
  | literal text => exact relocated_of_still hOrderly fun _ => rfl
  | null column operator name =>
      refine Comparison.relocated_placed hOrderly.1 hOrderly.2 ?_
      intro hField hOperator
      exact (Comparison.counted_nullText hField hOperator 0).moves low high
  | scalar column operator present name =>
      refine Comparison.relocated_placed hOrderly.1 hOrderly.2 ?_
      intro hField hOperator
      have hSign := (hOperator.counted 0).moves low high
      have hFront := ((hField.counted_qualify scope 0).moves low high).append_space hSign
      exact hFront.append_space (.positionalText low high)
  | sub text arguments =>
      by_cases hEmpty : arguments.isEmpty = true
      · exact relocated_of_still hOrderly fun _ => if_pos hEmpty
      · rw [placed, placed, if_neg hEmpty, if_neg hEmpty]
        exact Snippet.relocated_placedSub hOrderly.1 low high arguments
  | having text arguments =>
      have hEmpty : arguments.isEmpty = true := by simpa [mayReferBack] using hAhead
      exact relocated_of_still hOrderly fun _ => if_pos hEmpty
  | value plain =>
      by_cases hNull : plain.isNull = true
      · exact relocated_of_still hOrderly fun _ => if_pos hNull
      · rw [placed, placed, if_neg hNull, if_neg hNull]
        exact .placed [plain] (.quiet_append (by decide) (.positionalText low high))
  | mapping more => exact .stopped _
  | assigned later assignment =>
      have hField := ((Still.counted_qualify hOrderly scope 0).moves low high).append_space
        (.quiet (by decide : Placeholder.Quiet "=".toList))
      have hSeparator : Placeholder.Quiet (if later then ", " else "" : String).toList := by
        cases later <;> decide
      rw [placed, placed, Assignment.text_apart, Assignment.text_apart]
      exact .placed [assignment.value]
        (.quiet_append hSeparator (hField.append_space (.positionalText low high)))
  | stop fault => exact .stopped fault

/-- Pieces that are read apart are placed alike behind any number of values. -/
theorem relocated_placedAll {pieces : List Piece}
    (hPieces : ∀ piece ∈ pieces, piece.Orderly ∧ piece.mayReferBack = false)
    (hSeparated : Separated pieces) :
    Relocated low high (placedAll scope low pieces) (placedAll scope high pieces) := by
  induction pieces generalizing low high with
  | nil => exact .placed [] (.quiet (by decide))
  | cons piece rest ih =>
      obtain ⟨hNext, hRest⟩ := hSeparated
      obtain ⟨hOrderly, hAhead⟩ := hPieces piece List.mem_cons_self
      have hFirst : Relocated low high (piece.placed scope low) (piece.placed scope high) :=
        relocated_placed hOrderly hAhead
      rw [placedAll, placedAll]
      generalize hHere : piece.placed scope low = first at hFirst ⊢
      generalize hThere : piece.placed scope high = first' at hFirst ⊢
      cases hFirst with
      | stopped fault => exact .stopped fault
      | @placed front front' added hFront =>
          -- Both sides have added the same values, so the rest is behind as many more.
          have hLater : Relocated (low + added.length) (high + added.length)
              (placedAll scope (low + added.length) rest)
              (placedAll scope (high + added.length) rest) :=
            ih (fun other hOther => hPieces other (List.mem_cons_of_mem _ hOther)) hRest
          simp only
          generalize hHereRest : placedAll scope (low + added.length) rest = later at hLater ⊢
          generalize hThereRest : placedAll scope (high + added.length) rest = later' at hLater ⊢
          cases hLater with
          | stopped fault => exact .stopped fault
          | @placed back back' more hBack =>
              refine .placed (added ++ more) ?_
              rcases hNext with hWord | hOpens
              · cases piece with
                | word token =>
                    obtain ⟨rfl, -⟩ := Prod.mk.inj (Except.ok.inj hHere)
                    obtain ⟨rfl, -⟩ := Prod.mk.inj (Except.ok.inj hThere)
                    exact .quiet_append token.quiet hBack.of_add
                | _ => exact absurd hWord Bool.false_ne_true
              · exact hFront.append hBack.of_add (apart_of_placedAll hOpens hHereRest)
                  (apart_of_placedAll hOpens hThereRest)

theorem relocates_writeAll {pieces : List Piece}
    (hPieces : ∀ piece ∈ pieces, piece.Orderly ∧ piece.mayReferBack = false)
    (hSeparated : Separated pieces) : (writeAll scope pieces).Relocates := by
  intro here there
  have hRun : ∀ values : List Value, (writeAll scope pieces).finish (.positional values) =
      (placedAll scope values.length pieces).map (Bindings.extended values) :=
    run_positional scope pieces
  have hBoth : Relocated here.length there.length (placedAll scope here.length pieces)
      (placedAll scope there.length pieces) := relocated_placedAll hPieces hSeparated
  rw [hRun here, hRun there]
  generalize placedAll scope here.length pieces = first at hBoth ⊢
  generalize placedAll scope there.length pieces = second at hBoth ⊢
  cases hBoth with
  | stopped fault =>
      refine ⟨fun other => Iff.rfl, ?_⟩
      intro text after hOk
      exact absurd hOk (by simp [Except.map])
  | @placed text text' added hMoves =>
      refine ⟨fun fault => by simp [Except.map], ?_⟩
      intro written after hOk
      obtain ⟨rfl, rfl⟩ := Prod.mk.inj (Except.ok.inj hOk)
      refine ⟨hMoves.behind, added, rfl, ?_⟩
      rw [← hMoves.eq_moved]
      rfl

end Piece

/-! ## Trees -/

/-- A condition or a clause that keeps numbers in step, and has no HAVING text with arguments, can
be built behind any values: it adds the same values or is stopped by the same fault, its positional
placeholders are all written for values of its own, and they move with the values before it. -/
theorem relocates_of_orderly (scope : Scope) :
    (∀ condition : Condition,
      (∀ piece ∈ condition.pieces, piece.Orderly ∧ piece.mayReferBack = false) →
        (condition.write scope).Relocates) ∧
    ∀ clause : Clause,
      (∀ piece ∈ clause.pieces, piece.Orderly ∧ piece.mayReferBack = false) →
        (clause.write scope).Relocates := by
  constructor
  · intro condition hPieces
    rw [condition.write_eq scope]
    exact Piece.relocates_writeAll hPieces condition.separated_pieces
  · intro clause hPieces
    rw [clause.write_eq scope]
    exact Piece.relocates_writeAll hPieces clause.separated_pieces

/-- A placeholder in the text of a field, and a sub-expression within the arguments of a native
fragment, whose own text is a literal. -/
theorem relocates_native_fragment :
    ∃ condition : Condition,
      (∀ piece ∈ condition.pieces, piece.Orderly ∧ piece.mayReferBack = false) ∧
      (condition.write .standard).finish (.positional []) =
        .ok ("(e.price * ?1 > 0 AND SQL('f(''?'')', ?2,  HAVING MAX(e.age) IN (?3, ?4)))",
          .positional [.integer 3, .integer 7, .integer 1, .integer 2]) ∧
      (condition.write .standard).Relocates := by
  have hPieces : ∀ piece ∈ (Condition.group (.joined false
      (.comparison (.scalar ⟨"price * ? > 0", by decide +kernel, by decide⟩ none
        ⟨.integer 3, rfl⟩ none))
      [(⟨"AND", by decide +kernel, by decide⟩, .native (.mk "f('?')" [.value (.integer 7),
        .clause (.having (.condition (.sub
          (.mk "MAX(e.age) IN (?, ?9)" [.value (.integer 1), .value (.integer 2)]))))]))])).pieces,
      piece.Orderly ∧ piece.mayReferBack = false := by decide +kernel
  exact ⟨_, hPieces, rfl, (relocates_of_orderly .standard).1 _ hPieces⟩

/-- Whether a piece is a HAVING text that asks for no value, whatever its literals. -/
def Piece.isBareHaving : Piece → Bool
  | .having text arguments => arguments.isEmpty && !hasPositional text
  | _ => false

/-- A literal that a HAVING text without arguments leaves open hides the placeholders after it, and
the text does not tell that they have moved. -/
theorem not_relocates_of_open_literal :
    ∃ condition : Condition, condition.bindsByName = false ∧
      (∀ piece ∈ condition.pieces,
        (piece.Orderly ∨ piece.isBareHaving = true) ∧ piece.mayReferBack = false) ∧
      ¬ (condition.write .standard).Relocates := by
  refine ⟨.group (.joined false
    (.comparison (.nested ⟨"x", by decide +kernel, by decide⟩ none (.having (.text (.mk "'" [])))
      none))
    [(⟨"AND", by decide +kernel, by decide⟩, .comparison (.scalar
      ⟨"a", by decide +kernel, by decide⟩ none ⟨.integer 5, rfl⟩ none))]), rfl,
    by decide +kernel, ?_⟩
  intro hRelocates
  obtain ⟨-, hText⟩ := hRelocates [] [.integer 7]
  obtain ⟨-, added, -, hThere⟩ := hText "(e.x = ( HAVING ') AND e.a = ?1)" _ rfl
  have hWritten : "(e.x = ( HAVING ') AND e.a = ?2)" =
      moved 0 1 "(e.x = ( HAVING ') AND e.a = ?1)" :=
    (Prod.mk.inj (Except.ok.inj hThere)).1
  exact absurd hWritten (by decide +kernel)

end BoundQuery
