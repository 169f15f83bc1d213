import BoundQuery.Proofs.Draft.Placed
import BoundQuery.Proofs.Placeholder.Exchange

/-!
# Pieces are read apart

A text after another one is read on its own when it does not start with a name character or a colon.
`opensApart` says so of pieces before they are written, and `Separated` says of a list that every
piece but a word is followed by such pieces. Words are quiet, so what follows a word is read on its
own whatever it starts with. All trees, and the assignments of an update, have separated pieces.
-/

namespace BoundQuery

open Placeholder (Apart Quiet)

/-! ## Words -/

theorem Word.quiet (token : Word) : Quiet token.text.toList := by
  cases token <;> decide +kernel

/-- Whether a word starts with a blank, a comma or a bracket. -/
def Word.opensApart : Word → Bool
  | .negation | .negatedOpening => false
  | _ => true

theorem Word.apart {token : Word} (h : token.opensApart = true) : Apart token.text.toList := by
  cases token with
  | negation => exact absurd h (by decide)
  | negatedOpening => exact absurd h (by decide)
  | space => exact Placeholder.stops_cons (by decide)
  | comma => exact Placeholder.stops_cons (by decide)
  | opening => exact Placeholder.stops_cons (by decide)
  | nestedOpening => exact Placeholder.stops_cons (by decide)
  | closing => exact Placeholder.stops_cons (by decide)
  | having => exact Placeholder.stops_cons (by decide)
  | groupBy => exact Placeholder.stops_cons (by decide)
  | orderBy => exact Placeholder.stops_cons (by decide)

namespace Piece

def isWord : Piece → Bool
  | .word _ => true
  | _ => false

/-- Whether pieces start with a text that does not continue what stands before it. A mapping may
write nothing at all. -/
def opensApart : List Piece → Bool
  | [] => true
  | .word token :: _ => token.opensApart
  | .value _ :: _ => true
  | .mapping _ :: rest => opensApart rest
  | .assigned later _ :: _ => later
  | .stop _ :: _ => true
  | _ :: _ => false

/-- Each piece but a word is followed by pieces that open apart. -/
def Separated : List Piece → Prop
  | [] => True
  | piece :: rest => (piece.isWord = true ∨ opensApart rest = true) ∧ Separated rest

theorem opensApart_append {front back : List Piece} (hFront : opensApart front = true)
    (hBack : opensApart back = true) : opensApart (front ++ back) = true := by
  induction front with
  | nil => exact hBack
  | cons piece rest ih =>
      cases piece with
      | mapping more => exact ih hFront
      | word token => exact hFront
      | value plain => rfl
      | assigned later assignment => exact hFront
      | stop fault => rfl
      | field column => exact hFront
      | phrase text => exact hFront
      | null column operator name => exact hFront
      | scalar column operator present name => exact hFront
      | sub text arguments => exact hFront
      | having text arguments => exact hFront
      | literal text => exact hFront

theorem Separated.append {front back : List Piece} (hFront : Separated front)
    (hBack : Separated back) (hOpens : opensApart back = true) : Separated (front ++ back) := by
  induction front with
  | nil => exact hBack
  | cons piece rest ih =>
      obtain ⟨hNext, hRest⟩ := hFront
      refine ⟨?_, ih hRest⟩
      exact hNext.imp_right fun hApart => opensApart_append hApart hOpens

theorem separated_word {token : Word} {rest : List Piece} :
    Separated (.word token :: rest) ↔ Separated rest :=
  and_iff_right (.inl rfl)

theorem separated_singleton (piece : Piece) : Separated [piece] :=
  ⟨.inr rfl, trivial⟩

end Piece

/-! ## Trees -/

open Piece (Separated opensApart separated_word separated_singleton opensApart_append)

theorem Fields.separated_pieces (fields : Fields) : Separated fields.pieces := by
  obtain ⟨first, rest⟩ := fields
  simp only [Fields.pieces]
  induction rest generalizing first with
  | nil => exact separated_singleton _
  | cons second rest ih => exact ⟨.inr rfl, separated_word.mpr (ih second)⟩

theorem Group.separated_wrapPieces {negated several : Bool} {inside : List Piece}
    (h : Separated inside) : Separated (Group.wrapPieces negated several inside) := by
  have hClosed : Separated (inside ++ [.word .closing]) := h.append (separated_singleton _) rfl
  unfold Group.wrapPieces
  split
  · exact separated_word.mpr hClosed
  · split
    · exact separated_word.mpr hClosed
    · exact h

theorem Group.opensApart_restPieces (rest : List (Phrase × Condition)) :
    opensApart (Group.restPieces rest) = true := by
  cases rest with
  | nil => rfl
  | cons entry rest => rfl

theorem Argument.opensApart_nativePieces (argument : Argument) :
    opensApart argument.nativePieces = true := by
  cases argument <;> rfl

theorem Argument.opensApart_nativePiecesAll (arguments : List Argument) :
    opensApart (Argument.nativePiecesAll arguments) = true := by
  induction arguments with
  | nil => rfl
  | cons argument rest ih => exact opensApart_append argument.opensApart_nativePieces ih

mutual

theorem Comparison.separated_pieces : ∀ comparison : Comparison, Separated comparison.pieces
  | .bare _ _ => separated_singleton _
  | .isNull _ _ _ => separated_singleton _
  | .scalar _ _ _ _ => separated_singleton _
  | .nested _ _ clause _ => by
      have hClosed : Separated (clause.pieces ++ [.word .closing]) :=
        clause.separated_pieces.append (separated_singleton _) rfl
      exact ⟨.inr rfl, .inl rfl, .inr rfl, separated_word.mpr hClosed⟩

theorem Group.separated_pieces : ∀ group : Group, Separated group.pieces
  | .empty negated => by
      cases negated with
      | false => exact trivial
      | true => exact separated_singleton _
  | .joined _ first rest =>
      Group.separated_wrapPieces
        (first.separated_pieces.append (Group.separated_restPieces rest)
          (Group.opensApart_restPieces rest))

theorem Group.separated_restPieces :
    ∀ rest : List (Phrase × Condition), Separated (Group.restPieces rest)
  | [] => trivial
  | (_, child) :: rest => by
      have hChild : Separated (child.pieces ++ Group.restPieces rest) :=
        child.separated_pieces.append (Group.separated_restPieces rest)
          (Group.opensApart_restPieces rest)
      exact ⟨.inl rfl, .inr rfl, separated_word.mpr hChild⟩

theorem Condition.separated_pieces : ∀ condition : Condition, Separated condition.pieces
  | .comparison comparison => comparison.separated_pieces
  | .group group => group.separated_pieces
  | .sub (.mk _ _) => separated_singleton _
  | .native snippet => snippet.separated_nativePieces

theorem Snippet.separated_nativePieces : ∀ snippet : Snippet, Separated snippet.nativePieces
  | .mk _ arguments => by
      have hOpens : opensApart (Argument.nativePiecesAll arguments ++ [.word .closing]) = true :=
        opensApart_append (Argument.opensApart_nativePiecesAll arguments) rfl
      exact ⟨.inr hOpens,
        (Argument.separated_nativePiecesAll arguments).append (separated_singleton _) rfl⟩

theorem Argument.separated_nativePieces : ∀ argument : Argument, Separated argument.nativePieces
  | .value _ => separated_singleton _
  | .mapping _ => separated_singleton _
  | .clause clause => separated_word.mpr clause.separated_pieces
  | .paging _ => separated_singleton _

theorem Argument.separated_nativePiecesAll :
    ∀ arguments : List Argument, Separated (Argument.nativePiecesAll arguments)
  | [] => trivial
  | argument :: rest =>
      argument.separated_nativePieces.append (Argument.separated_nativePiecesAll rest)
        (Argument.opensApart_nativePiecesAll rest)

theorem Having.separated_pieces : ∀ having : Having, Separated having.pieces
  | .condition condition => separated_word.mpr condition.separated_pieces
  | .text (.mk _ _) => ⟨.inl rfl, separated_singleton _⟩

theorem Clause.separated_pieces : ∀ clause : Clause, Separated clause.pieces
  | .condition condition => condition.separated_pieces
  | .groupBy fields => separated_word.mpr fields.separated_pieces
  | .orderBy fields => separated_word.mpr fields.separated_pieces
  | .having having => having.separated_pieces
  | .sub (.mk _ _) => separated_singleton _
  | .native snippet => snippet.separated_nativePieces
  | .aggregate aggregate => separated_word.mpr aggregate.fields.separated_pieces

end

theorem Assignment.separated_pieces (assignments : List Assignment) :
    Separated (Assignment.pieces assignments) := by
  have hMore : ∀ rest : List Assignment, Separated (rest.map (Piece.assigned true)) ∧
      opensApart (rest.map (Piece.assigned true)) = true := by
    intro rest
    induction rest with
    | nil => exact ⟨trivial, rfl⟩
    | cons assignment rest ih => exact ⟨⟨.inr ih.2, ih.1⟩, rfl⟩
  cases assignments with
  | nil => exact separated_singleton _
  | cons assignment rest => exact ⟨.inr (hMore rest).2, (hMore rest).1⟩

/-! ## Clauses in a row -/

/-- Clauses that start a part of a query of their own: grouping, order and HAVING. -/
def Clause.startsPart : Clause → Bool
  | .groupBy _ | .orderBy _ | .having _ | .aggregate _ => true
  | .condition _ | .sub _ | .native _ => false

theorem Clause.opensApart_pieces {clause : Clause} (h : clause.startsPart = true) :
    opensApart clause.pieces = true := by
  cases clause with
  | groupBy fields => rfl
  | orderBy fields => rfl
  | aggregate summary => rfl
  | having having =>
      cases having with
      | condition condition => rfl
      | text snippet => cases snippet; rfl
  | condition condition => exact absurd h Bool.false_ne_true
  | sub snippet => exact absurd h Bool.false_ne_true
  | native snippet => exact absurd h Bool.false_ne_true

theorem Clause.separated_flatMap {clauses : List Clause}
    (h : ∀ clause ∈ clauses, clause.startsPart = true) :
    Separated (clauses.flatMap Clause.pieces) ∧
      opensApart (clauses.flatMap Clause.pieces) = true := by
  induction clauses with
  | nil => exact ⟨trivial, rfl⟩
  | cons clause rest ih =>
      have hClause := Clause.opensApart_pieces (h clause (by simp))
      obtain ⟨hRest, hOpens⟩ := ih fun other hOther => h other (by simp [hOther])
      rw [List.flatMap_cons]
      exact ⟨clause.separated_pieces.append hRest hOpens, opensApart_append hClause hOpens⟩

theorem separated_setPieces (assignments : Option (List Assignment)) :
    Separated (setPieces assignments) := by
  cases assignments with
  | none => exact trivial
  | some assignments => exact Assignment.separated_pieces assignments

theorem separated_conditionPieces (condition : Option Condition) :
    Separated (conditionPieces condition) := by
  cases condition with
  | none => exact trivial
  | some condition => exact condition.separated_pieces

/-! ## Texts of pieces -/

theorem Word.text_ne_nil (token : Word) : token.text.toList ≠ [] := by
  cases token <;> decide

/-- A text behind a comma starts apart, whatever follows it. -/
theorem apart_comma (text back : String) : Apart (", " ++ text ++ back).toList := by
  have hComma : Apart Word.comma.text.toList := Word.apart rfl
  rw [String.append_assoc, String.toList_append]
  exact hComma.append_left Word.comma.text_ne_nil _

/-- Placed pieces that open apart write a text that starts apart. -/
theorem Piece.apart_of_placedAll {scope : Scope} {pieces : List Piece} {size : Nat}
    {text : String} {more : List Value} (hOpens : opensApart pieces = true)
    (hPlaced : Piece.placedAll scope size pieces = .ok (text, more)) : Apart text.toList := by
  cases pieces with
  | nil =>
      obtain ⟨rfl, -⟩ := Prod.mk.inj (Except.ok.inj hPlaced)
      exact Placeholder.stops_nil _
  | cons piece rest =>
      obtain ⟨front, first, back, later, hFront, -, rfl, -⟩ :=
        Piece.placedAll_cons_eq_ok.mp hPlaced
      cases piece with
      | word token =>
          obtain ⟨rfl, -⟩ := Prod.mk.inj (Except.ok.inj hFront)
          rw [String.toList_append]
          exact (Word.apart hOpens).append_left token.text_ne_nil _
      | value plain =>
          rw [Piece.placed] at hFront
          split at hFront
          · obtain ⟨rfl, -⟩ := Prod.mk.inj (Except.ok.inj hFront)
            exact apart_comma "NULL" back
          · obtain ⟨rfl, -⟩ := Prod.mk.inj (Except.ok.inj hFront)
            exact apart_comma _ back
      | assigned late assignment =>
          have hLate : late = true := hOpens
          simp only [Piece.placed, hLate, if_true, String.append_assoc, Except.ok.injEq,
            Prod.mk.injEq] at hFront
          rw [← hFront.1]
          exact apart_comma _ back
      | mapping more => exact absurd hFront (by simp [Piece.placed])
      | stop fault => exact absurd hFront (by simp [Piece.placed])
      | field column => exact absurd hOpens Bool.false_ne_true
      | phrase text => exact absurd hOpens Bool.false_ne_true
      | null column operator name => exact absurd hOpens Bool.false_ne_true
      | scalar column operator present name => exact absurd hOpens Bool.false_ne_true
      | sub text arguments => exact absurd hOpens Bool.false_ne_true
      | having text arguments => exact absurd hOpens Bool.false_ne_true
      | literal text => exact absurd hOpens Bool.false_ne_true

end BoundQuery
