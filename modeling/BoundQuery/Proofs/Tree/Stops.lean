import BoundQuery.Proofs.Call

/-!
# Where a call stops by itself

Most faults come from the bindings or from the arguments of a snippet. Two are in the pieces of a
call from the start: an update without assignments, and a setting among the arguments of a native
fragment. `knownStop_callPieces` says that there are no others, in whatever depth.
-/

namespace BoundQuery

/-- The faults that pieces can hold. -/
def Piece.KnownStop : Piece → Prop
  | .stop fault =>
      fault = .noAssignments ∨ ∃ setting : Paging, fault = .notNative setting.describe
  | _ => True

theorem Fields.knownStop_pieces (fields : Fields) :
    ∀ piece ∈ fields.pieces, piece.KnownStop := by
  intro piece hPiece
  simp only [Fields.pieces, List.mem_cons, List.mem_flatMap, List.not_mem_nil, or_false] at hPiece
  rcases hPiece with rfl | ⟨field, -, rfl | rfl⟩ <;> trivial

theorem Group.knownStop_wrapPieces {negated several : Bool} {inside : List Piece}
    (h : ∀ piece ∈ inside, piece.KnownStop) :
    ∀ piece ∈ Group.wrapPieces negated several inside, piece.KnownStop := by
  have hBetween : ∀ token : Word, ∀ piece ∈ Piece.word token :: inside ++ [.word .closing],
      piece.KnownStop := by
    intro token piece hPiece
    simp only [List.cons_append, List.mem_cons, List.mem_append, List.not_mem_nil,
      or_false] at hPiece
    rcases hPiece with rfl | hInside | rfl
    · trivial
    · exact h piece hInside
    · trivial
  unfold Group.wrapPieces
  split
  · exact hBetween _
  · split
    · exact hBetween _
    · exact h

mutual

theorem Comparison.knownStop_pieces :
    ∀ comparison : Comparison, ∀ piece ∈ comparison.pieces, piece.KnownStop
  | .bare _ _ => List.forall_mem_singleton.mpr trivial
  | .isNull _ _ _ => List.forall_mem_singleton.mpr trivial
  | .scalar _ _ _ _ => List.forall_mem_singleton.mpr trivial
  | .nested field operator clause name => by
      have hClause := clause.knownStop_pieces
      intro piece hPiece
      simp only [Comparison.pieces, List.mem_cons, List.mem_append, List.not_mem_nil,
        or_false] at hPiece
      rcases hPiece with rfl | rfl | rfl | rfl | hInside | rfl
      · trivial
      · trivial
      · trivial
      · trivial
      · exact hClause piece hInside
      · trivial

theorem Group.knownStop_pieces :
    ∀ group : Group, ∀ piece ∈ group.pieces, piece.KnownStop
  | .empty negated => by
      cases negated with
      | false => exact fun _ hPiece => absurd hPiece List.not_mem_nil
      | true => exact List.forall_mem_singleton.mpr trivial
  | .joined negated first rest => by
      have hFirst := first.knownStop_pieces
      have hRest := Group.knownStop_restPieces rest
      refine Group.knownStop_wrapPieces fun piece hPiece => ?_
      rcases List.mem_append.mp hPiece with hPiece | hPiece
      · exact hFirst piece hPiece
      · exact hRest piece hPiece

theorem Group.knownStop_restPieces :
    ∀ rest : List (Phrase × Condition), ∀ piece ∈ Group.restPieces rest, piece.KnownStop
  | [] => fun _ hPiece => absurd hPiece List.not_mem_nil
  | (conjunction, child) :: rest => by
      have hChild := child.knownStop_pieces
      have hRest := Group.knownStop_restPieces rest
      intro piece hPiece
      simp only [Group.restPieces, List.mem_cons, List.mem_append] at hPiece
      rcases hPiece with rfl | rfl | rfl | hPiece | hPiece
      · trivial
      · trivial
      · trivial
      · exact hChild piece hPiece
      · exact hRest piece hPiece

theorem Condition.knownStop_pieces :
    ∀ condition : Condition, ∀ piece ∈ condition.pieces, piece.KnownStop
  | .comparison comparison => comparison.knownStop_pieces
  | .group group => group.knownStop_pieces
  | .sub (.mk _ _) => List.forall_mem_singleton.mpr trivial
  | .native snippet => snippet.knownStop_nativePieces

theorem Snippet.knownStop_nativePieces :
    ∀ snippet : Snippet, ∀ piece ∈ snippet.nativePieces, piece.KnownStop
  | .mk text arguments => by
      have hArguments := Argument.knownStop_nativePiecesAll arguments
      intro piece hPiece
      simp only [Snippet.nativePieces, List.mem_cons, List.mem_append, List.not_mem_nil,
        or_false] at hPiece
      rcases hPiece with rfl | hInside | rfl
      · trivial
      · exact hArguments piece hInside
      · trivial

theorem Argument.knownStop_nativePieces :
    ∀ argument : Argument, ∀ piece ∈ argument.nativePieces, piece.KnownStop
  | .value _ => List.forall_mem_singleton.mpr trivial
  | .mapping _ => List.forall_mem_singleton.mpr trivial
  | .clause clause => List.forall_mem_cons.mpr ⟨trivial, clause.knownStop_pieces⟩
  | .paging setting => List.forall_mem_singleton.mpr (.inr ⟨setting, rfl⟩)

theorem Argument.knownStop_nativePiecesAll :
    ∀ arguments : List Argument,
      ∀ piece ∈ Argument.nativePiecesAll arguments, piece.KnownStop
  | [] => fun _ hPiece => absurd hPiece List.not_mem_nil
  | argument :: rest =>
      List.forall_mem_append.mpr
        ⟨argument.knownStop_nativePieces, Argument.knownStop_nativePiecesAll rest⟩

theorem Having.knownStop_pieces :
    ∀ having : Having, ∀ piece ∈ having.pieces, piece.KnownStop
  | .condition condition => List.forall_mem_cons.mpr ⟨trivial, condition.knownStop_pieces⟩
  | .text (.mk _ _) => List.forall_mem_cons.mpr ⟨trivial, List.forall_mem_singleton.mpr trivial⟩

theorem Clause.knownStop_pieces :
    ∀ clause : Clause, ∀ piece ∈ clause.pieces, piece.KnownStop
  | .condition condition => condition.knownStop_pieces
  | .groupBy fields => List.forall_mem_cons.mpr ⟨trivial, fields.knownStop_pieces⟩
  | .orderBy fields => List.forall_mem_cons.mpr ⟨trivial, fields.knownStop_pieces⟩
  | .having having => having.knownStop_pieces
  | .sub (.mk _ _) => List.forall_mem_singleton.mpr trivial
  | .native snippet => snippet.knownStop_nativePieces
  | .aggregate aggregate =>
      List.forall_mem_cons.mpr ⟨trivial, aggregate.fields.knownStop_pieces⟩

end

theorem knownStop_setPieces (assignments : Option (List Assignment)) :
    ∀ piece ∈ setPieces assignments, piece.KnownStop := by
  intro piece hPiece
  cases assignments with
  | none => exact absurd hPiece List.not_mem_nil
  | some list =>
      cases list with
      | nil =>
          obtain rfl := List.mem_singleton.mp hPiece
          exact .inl rfl
      | cons assignment rest =>
          rcases List.mem_cons.mp hPiece with rfl | hRest
          · trivial
          · obtain ⟨other, -, rfl⟩ := List.mem_map.mp hRest
            trivial

theorem knownStop_conditionPieces (condition : Option Condition) :
    ∀ piece ∈ conditionPieces condition, piece.KnownStop := by
  intro piece hPiece
  cases condition with
  | none => exact absurd hPiece List.not_mem_nil
  | some condition => exact condition.knownStop_pieces piece hPiece

theorem knownStop_clausePieces (arguments : List Argument) :
    ∀ piece ∈ clausePieces arguments, piece.KnownStop := by
  intro piece hPiece
  obtain ⟨clause, -, hClause⟩ := List.mem_flatMap.mp hPiece
  exact clause.knownStop_pieces piece hClause

theorem knownStop_callPieces (assignments : Option (List Assignment))
    (condition : Option Condition) (arguments : List Argument) :
    ∀ piece ∈ callPieces assignments condition arguments, piece.KnownStop := by
  intro piece hPiece
  simp only [callPieces, List.mem_append] at hPiece
  rcases hPiece with (hPiece | hPiece) | hPiece
  · exact knownStop_setPieces assignments piece hPiece
  · exact knownStop_conditionPieces condition piece hPiece
  · exact knownStop_clausePieces arguments piece hPiece

end BoundQuery
