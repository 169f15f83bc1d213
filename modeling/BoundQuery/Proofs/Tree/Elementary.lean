import BoundQuery.Proofs.Placeholder.Qualified
import BoundQuery.Proofs.Placeholder.Skeleton
import BoundQuery.Proofs.Tree.Separation

/-!
# Elementary trees

An elementary tree is made of comparisons of paths, with values, with null, with conditions or with
nothing, and of groups; its operators and conjunctions are quiet. Each of its pieces writes a front
part, which is the same in both binding styles, and then perhaps the placeholder of its style.
`Rendered` says how pieces are written with given placeholders, and `Rendered.read` what a scan of
the text finds: the skeleton of the pieces and these placeholders.
-/

namespace BoundQuery

open Placeholder (Apart Kind Quiet Spells isNameChar kinds namedText skeleton)

/-! ## Elementary pieces -/

/-- A field that is a path of ASCII letters, digits, underscores, dollar signs and points. -/
def IsPath (field : Field) : Prop := ∀ c ∈ field.text.toList, isNameChar c = true ∨ c = '.'

instance (field : Field) : Decidable (IsPath field) := List.decidableBAll _ field.text.toList

/-- Pieces of comparisons of paths and of their groups, and assignments of values to paths. -/
def Piece.Elementary : Piece → Prop
  | .word _ => True
  | .field column => IsPath column
  | .phrase text => Quiet text.toList
  | .null column operator _ | .scalar column operator _ _ =>
      IsPath column ∧ Quiet (Comparison.operatorText operator).toList
  | .assigned _ assignment => IsPath assignment.field ∧ assignment.value.isNull = false
  | .sub .. | .having .. | .literal _ | .value _ | .mapping _ | .stop _ => False

/-- The pair that an elementary piece binds by name. -/
def Piece.pair? : Piece → Option (String × Value)
  | .scalar column _ present _ => some (column.parameterName, present.value)
  | .assigned _ assignment => some (assignment.field.parameterName, assignment.value)
  | _ => none

/-- The pairs that elementary pieces bind by name. -/
def Piece.pairs (pieces : List Piece) : List (String × Value) := pieces.filterMap Piece.pair?

/-- What an elementary piece writes before its placeholder. -/
def Piece.front (scope : Scope) : Piece → String
  | .word token => token.text
  | .field column => scope.qualify column.text
  | .phrase text => text
  | .null column operator _ =>
      Comparison.nullText scope column.text (Comparison.operatorText operator)
  | .scalar column operator _ _ =>
      scope.qualify column.text ++ " " ++ Comparison.operatorText operator ++ " "
  | .assigned later assignment =>
      (if later then ", " else "") ++ scope.qualify assignment.field.text ++ " = "
  | _ => ""

theorem IsPath.quiet {field : Field} (h : IsPath field) : Quiet field.text.toList := by
  intro c hc
  rcases h c hc with hName | rfl
  · refine ⟨?_, ?_, ?_⟩ <;> rintro rfl <;> exact absurd hName (by decide)
  · decide

theorem IsPath.spells {field : Field} (h : IsPath field) :
    Spells false (.named field.parameterName) (namedText field.parameterName).toList := by
  refine Placeholder.spells_namedText ?_ ?_
  · intro hEmpty
    have hNil : field.text.toList = [] := by simpa [Field.parameterName] using hEmpty
    exact field.nonempty (String.toList_inj.mp hNil)
  · rw [Field.parameterName, String.toList_ofList, List.all_eq_true]
    intro c hc
    obtain ⟨d, hd, rfl⟩ := List.mem_map.mp hc
    split
    · decide
    · next hPoint => exact (h d hd).resolve_right hPoint

theorem Scope.quiet_qualify (scope : Scope) {field : String} (h : Quiet field.toList) :
    Quiet (scope.qualify field).toList := by
  obtain ⟨front, hQuiet, hEq⟩ := scope.qualify_eq field
  rw [hEq, String.toList_append]
  exact hQuiet.append h

theorem quiet_append {front back : String} (hFront : Quiet front.toList)
    (hBack : Quiet back.toList) : Quiet (front ++ back).toList := by
  rw [String.toList_append]
  exact hFront.append hBack

theorem Piece.Elementary.quiet_front {piece : Piece} (h : piece.Elementary) (scope : Scope) :
    Quiet (piece.front scope).toList := by
  cases piece with
  | word token => exact token.quiet
  | field column => exact scope.quiet_qualify (IsPath.quiet h)
  | phrase text => exact h
  | null column operator name =>
      have hColumn := scope.quiet_qualify h.1.quiet
      have hSpace : Quiet (" " : String).toList := by decide
      rw [Piece.front, Comparison.nullText]
      refine quiet_append hColumn ?_
      split
      · decide
      · split
        · decide
        · exact quiet_append (quiet_append hSpace h.2) (by decide)
  | scalar column operator present name =>
      have hColumn := scope.quiet_qualify h.1.quiet
      exact quiet_append (quiet_append (quiet_append hColumn (by decide)) h.2) (by decide)
  | assigned later assignment =>
      have hColumn := scope.quiet_qualify h.1.quiet
      have hSeparator : Quiet (if later then ", " else "" : String).toList := by
        cases later <;> decide
      exact quiet_append (quiet_append hSeparator hColumn) (by decide)
  | _ => exact h.elim

/-! ## Elementary trees -/

mutual

def Comparison.Elementary : Comparison → Prop
  | .bare field _ => IsPath field
  | .isNull field operator _ | .scalar field operator _ _ =>
      IsPath field ∧ Quiet (Comparison.operatorText operator).toList
  | .nested field operator clause _ =>
      IsPath field ∧ Quiet (Comparison.operatorText operator).toList ∧ clause.Elementary

def Group.Elementary : Group → Prop
  | .empty _ => True
  | .joined _ first rest => first.Elementary ∧ Group.RestElementary rest

def Group.RestElementary : List (Phrase × Condition) → Prop
  | [] => True
  | (conjunction, child) :: rest =>
      Quiet conjunction.text.toList ∧ child.Elementary ∧ Group.RestElementary rest

/-- Conditions of comparisons and groups, as deep as they may be nested. -/
def Condition.Elementary : Condition → Prop
  | .comparison comparison => comparison.Elementary
  | .group group => group.Elementary
  | .sub _ | .native _ => False

/-- A clause in place of a value is elementary only if it is a condition. -/
def Clause.Elementary : Clause → Prop
  | .condition condition => condition.Elementary
  | .groupBy _ | .orderBy _ | .having _ | .sub _ | .native _ | .aggregate _ => False

end

/-- An assignment of a value to a path. -/
def Assignment.Elementary (assignment : Assignment) : Prop :=
  IsPath assignment.field ∧ assignment.value.isNull = false

theorem Group.elementary_wrapPieces {negated several : Bool} {inside : List Piece}
    (h : ∀ piece ∈ inside, piece.Elementary) :
    ∀ piece ∈ Group.wrapPieces negated several inside, piece.Elementary := by
  intro piece hPiece
  have hWord : ∀ token : Word, (Piece.word token).Elementary := fun _ => trivial
  unfold Group.wrapPieces at hPiece
  split at hPiece
  · simp only [List.cons_append, List.mem_cons, List.mem_append, List.not_mem_nil,
      or_false] at hPiece
    rcases hPiece with rfl | hPiece | rfl
    · exact hWord _
    · exact h piece hPiece
    · exact hWord _
  · split at hPiece
    · simp only [List.cons_append, List.mem_cons, List.mem_append, List.not_mem_nil,
        or_false] at hPiece
      rcases hPiece with rfl | hPiece | rfl
      · exact hWord _
      · exact h piece hPiece
      · exact hWord _
    · exact h piece hPiece

mutual

theorem Comparison.elementary_pieces :
    ∀ {comparison : Comparison}, comparison.Elementary →
      ∀ piece ∈ comparison.pieces, piece.Elementary
  | .bare _ _, h => List.forall_mem_singleton.mpr h
  | .isNull _ _ _, h => List.forall_mem_singleton.mpr h
  | .scalar _ _ _ _, h => List.forall_mem_singleton.mpr h
  | .nested field operator clause name, h => by
      obtain ⟨hField, hOperator, hClause⟩ := h
      have hInside := Clause.elementary_pieces hClause
      intro piece hPiece
      simp only [Comparison.pieces, List.mem_cons, List.mem_append, List.not_mem_nil,
        or_false] at hPiece
      rcases hPiece with rfl | rfl | rfl | rfl | hPiece | rfl
      · exact hField
      · exact trivial
      · exact hOperator
      · exact trivial
      · exact hInside piece hPiece
      · exact trivial

theorem Group.elementary_pieces :
    ∀ {group : Group}, group.Elementary → ∀ piece ∈ group.pieces, piece.Elementary
  | .empty negated, _ => by
      cases negated with
      | false => exact fun piece hPiece => absurd hPiece List.not_mem_nil
      | true => exact List.forall_mem_singleton.mpr trivial
  | .joined negated first rest, h => by
      have hFirst := Condition.elementary_pieces h.1
      have hRest := Group.elementary_restPieces h.2
      refine Group.elementary_wrapPieces fun piece hPiece => ?_
      rcases List.mem_append.mp hPiece with hPiece | hPiece
      · exact hFirst piece hPiece
      · exact hRest piece hPiece

theorem Group.elementary_restPieces :
    ∀ {rest : List (Phrase × Condition)}, Group.RestElementary rest →
      ∀ piece ∈ Group.restPieces rest, piece.Elementary
  | [], _ => fun piece hPiece => absurd hPiece List.not_mem_nil
  | (conjunction, child) :: rest, h => by
      obtain ⟨hConjunction, hFirst, hLater⟩ := h
      have hChild := Condition.elementary_pieces hFirst
      have hRest := Group.elementary_restPieces hLater
      intro piece hPiece
      simp only [Group.restPieces, List.mem_cons, List.mem_append] at hPiece
      rcases hPiece with rfl | rfl | rfl | hPiece | hPiece
      · exact trivial
      · exact hConjunction
      · exact trivial
      · exact hChild piece hPiece
      · exact hRest piece hPiece

theorem Condition.elementary_pieces :
    ∀ {condition : Condition}, condition.Elementary →
      ∀ piece ∈ condition.pieces, piece.Elementary
  | .comparison _, h => Comparison.elementary_pieces h
  | .group _, h => Group.elementary_pieces h
  | .sub _, h => h.elim
  | .native _, h => h.elim

theorem Clause.elementary_pieces :
    ∀ {clause : Clause}, clause.Elementary → ∀ piece ∈ clause.pieces, piece.Elementary
  | .condition _, h => Condition.elementary_pieces h
  | .groupBy _, h => h.elim
  | .orderBy _, h => h.elim
  | .having _, h => h.elim
  | .sub _, h => h.elim
  | .native _, h => h.elim
  | .aggregate _, h => h.elim

end

theorem elementary_conditionPieces {condition : Option Condition}
    (h : ∀ part ∈ condition, part.Elementary) :
    ∀ piece ∈ conditionPieces condition, piece.Elementary := by
  cases condition with
  | none => exact fun piece hPiece => absurd hPiece List.not_mem_nil
  | some condition => exact Condition.elementary_pieces (h condition rfl)

theorem elementary_setPieces {assignments : Option (List Assignment)}
    (hNonempty : assignments ≠ some [])
    (h : ∀ list ∈ assignments, ∀ assignment ∈ list, assignment.Elementary) :
    ∀ piece ∈ setPieces assignments, piece.Elementary := by
  cases assignments with
  | none => exact fun piece hPiece => absurd hPiece List.not_mem_nil
  | some list =>
      cases list with
      | nil => exact absurd rfl hNonempty
      | cons assignment rest =>
          have hAll := h _ rfl
          intro piece hPiece
          rcases List.mem_cons.mp hPiece with rfl | hRest
          · exact hAll assignment (by simp)
          · obtain ⟨other, hOther, rfl⟩ := List.mem_map.mp hRest
            exact hAll other (by simp [hOther])

/-! ## Texts with placeholders -/

/-- The text of pieces with a list of placeholders, one for each pair that they bind. -/
inductive Rendered (scope : Scope) : List Piece → List Kind → String → Prop
  | nil : Rendered scope [] [] ""
  | still {piece : Piece} {rest : List Piece} {marks : List Kind} {back : String}
      (hPair : piece.pair? = none) (hRest : Rendered scope rest marks back) :
      Rendered scope (piece :: rest) marks (piece.front scope ++ back)
  | marked {piece : Piece} {rest : List Piece} {marks : List Kind} {kind : Kind}
      {mark back : String} (hPair : piece.pair?.isSome = true)
      (hSpells : Spells false kind mark.toList) (hRest : Rendered scope rest marks back) :
      Rendered scope (piece :: rest) (kind :: marks) (piece.front scope ++ (mark ++ back))

/-- The skeleton of an elementary piece. -/
def Piece.skeleton (scope : Scope) (piece : Piece) : List (Option Char) :=
  (piece.front scope).toList.map some ++ (if piece.pair?.isSome then [none] else [])

namespace Rendered

variable {scope : Scope} {pieces : List Piece} {marks : List Kind} {text : String}

theorem apart (h : Rendered scope pieces marks text)
    (hElementary : ∀ piece ∈ pieces, piece.Elementary)
    (hOpens : Piece.opensApart pieces = true) : Apart text.toList := by
  have hFront : ∀ (piece : Piece) (rest : List Piece) (back : String), piece.Elementary →
      Piece.opensApart (piece :: rest) = true → Apart (piece.front scope ++ back).toList := by
    intro piece rest back hPiece hPieceOpens
    cases piece with
    | word token =>
        rw [String.toList_append]
        exact (Word.apart hPieceOpens).append_left token.text_ne_nil _
    | assigned later assignment =>
        have hLater : later = true := hPieceOpens
        simp only [Piece.front, hLater, if_true, String.append_assoc]
        have hComma := apart_comma (scope.qualify assignment.field.text ++ " = ") back
        rwa [String.append_assoc, String.append_assoc] at hComma
    | field column => exact absurd hPieceOpens Bool.false_ne_true
    | phrase text => exact absurd hPieceOpens Bool.false_ne_true
    | null column operator name => exact absurd hPieceOpens Bool.false_ne_true
    | scalar column operator present name => exact absurd hPieceOpens Bool.false_ne_true
    | _ => exact hPiece.elim
  cases h with
  | nil => exact Placeholder.stops_nil _
  | still hPair hRest => exact hFront _ _ _ (hElementary _ (by simp)) hOpens
  | marked hPair hSpells hRest => exact hFront _ _ _ (hElementary _ (by simp)) hOpens

/-- What a scan finds in the text of separated pieces: their skeleton and the placeholders. -/
theorem read (h : Rendered scope pieces marks text)
    (hElementary : ∀ piece ∈ pieces, piece.Elementary) (hSeparated : Piece.Separated pieces) :
    skeleton text = pieces.flatMap (Piece.skeleton scope) ∧ kinds text = marks := by
  induction h with
  | nil => exact ⟨rfl, rfl⟩
  | @still piece rest marks back hPair hRest ih =>
      obtain ⟨hSkeleton, hKinds⟩ :=
        ih (fun other hOther => hElementary other (by simp [hOther])) hSeparated.2
      have hQuiet := (hElementary piece (by simp)).quiet_front scope
      constructor
      · rw [Placeholder.skeleton_quiet_append hQuiet, hSkeleton, List.flatMap_cons,
          Piece.skeleton, hPair]
        simp
      · rw [Placeholder.kinds_quiet_append hQuiet, hKinds]
  | @marked piece rest marks kind mark back hPair hSpells hRest ih =>
      have hLater : ∀ other ∈ rest, other.Elementary :=
        fun other hOther => hElementary other (by simp [hOther])
      obtain ⟨hSkeleton, hKinds⟩ := ih hLater hSeparated.2
      have hQuiet := (hElementary piece (by simp)).quiet_front scope
      have hOpens : Piece.opensApart rest = true := by
        refine hSeparated.1.resolve_left fun hWord => ?_
        cases piece with
        | word token => exact absurd hPair Bool.false_ne_true
        | _ => exact absurd hWord Bool.false_ne_true
      have hApart := hRest.apart hLater hOpens
      constructor
      · rw [Placeholder.skeleton_quiet_append hQuiet,
          Placeholder.skeleton_mark_append hSpells hApart, hSkeleton, List.flatMap_cons,
          Piece.skeleton, if_pos hPair]
        simp
      · rw [Placeholder.kinds_quiet_append hQuiet, Placeholder.kinds_mark_append hSpells hApart,
          hKinds]

end Rendered

end BoundQuery
