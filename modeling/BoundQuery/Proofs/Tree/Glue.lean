import BoundQuery.Proofs.Tree.Pieces

/-!
# What groups write around their conditions

A group writes a conjunction between two neighbouring conditions, and brackets around all of them if
it is negated or has several. `Glue` is one such conjunction, or one such pair of brackets, with the
conditions that it stands between or around. `Condition.glued` lists all of them in a tree, through
groups in groups, nested clauses and the arguments of native fragments, each with the pieces before
it and after it; `Condition.placed_glued` says that these are the places where the tree has them.
-/

namespace BoundQuery

/-- What a group writes besides its conditions. -/
inductive Glue where
  | conjunction (left : Condition) (phrase : Phrase) (right : Condition)
  | brackets (negated : Bool) (first : Condition) (rest : List (Phrase × Condition))

/-- The pieces of a conjunction. -/
def Phrase.conjunctionPieces (phrase : Phrase) : List Piece :=
  [.word .space, .phrase phrase.text, .word .space]

/-- A conjunction and the conditions on its two sides, or brackets and what is inside. -/
def Glue.pieces : Glue → List Piece
  | .conjunction left phrase right => left.pieces ++ (phrase.conjunctionPieces ++ right.pieces)
  | .brackets negated first rest =>
      Group.wrapPieces negated true (first.pieces ++ Group.restPieces rest)

/-- Glue in a tree, with the pieces before it and after it. -/
structure Glued where
  before : List Piece
  glue : Glue
  after : List Piece

namespace Glued

/-- A place in a part of a tree that has more pieces around it. -/
def within (front back : List Piece) (place : Glued) : Glued :=
  ⟨front ++ place.before, place.glue, place.after ++ back⟩

/-- The glue stands at its place in a list of pieces. -/
def In (pieces : List Piece) (place : Glued) : Prop :=
  pieces = place.before ++ (place.glue.pieces ++ place.after)

theorem In.within {pieces : List Piece} {place : Glued} (h : place.In pieces)
    (front back : List Piece) : (place.within front back).In (front ++ (pieces ++ back)) := by
  unfold In at h ⊢
  rw [h]
  simp only [Glued.within, List.append_assoc]

theorem forall_within {pieces : List Piece} {places : List Glued}
    (h : ∀ place ∈ places, place.In pieces) (front back : List Piece) :
    ∀ place ∈ places.map (Glued.within front back), place.In (front ++ (pieces ++ back)) :=
  List.forall_mem_map.mpr fun place hPlace => (h place hPlace).within front back

end Glued

open Glued (within)

/-- The brackets of a group, if it has any, and the glue inside at its places in the group. -/
def Group.wrapGlued (negated : Bool) (first : Condition) (rest : List (Phrase × Condition))
    (inside : List Glued) : List Glued :=
  if negated then
    ⟨[], .brackets true first rest, []⟩ ::
      inside.map (within [.word .negatedOpening] [.word .closing])
  else if rest.isEmpty then inside
  else
    ⟨[], .brackets false first rest, []⟩ :: inside.map (within [.word .opening] [.word .closing])

mutual

def Comparison.glued : Comparison → List Glued
  | .nested field operator clause _ =>
      clause.glued.map (within [.field field, .word .space,
        .phrase (Comparison.operatorText operator), .word .nestedOpening] [.word .closing])
  | .bare .. | .isNull .. | .scalar .. => []

def Group.glued : Group → List Glued
  | .empty _ => []
  | .joined negated first rest =>
      Group.wrapGlued negated first rest
        (first.glued.map (within [] (Group.restPieces rest)) ++ Group.restGlued first rest)

/-- The glue behind the condition `left` of a group. -/
def Group.restGlued : Condition → List (Phrase × Condition) → List Glued
  | _, [] => []
  | left, (phrase, child) :: rest =>
      let front := left.pieces ++ phrase.conjunctionPieces
      ⟨[], .conjunction left phrase child, Group.restPieces rest⟩ ::
        (child.glued.map (within front (Group.restPieces rest)) ++
          (Group.restGlued child rest).map (within front []))

def Condition.glued : Condition → List Glued
  | .comparison comparison => comparison.glued
  | .group group => group.glued
  | .sub _ => []
  | .native snippet => snippet.glued

def Snippet.glued : Snippet → List Glued
  | .mk text arguments =>
      (Argument.gluedAll arguments).map (within [.literal text] [.word .closing])

def Argument.glued : Argument → List Glued
  | .clause clause => clause.glued.map (within [.word .comma] [])
  | .value _ | .mapping _ | .paging _ => []

def Argument.gluedAll : List Argument → List Glued
  | [] => []
  | argument :: rest =>
      argument.glued.map (within [] (Argument.nativePiecesAll rest)) ++
        (Argument.gluedAll rest).map (within argument.nativePieces [])

def Having.glued : Having → List Glued
  | .condition condition => condition.glued.map (within [.word .having] [])
  | .text _ => []

def Clause.glued : Clause → List Glued
  | .condition condition => condition.glued
  | .having having => having.glued
  | .native snippet => snippet.glued
  | .groupBy _ | .orderBy _ | .sub _ | .aggregate _ => []

end

/-! ## The places of glue -/

theorem Group.placed_wrapGlued {first : Condition} {rest : List (Phrase × Condition)}
    {inside : List Glued}
    (h : ∀ place ∈ inside, place.In (first.pieces ++ Group.restPieces rest)) (negated : Bool) :
    ∀ place ∈ Group.wrapGlued negated first rest inside,
      place.In (Group.joined negated first rest).pieces := by
  have hAround : ∀ (token : Word) (glue : Glue),
      glue.pieces = .word token :: (first.pieces ++ Group.restPieces rest) ++ [.word .closing] →
      ∀ place ∈ ⟨[], glue, []⟩ :: inside.map (within [.word token] [.word .closing]),
        place.In (.word token :: (first.pieces ++ Group.restPieces rest) ++ [.word .closing]) := by
    intro token glue hGlue
    refine List.forall_mem_cons.mpr ⟨?_, Glued.forall_within h [.word token] [.word .closing]⟩
    rw [Glued.In, hGlue, List.nil_append, List.append_nil]
  rw [Group.pieces]
  cases negated with
  | true => exact hAround .negatedOpening (.brackets true first rest) rfl
  | false =>
      cases hRest : rest.isEmpty with
      | true => simpa [Group.wrapGlued, Group.wrapPieces, hRest] using h
      | false =>
          simp only [Group.wrapGlued, Group.wrapPieces, hRest, Bool.false_eq_true, if_false,
            Bool.not_false, if_true]
          exact hAround .opening (.brackets false first rest) rfl

mutual

theorem Comparison.placed_glued :
    ∀ comparison : Comparison, ∀ place ∈ comparison.glued, place.In comparison.pieces
  | .bare _ _ => fun _ hPlace => absurd hPlace List.not_mem_nil
  | .isNull _ _ _ => fun _ hPlace => absurd hPlace List.not_mem_nil
  | .scalar _ _ _ _ => fun _ hPlace => absurd hPlace List.not_mem_nil
  | .nested _ _ clause _ => Glued.forall_within clause.placed_glued _ _

theorem Group.placed_glued : ∀ group : Group, ∀ place ∈ group.glued, place.In group.pieces
  | .empty _ => fun _ hPlace => absurd hPlace List.not_mem_nil
  | .joined negated first rest => by
      refine Group.placed_wrapGlued (List.forall_mem_append.mpr ⟨?_, ?_⟩) negated
      · exact Glued.forall_within first.placed_glued [] (Group.restPieces rest)
      · exact Group.placed_restGlued first rest

theorem Group.placed_restGlued :
    ∀ (left : Condition) (rest : List (Phrase × Condition)),
      ∀ place ∈ Group.restGlued left rest, place.In (left.pieces ++ Group.restPieces rest)
  | _, [] => fun _ hPlace => absurd hPlace List.not_mem_nil
  | left, (phrase, child) :: rest => by
      have hChild := Glued.forall_within child.placed_glued
        (left.pieces ++ phrase.conjunctionPieces) (Group.restPieces rest)
      have hRest := Glued.forall_within (Group.placed_restGlued child rest)
        (left.pieces ++ phrase.conjunctionPieces) []
      have hPieces : left.pieces ++ Group.restPieces ((phrase, child) :: rest) =
          left.pieces ++ phrase.conjunctionPieces ++ (child.pieces ++ Group.restPieces rest) := by
        rw [List.append_assoc]
        rfl
      rw [List.append_nil, ← hPieces] at hRest
      rw [← hPieces] at hChild
      refine List.forall_mem_cons.mpr ⟨?_, List.forall_mem_append.mpr ⟨hChild, hRest⟩⟩
      rw [Glued.In, hPieces]
      simp only [Glue.pieces, List.nil_append, List.append_assoc]

theorem Condition.placed_glued :
    ∀ condition : Condition, ∀ place ∈ condition.glued, place.In condition.pieces
  | .comparison comparison => comparison.placed_glued
  | .group group => group.placed_glued
  | .sub _ => fun _ hPlace => absurd hPlace List.not_mem_nil
  | .native snippet => snippet.placed_glued

theorem Snippet.placed_glued :
    ∀ snippet : Snippet, ∀ place ∈ snippet.glued, place.In snippet.nativePieces
  | .mk text arguments =>
      Glued.forall_within (Argument.placed_gluedAll arguments) [.literal text] [.word .closing]

theorem Argument.placed_glued :
    ∀ argument : Argument, ∀ place ∈ argument.glued, place.In argument.nativePieces
  | .value _ => fun _ hPlace => absurd hPlace List.not_mem_nil
  | .mapping _ => fun _ hPlace => absurd hPlace List.not_mem_nil
  | .paging _ => fun _ hPlace => absurd hPlace List.not_mem_nil
  | .clause clause => by
      have hClause := Glued.forall_within clause.placed_glued [.word .comma] []
      rwa [List.append_nil] at hClause

theorem Argument.placed_gluedAll :
    ∀ arguments : List Argument,
      ∀ place ∈ Argument.gluedAll arguments, place.In (Argument.nativePiecesAll arguments)
  | [] => fun _ hPlace => absurd hPlace List.not_mem_nil
  | argument :: rest => by
      have hHere := Glued.forall_within argument.placed_glued [] (Argument.nativePiecesAll rest)
      have hLater := Glued.forall_within (Argument.placed_gluedAll rest) argument.nativePieces []
      rw [List.append_nil] at hLater
      exact List.forall_mem_append.mpr ⟨hHere, hLater⟩

theorem Having.placed_glued : ∀ having : Having, ∀ place ∈ having.glued, place.In having.pieces
  | .condition condition => by
      have hCondition := Glued.forall_within condition.placed_glued [.word .having] []
      rwa [List.append_nil] at hCondition
  | .text _ => fun _ hPlace => absurd hPlace List.not_mem_nil

theorem Clause.placed_glued : ∀ clause : Clause, ∀ place ∈ clause.glued, place.In clause.pieces
  | .condition condition => condition.placed_glued
  | .having having => having.placed_glued
  | .native snippet => snippet.placed_glued
  | .groupBy _ => fun _ hPlace => absurd hPlace List.not_mem_nil
  | .orderBy _ => fun _ hPlace => absurd hPlace List.not_mem_nil
  | .sub _ => fun _ hPlace => absurd hPlace List.not_mem_nil
  | .aggregate _ => fun _ hPlace => absurd hPlace List.not_mem_nil

end

end BoundQuery
