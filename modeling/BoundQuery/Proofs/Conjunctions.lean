import BoundQuery.Proofs.ArgumentsKept
import BoundQuery.Proofs.Payload
import BoundQuery.Proofs.Placeholder.Blank
import BoundQuery.Proofs.Tree.Glue
import BoundQuery.Proofs.Update

/-!
# Conjunctions between texts

A group writes its conjunctions and its brackets whether its conditions write something or not.
A condition that is `isHollow` writes nothing but blanks: a group without conditions that is not
negated, a group of one hollow condition, or a blank sub-expression. `Condition.isBlankText_write`
says that no other condition does. So a conjunction stands between two texts, and brackets stand
around one, just where no hollow condition is next to it or alone inside (`glue_of_compile`).
-/

namespace BoundQuery

open Placeholder (isBlankText_numberFrom isBlankText_renumber)
open Text (isBlankText isBlankText_append)

/-! ## Steps in a row -/

/-- A step in two parts that goes through writes the text of both, the second part on what the first
has left. -/
theorem Step.append_of_fault {first second : Step} {bindings : Bindings}
    (h : ((first ++ second) bindings).fault = none) :
    (first bindings).fault = none ∧ (second (first bindings).bindings).fault = none ∧
      (first ++ second) bindings =
        ⟨(first bindings).text ++ (second (first bindings).bindings).text,
          (second (first bindings).bindings).bindings, none⟩ := by
  rw [append_apply] at h ⊢
  cases hFirst : (first bindings).fault with
  | some fault =>
      simp only [hFirst] at h
      exact absurd h (by simp)
  | none =>
      simp only [hFirst] at h ⊢
      exact ⟨trivial, h, by rw [h]⟩

/-! ## Conditions that write nothing -/

mutual

/-- Whether a condition writes nothing but blanks. -/
def Condition.isHollow : Condition → Bool
  | .comparison _ | .native _ => false
  | .group group => group.isHollow
  | .sub (.mk text _) => isBlankText text

def Group.isHollow : Group → Bool
  | .empty negated => !negated
  | .joined negated first rest => !negated && rest.isEmpty && first.isHollow

end

/-- A text that comes behind one that is not blank. -/
theorem isBlankText_append_left {front : String} (h : isBlankText front = false) (back : String) :
    isBlankText (front ++ back) = false := by
  rw [isBlankText_append, h, Bool.false_and]

namespace Comparison

theorem isBlankText_embed? {scope : Scope} {field : Field} {operator : String} {value : Value}
    {bindings after : Bindings} {text : String}
    (h : embed? scope field.text operator value bindings = some (.ok (text, after))) :
    isBlankText text = false := by
  have hField := scope.isBlankText_qualify field
  cases bindings with
  | positional values =>
      simp only [embed?] at h
      split_ifs at h
      · obtain ⟨rfl, -⟩ := Prod.mk.inj (Except.ok.inj (Option.some.inj h))
        rw [isBlankText_renumber, hField]
      · obtain ⟨rfl, -⟩ := Prod.mk.inj (Except.ok.inj (Option.some.inj h))
        rw [String.append_assoc]
        exact isBlankText_append_left hField _
  | named dict =>
      simp only [embed?] at h
      split at h
      · obtain ⟨dict', -, hPair⟩ := bind_eq_ok.mp (Option.some.inj h)
        obtain ⟨rfl, -⟩ := Prod.mk.inj (Except.ok.inj hPair)
        exact hField
      · obtain ⟨dict', -, hPair⟩ := bind_eq_ok.mp (Option.some.inj h)
        obtain ⟨rfl, -⟩ := Prod.mk.inj (Except.ok.inj hPair)
        rw [String.append_assoc]
        exact isBlankText_append_left hField _
      · exact absurd h (by simp)

/-- Every comparison writes its field. -/
theorem isBlankText_write {comparison : Comparison} {scope : Scope} {bindings after : Bindings}
    {text : String} (h : (comparison.write scope).finish bindings = .ok (text, after)) :
    isBlankText text = false := by
  have hField := fun field => scope.isBlankText_qualify field
  cases comparison with
  | bare field mark =>
      obtain ⟨rfl, -⟩ := Prod.mk.inj (Except.ok.inj h)
      exact hField field
  | isNull field operator name =>
      rw [write, writeNull, Step.finish_ofBinding] at h
      split at h
      · rename_i bound hEmbed
        rw [h] at hEmbed
        exact isBlankText_embed? hEmbed
      · obtain ⟨rfl, -⟩ := Prod.mk.inj (Except.ok.inj h)
        exact isBlankText_append_left (hField field) _
  | scalar field operator value name =>
      rw [write, writeScalar, Step.finish_ofBinding] at h
      split at h
      · rename_i bound hEmbed
        rw [h] at hEmbed
        exact isBlankText_embed? hEmbed
      · obtain ⟨⟨placeholder, middle⟩, -, hPair⟩ := bind_eq_ok.mp h
        obtain ⟨rfl, -⟩ := Prod.mk.inj (Except.ok.inj hPair)
        simp only [String.append_assoc]
        exact isBlankText_append_left (hField field) _
  | nested field operator clause name =>
      rw [write, Step.append_assoc, Step.finish_append, Step.finish_emit] at h
      obtain ⟨⟨front, middle⟩, hFront, hRest⟩ := bind_eq_ok.mp h
      obtain ⟨⟨back, last⟩, -, hPair⟩ := bind_eq_ok.mp hRest
      obtain ⟨rfl, -⟩ := Prod.mk.inj (Except.ok.inj hPair)
      obtain ⟨rfl, -⟩ := Prod.mk.inj (Except.ok.inj hFront)
      simp only [String.append_assoc]
      exact isBlankText_append_left (hField field) _

end Comparison

/-- A sub-expression is as blank as its text: numbers take the place of placeholders only. -/
theorem Snippet.isBlankText_writeSub {text written : String} {arguments : List Argument}
    {bindings after : Bindings}
    (h : (writeSub text arguments).finish bindings = .ok (written, after)) :
    isBlankText written = isBlankText text := by
  cases bindings with
  | positional values =>
      rw [Piece.finish_sub_positional] at h
      obtain ⟨placed, hPlaced, hPair⟩ := map_eq_ok.mp h
      obtain ⟨rfl, -⟩ := Prod.mk.inj hPair
      split at hPlaced
      · obtain rfl := Except.ok.inj hPlaced
        rfl
      · rw [placedSub] at hPlaced
        split at hPlaced
        · exact absurd hPlaced (by simp)
        · split at hPlaced
          · obtain rfl := Except.ok.inj hPlaced
            exact isBlankText_numberFrom text _
          · exact absurd hPlaced (by simp)
  | named dict =>
      rw [Piece.finish_sub_named] at h
      obtain ⟨asked, hAsked, hBound⟩ := bind_eq_ok.mp h
      obtain ⟨after, -, hPair⟩ := map_eq_ok.mp hBound
      obtain ⟨rfl, -⟩ := Prod.mk.inj hPair
      split at hAsked
      · obtain rfl := Except.ok.inj hAsked
        rfl
      · rw [text_of_askedSub hAsked]

namespace Group

variable {scope : Scope} {first : Condition} {rest : List (Phrase × Condition)}
  {bindings : Bindings}

/-- A conjunction is not blank, so that only a group of one condition may write nothing. -/
theorem isBlankText_inside
    (hFirst : (first.write scope bindings).fault = none →
      isBlankText (first.write scope bindings).text = first.isHollow)
    (h : ((first.write scope ++ writeRest scope rest) bindings).fault = none) :
    isBlankText ((first.write scope ++ writeRest scope rest) bindings).text =
      (first.isHollow && rest.isEmpty) := by
  obtain ⟨hBefore, hBehind, hText⟩ := Step.append_of_fault h
  rw [hText]
  show isBlankText (_ ++ _) = _
  rw [isBlankText_append, hFirst hBefore]
  cases rest with
  | nil => rfl
  | cons entry rest =>
      obtain ⟨phrase, child⟩ := entry
      rw [writeRest, Step.append_assoc] at hBehind ⊢
      obtain ⟨-, -, hJoined⟩ := Step.append_of_fault hBehind
      rw [hJoined]
      have hPhrase : isBlankText (" " ++ phrase.text ++ " ") = false := by
        rw [isBlankText_append, isBlankText_append, phrase.isBlankText_text, Bool.and_false,
          Bool.false_and]
      exact congrArg (first.isHollow && ·) (isBlankText_append_left hPhrase _)

/-- A group of one condition is written as that condition. -/
theorem write_single (scope : Scope) (first : Condition) :
    (joined false first []).write scope = first.write scope := by
  rw [write, writeRest]
  exact Step.append_emit_empty _

/-- A group that is negated, or has several conditions, is written in brackets. -/
theorem write_brackets {negated : Bool} (h : (negated || !rest.isEmpty) = true) :
    (joined negated first rest).write scope =
      wrap negated true (first.write scope ++ writeRest scope rest) := by
  rw [write]
  cases negated with
  | true => rfl
  | false => rw [show (!rest.isEmpty) = true from h]

theorem isHollow_brackets {negated : Bool} (h : (negated || !rest.isEmpty) = true) :
    (joined negated first rest).isHollow = false := by
  rw [isHollow]
  cases negated with
  | true => rfl
  | false => simp_all

/-- What a group in brackets writes. -/
theorem text_wrap {negated : Bool} {inside : Step}
    (h : (wrap negated true inside bindings).fault = none) :
    (inside bindings).fault = none ∧
      (wrap negated true inside bindings).text =
        (if negated then "NOT (" else "(") ++ (inside bindings).text ++ ")" := by
  have hWrap : wrap negated true inside =
      Step.emit (if negated then "NOT (" else "(") ++ inside ++ Step.emit ")" := by
    cases negated <;> rfl
  rw [hWrap] at h ⊢
  obtain ⟨hFront, -, hText⟩ := Step.append_of_fault h
  obtain ⟨-, hInside, hFrontText⟩ := Step.append_of_fault hFront
  rw [hText, hFrontText]
  exact ⟨hInside, rfl⟩

end Group

mutual

/-- A condition that goes through writes nothing but blanks if it is hollow, and else something. -/
theorem Condition.isBlankText_write (scope : Scope) :
    ∀ (condition : Condition) {bindings : Bindings},
      (condition.write scope bindings).fault = none →
      isBlankText (condition.write scope bindings).text = condition.isHollow
  | .comparison comparison, _, h =>
      Comparison.isBlankText_write (Step.finish_eq_ok.mpr ⟨h, rfl, rfl⟩)
  | .group group, _, h => group.isBlankText_write scope h
  | .sub (.mk _ _), _, h => Snippet.isBlankText_writeSub (Step.finish_eq_ok.mpr ⟨h, rfl, rfl⟩)
  | .native (.mk text arguments), bindings, h => by
      rw [Condition.write, Snippet.writeNative] at h ⊢
      obtain ⟨-, -, hText⟩ := Step.append_of_fault h
      rw [hText]
      show isBlankText (_ ++ ")") = false
      rw [isBlankText_append]
      exact Bool.and_false _

theorem Group.isBlankText_write (scope : Scope) :
    ∀ (group : Group) {bindings : Bindings}, (group.write scope bindings).fault = none →
      isBlankText (group.write scope bindings).text = group.isHollow
  | .empty negated, _, _ => by
      cases negated with
      | false => exact (by decide +kernel : isBlankText "" = true)
      | true => exact (by decide +kernel : isBlankText "NOT" = false)
  | .joined negated first rest, bindings, h => by
      cases hBrackets : negated || !rest.isEmpty with
      | true =>
          rw [Group.write_brackets hBrackets] at h ⊢
          rw [(Group.text_wrap h).2, isBlankText_append, Group.isHollow_brackets hBrackets]
          exact Bool.and_false _
      | false =>
          obtain ⟨rfl, hRest⟩ := Bool.or_eq_false_iff.mp hBrackets
          obtain rfl : rest = [] := by simpa using hRest
          rw [Group.write_single] at h ⊢
          rw [first.isBlankText_write scope h]
          rfl

end

/-! ## Conjunctions and brackets -/

namespace Glue

/-- No condition next to a conjunction is hollow, and no hollow condition is all that is in
brackets. -/
def isFull : Glue → Bool
  | .conjunction left _ right => !left.isHollow && !right.isHollow
  | .brackets _ first rest => !(first.isHollow && rest.isEmpty)

/-- Writes the glue together with the conditions that it stands between or around. -/
def write (scope : Scope) : Glue → Step
  | .conjunction left phrase right =>
      left.write scope ++ (Step.emit (" " ++ phrase.text ++ " ") ++ right.write scope)
  | .brackets negated first rest =>
      Group.wrap negated true (first.write scope ++ Group.writeRest scope rest)

/-- A conjunction stands between two texts that are not blank, and brackets around one. -/
def Stands (scope : Scope) (bindings : Bindings) : Glue → Prop
  | .conjunction left _ right =>
      isBlankText (left.write scope bindings).text = false ∧
        isBlankText (right.write scope (left.write scope bindings).bindings).text = false
  | .brackets _ first rest =>
      isBlankText ((first.write scope ++ Group.writeRest scope rest) bindings).text = false

theorem write_eq (scope : Scope) (glue : Glue) :
    glue.write scope = Piece.writeAll scope glue.pieces := by
  cases glue with
  | conjunction left phrase right =>
      have hPhrase : Piece.writeAll scope phrase.conjunctionPieces =
          Step.emit (" " ++ phrase.text ++ " ") := by
        simp only [Phrase.conjunctionPieces, Piece.writeAll, Piece.write, Word.text,
          Step.emit_append_emit, String.append_empty, String.append_assoc]
      rw [write, pieces, Piece.writeAll_append, Piece.writeAll_append, hPhrase, left.write_eq,
        right.write_eq]
  | brackets negated first rest =>
      rw [write, pieces, ← Group.wrap_writeAll, Piece.writeAll_append, first.write_eq,
        Group.writeRest_eq]

/-- Glue that is written stands between or around texts just when it is full. -/
theorem stands_iff {scope : Scope} {glue : Glue} {bindings : Bindings}
    (h : (glue.write scope bindings).fault = none) :
    glue.Stands scope bindings ↔ glue.isFull = true := by
  cases glue with
  | conjunction left phrase right =>
      rw [write] at h
      obtain ⟨hLeft, hBehind, -⟩ := Step.append_of_fault h
      obtain ⟨-, hRight, -⟩ := Step.append_of_fault hBehind
      have hRightBlank :
          isBlankText (right.write scope (left.write scope bindings).bindings).text =
            right.isHollow := right.isBlankText_write scope hRight
      rw [Stands, left.isBlankText_write scope hLeft, hRightBlank, isFull, Bool.and_eq_true,
        Bool.not_eq_true', Bool.not_eq_true']
  | brackets negated first rest =>
      obtain ⟨hInside, -⟩ := Group.text_wrap h
      rw [Stands, Group.isBlankText_inside (first.isBlankText_write scope) hInside, isFull,
        Bool.not_eq_true']

end Glue

/-- In a call that goes through, each conjunction of a group in the condition, and each pair of
brackets, is in the text at its place, between what the pieces before it and after it write. The
conjunction stands there between two texts that are not blank just when neither condition next to it
is hollow, and the brackets stand around such a text just when a hollow condition is not all that
they hold. -/
theorem glue_of_compile {scope : Scope} {assignments : Option (List Assignment)}
    {condition : Condition} {arguments : List Argument} {compiled : Compiled}
    (hOk : compile scope assignments (some condition) arguments = .ok compiled) :
    ∃ start,
      (Step.optional (Assignment.writeAll scope) assignments).finish
          (opening (some condition) arguments) = .ok (compiled.assignments.getD "", start) ∧
      (condition.write scope start).text = compiled.text ∧
      ∀ place ∈ condition.glued,
        let before := Piece.writeAll scope place.before start
        let here := place.glue.write scope before.bindings
        let after := Piece.writeAll scope place.after here.bindings
        compiled.text = before.text ++ here.text ++ after.text ∧
        (place.glue.Stands scope before.bindings ↔ place.glue.isFull = true) := by
  obtain ⟨start, middle, -, hSet, hCondition, -⟩ := steps_of_compile hOk
  obtain ⟨hFault, hText, -⟩ := Step.finish_eq_ok.mp hCondition
  refine ⟨start, hSet, hText, fun place hPlace => ?_⟩
  have hWrite : condition.write scope =
      Piece.writeAll scope place.before ++
        (place.glue.write scope ++ Piece.writeAll scope place.after) := by
    rw [condition.write_eq, condition.placed_glued place hPlace, Piece.writeAll_append,
      Piece.writeAll_append, place.glue.write_eq]
  rw [Step.optional, hWrite] at hFault hText
  obtain ⟨-, hBehind, hWhole⟩ := Step.append_of_fault hFault
  obtain ⟨hGlue, -, hBehindText⟩ := Step.append_of_fault hBehind
  refine ⟨?_, Glue.stands_iff hGlue⟩
  rw [← hText, hWhole, hBehindText]
  exact (String.append_assoc ..).symm

/-- The condition that the status is open and that, negated in brackets, the owner is someone. -/
def openCondition : Condition :=
  .group (.joined false (hasText statusField "OPEN")
    [(Group.andPhrase, .group (.joined true (hasText ownerField "A") []))])

/-- Two pairs of brackets and a conjunction, in a call by position. -/
theorem glue_of_openCondition :
    ∃ compiled, compile .standard none (some openCondition) [] = .ok compiled ∧
      compiled.text = "(e.status = ?1 AND NOT (e.owner = ?2))" ∧
      openCondition.glued.length = 3 ∧
      ∀ place ∈ openCondition.glued,
        place.glue.Stands .standard
          (Piece.writeAll .standard place.before (.positional [])).bindings := by
  have hOk : compile .standard none (some openCondition) [] =
      .ok ⟨none, "(e.status = ?1 AND NOT (e.owner = ?2))", "",
        .positional [.string "OPEN", .string "A"], []⟩ := rfl
  have hFull : ∀ place ∈ openCondition.glued, place.glue.isFull = true := by decide +kernel
  obtain ⟨start, hStart, -, hPlaces⟩ := glue_of_compile hOk
  obtain rfl : Bindings.positional [] = start := congrArg Prod.snd (Except.ok.inj hStart)
  exact ⟨_, hOk, rfl, rfl, fun place hPlace => (hPlaces place hPlace).2.mpr (hFull place hPlace)⟩

/-- The condition that the status is open and a group that has no conditions. -/
def danglingCondition : Condition :=
  .group (.joined false (hasText statusField "OPEN") [(Group.andPhrase, .group (.empty false))])

/-- Not every conjunction stands between two texts: it is written before a group that writes
nothing. -/
theorem not_every_conjunction_stands :
    ∃ compiled, compile .standard none (some danglingCondition) [] = .ok compiled ∧
      compiled.text = "(e.status = ?1 AND )" ∧
      ∃ place ∈ danglingCondition.glued,
        place.glue =
          .conjunction (hasText statusField "OPEN") Group.andPhrase (.group (.empty false)) ∧
        ¬ place.glue.Stands .standard
          (Piece.writeAll .standard place.before (.positional [])).bindings := by
  refine ⟨⟨none, "(e.status = ?1 AND )", "", .positional [.string "OPEN"], []⟩, rfl, rfl,
    ⟨[.word .opening], .conjunction (hasText statusField "OPEN") Group.andPhrase
      (.group (.empty false)), [.word .closing]⟩, .tail _ (.head _), rfl, ?_⟩
  rintro ⟨-, hRight⟩
  exact absurd hRight (by decide +kernel)

end BoundQuery
