import BoundQuery.Proofs.Call
import BoundQuery.Proofs.Placeholder.Qualified
import BoundQuery.Proofs.Shape

/-!
# The text of a condition keeps its groups

A group that is not negated and has one part only is written as that part; the normal form of a
condition leaves such groups out. `Condition.placed_text` says that the text of a condition by
position is the text of the shape of its normal form, and `Condition.wellFormed_shape` that this
shape has atomic leaves if fields are paths and operators are free of brackets, placeholders and
conjunctions. So the shape can be read back from the text, and no two normal forms share a text
(`grouping_of_text`).
-/

namespace BoundQuery

open Placeholder (Quiet hasPositional hasPositional_of_quiet positionalText)

/-! ## Normal forms and their shapes -/

mutual

/-- A condition without groups that are not negated and have one part only. -/
def Condition.normal : Condition → Condition
  | .comparison comparison => .comparison comparison
  | .group group => group.normal
  | .sub snippet => .sub snippet
  | .native snippet => .native snippet

def Group.normal : Group → Condition
  | .empty negated => .group (.empty negated)
  | .joined negated first rest =>
      if !negated && rest.isEmpty then first.normal
      else .group (.joined negated first.normal (Group.restNormal rest))

def Group.restNormal : List (Phrase × Condition) → List (Phrase × Condition)
  | [] => []
  | (conjunction, child) :: rest => (conjunction, child.normal) :: Group.restNormal rest

end

/-- How many values a comparison without placeholders in its texts binds. -/
def Comparison.valueCount : Comparison → Nat
  | .scalar .. => 1
  | .bare .. | .isNull .. | .nested .. => 0

mutual

/-- How many values the comparisons of a condition bind. -/
def Condition.valueCount : Condition → Nat
  | .comparison comparison => comparison.valueCount
  | .group group => group.valueCount
  | .sub _ | .native _ => 0

def Group.valueCount : Group → Nat
  | .empty _ => 0
  | .joined _ first rest => first.valueCount + Group.restValueCount rest

def Group.restValueCount : List (Phrase × Condition) → Nat
  | [] => 0
  | (_, child) :: rest => child.valueCount + Group.restValueCount rest

end

/-- The text of a comparison after `size` values. -/
def Comparison.leafText (scope : Scope) (size : Nat) : Comparison → String
  | .bare field _ => scope.qualify field.text
  | .isNull field operator _ =>
      Comparison.nullText scope field.text (Comparison.operatorText operator)
  | .scalar field operator value _ =>
      (Comparison.placedScalar scope size field.text (Comparison.operatorText operator)
        value.value).1
  | .nested .. => ""

/-- The conjunction that a phrase is, if it is one. -/
def Joint.ofPhrase (phrase : Phrase) : Joint := if phrase.text = Joint.or.word then .or else .and

mutual

/-- The shape of a condition after `size` values. -/
def Condition.shape (scope : Scope) (size : Nat) : Condition → Shape
  | .comparison comparison => .leaf (comparison.leafText scope size)
  | .group group => group.shape scope size
  | .sub _ | .native _ => .leaf ""

def Group.shape (scope : Scope) (size : Nat) : Group → Shape
  | .empty _ => .leaf ""
  | .joined negated first rest =>
      .group negated (first.shape scope size)
        (Group.restShape scope (size + first.valueCount) rest)

def Group.restShape (scope : Scope) (size : Nat) :
    List (Phrase × Condition) → List (Joint × Shape)
  | [] => []
  | (conjunction, child) :: rest =>
      (Joint.ofPhrase conjunction, child.shape scope size) ::
        Group.restShape scope (size + child.valueCount) rest

end

/-! ## Legible conditions -/

/-- An operator that cannot be taken for brackets, a placeholder or a conjunction. -/
structure PlainOperator (operator : String) : Prop where
  noBracket : ∀ c ∈ operator.toList, c ≠ '(' ∧ c ≠ ')'
  noPlaceholder : hasPositional operator = false
  noJoint : ∀ joint : Joint, ¬ joint.text.toList <:+: (" " ++ operator ++ " ").toList

/-- A field that is a path of identifiers, separated by points. -/
def IsIdentifierPath (field : Field) : Prop :=
  ∀ c ∈ field.text.toList, Alias.isPart c = true ∨ c = '.'

instance (field : Field) : Decidable (IsIdentifierPath field) :=
  List.decidableBAll _ field.text.toList

/-- A phrase that is one of the two conjunctions. -/
def IsJoint (phrase : Phrase) : Prop := phrase.text = Joint.and.word ∨ phrase.text = Joint.or.word

/-- Comparisons of paths with values, with null or with nothing. -/
def Comparison.Legible : Comparison → Prop
  | .bare field _ => IsIdentifierPath field
  | .isNull field operator _ | .scalar field operator _ _ =>
      IsIdentifierPath field ∧ PlainOperator (Comparison.operatorText operator)
  | .nested .. => False

mutual

/-- Legible comparisons and their groups, of which none is empty. -/
def Condition.Legible : Condition → Prop
  | .comparison comparison => comparison.Legible
  | .group group => group.Legible
  | .sub _ | .native _ => False

def Group.Legible : Group → Prop
  | .empty _ => False
  | .joined _ first rest => first.Legible ∧ Group.RestLegible rest

def Group.RestLegible : List (Phrase × Condition) → Prop
  | [] => True
  | (conjunction, child) :: rest =>
      IsJoint conjunction ∧ child.Legible ∧ Group.RestLegible rest

end

/-! ## Texts without blanks and brackets -/

/-- Characters that are no blanks and no brackets. -/
def Solid (cs : List Char) : Prop := ∀ c ∈ cs, c ≠ ' ' ∧ c ≠ '(' ∧ c ≠ ')'

instance (cs : List Char) : Decidable (Solid cs) := List.decidableBAll _ cs

theorem Solid.append {front back : List Char} (hFront : Solid front) (hBack : Solid back) :
    Solid (front ++ back) := by
  intro c hc
  exact (List.mem_append.mp hc).elim (hFront c) (hBack c)

theorem Alias.solid_of_isPart {c : Char} (h : isPart c = true) :
    c ≠ ' ' ∧ c ≠ '(' ∧ c ≠ ')' := by
  refine ⟨?_, ?_, ?_⟩ <;> rintro rfl
  · exact absurd h (by decide +kernel)
  · exact absurd h (by decide +kernel)
  · exact absurd h (by decide +kernel)

theorem Alias.solid (name : Alias) : Solid name.text.toList := by
  have hIdentifier := name.identifier
  intro c hc
  cases hText : name.text.toList with
  | nil =>
      rw [hText] at hc
      exact absurd hc List.not_mem_nil
  | cons first rest =>
      rw [hText, isIdentifier, Bool.and_eq_true] at hIdentifier
      rw [hText] at hc
      exact solid_of_isPart (List.all_eq_true.mp hIdentifier.2 c hc)

section Paths

variable {field : Field}

theorem IsIdentifierPath.quiet (h : IsIdentifierPath field) : Quiet field.text.toList := by
  intro c hc
  rcases h c hc with hPart | rfl
  · exact Alias.quiet_of_isPart hPart
  · decide

theorem IsIdentifierPath.solid (h : IsIdentifierPath field) : Solid field.text.toList := by
  intro c hc
  rcases h c hc with hPart | rfl
  · exact Alias.solid_of_isPart hPart
  · decide

theorem IsIdentifierPath.solid_qualify (h : IsIdentifierPath field) (scope : Scope) :
    Solid (scope.qualify field.text).toList := by
  rw [Scope.qualify]
  split
  · exact h.solid
  · rw [String.toList_append, String.toList_append]
    have hPoint : Solid ".".toList := by decide
    exact (scope.entityAlias.solid.append hPoint).append h.solid

theorem Scope.qualify_ne_nil (scope : Scope) (field : Field) :
    (scope.qualify field.text).toList ≠ [] := by
  have hField : field.text.toList ≠ [] := by simpa using field.nonempty
  obtain ⟨front, -, hEq⟩ := scope.qualify_eq field.text
  rw [hEq, String.toList_append]
  exact List.append_ne_nil_of_right_ne_nil _ hField

end Paths

theorem solid_positionalText (n : Nat) : Solid (positionalText n).toList := by
  rw [Placeholder.toList_positionalText]
  intro c hc
  rcases List.mem_cons.mp hc with rfl | hDigit
  · decide
  · have hIsDigit := List.all_eq_true.mp (Text.all_isDigit_toDigits n) c hDigit
    refine ⟨?_, ?_, ?_⟩ <;> rintro rfl <;> exact absurd hIsDigit (by decide)

/-! ## Leaves are atomic -/

/-- A text that starts with a blank does not start inside a solid one. -/
theorem Solid.infix_of_append {front back rest : List Char} (hFront : Solid front)
    (h : ' ' :: rest <:+: front ++ back) : ' ' :: rest <:+: back := by
  induction front with
  | nil => exact h
  | cons c front ih =>
      have hTail : Solid front := fun d hd => hFront d (List.mem_cons_of_mem c hd)
      rw [List.cons_append, List.infix_cons_iff] at h
      rcases h with hPrefix | hInfix
      · have hBlank : ' ' = c := (List.cons_prefix_cons.mp hPrefix).1
        exact absurd hBlank.symm (hFront c List.mem_cons_self).1
      · exact ih hTail hInfix

theorem Shape.atomic_of_solid {text : String} (h : Solid text.toList) (hText : text.toList ≠ []) :
    Shape.Atomic text := by
  refine ⟨[], text.toList, rfl, ?_⟩
  exact {
    ends := .inl rfl
    nonempty := hText
    wordBlank := fun c hc => (h c hc).1
    wordStart := fun hNil => absurd rfl hNil
    noBracket := fun c hc => (h c hc).2
    noJoint := fun joint hInfix => by
      have hNil := List.eq_nil_of_infix_nil hInfix
      cases joint <;> exact absurd hNil (by decide) }

theorem PlainOperator.atomic {operator column last : String} (h : PlainOperator operator)
    (hColumn : Solid column.toList) (hLast : Solid last.toList) (hNonempty : last.toList ≠ [])
    (hStart : last.toList.head? ≠ some 'A' ∧ last.toList.head? ≠ some 'O') :
    Shape.Atomic (column ++ " " ++ operator ++ " " ++ last) := by
  have hFront : (column ++ " " ++ operator ++ " ").toList =
      column.toList ++ (" " ++ operator ++ " ").toList := by simp
  have hOperator : ∀ c ∈ (" " ++ operator ++ " ").toList, c ≠ '(' ∧ c ≠ ')' := by
    intro c hc
    have hCases : c = ' ' ∨ c ∈ operator.toList := by
      simpa [or_comm, or_assoc] using hc
    rcases hCases with rfl | hMem
    · decide
    · exact h.noBracket c hMem
  refine ⟨(column ++ " " ++ operator ++ " ").toList, last.toList, String.toList_append, ?_⟩
  exact {
    ends := .inr ⟨(column ++ " " ++ operator).toList, String.toList_append⟩
    nonempty := hNonempty
    wordBlank := fun c hc => (hLast c hc).1
    wordStart := fun _ => hStart
    noBracket := by
      intro c hc
      rw [hFront] at hc
      rcases List.mem_append.mp hc with hBefore | hInLast
      · exact (List.mem_append.mp hBefore).elim (fun hMem => (hColumn c hMem).2) (hOperator c)
      · exact (hLast c hInLast).2
    noJoint := by
      intro joint hInfix
      obtain ⟨first, rest, hText, -, -⟩ := joint.exists_word
      rw [hFront, hText, List.cons_append] at hInfix
      have hInOperator := hColumn.infix_of_append hInfix
      rw [← List.cons_append, ← hText] at hInOperator
      exact h.noJoint joint hInOperator }

theorem plainOperator_is : PlainOperator "IS" where
  noBracket := by simp
  noPlaceholder := by decide +kernel
  noJoint := by
    intro joint
    cases joint <;> decide

theorem plainOperator_isNot : PlainOperator "IS NOT" where
  noBracket := by simp
  noPlaceholder := by decide +kernel
  noJoint := by
    intro joint
    cases joint <;> decide

/-- A comparison with null is a column, an operator and a word. -/
theorem Comparison.exists_nullText {operator : String} (h : PlainOperator operator) (scope : Scope)
    (field : String) : ∃ sign, PlainOperator sign ∧
      nullText scope field operator = scope.qualify field ++ " " ++ sign ++ " " ++ "NULL" := by
  rw [nullText]
  split
  · exact ⟨"IS", plainOperator_is, by simp only [String.append_assoc]; rfl⟩
  split
  · exact ⟨"IS NOT", plainOperator_isNot, by simp only [String.append_assoc]; rfl⟩
  · exact ⟨operator, h, by simp only [String.append_assoc]; rfl⟩

theorem Comparison.atomic_leafText {comparison : Comparison} (h : comparison.Legible)
    (scope : Scope) (size : Nat) : Shape.Atomic (comparison.leafText scope size) := by
  cases comparison with
  | bare field mark =>
      have hPath : IsIdentifierPath field := h
      exact Shape.atomic_of_solid (hPath.solid_qualify scope) (scope.qualify_ne_nil field)
  | isNull field operator name =>
      obtain ⟨sign, hSign, hText⟩ := exists_nullText h.2 scope field.text
      rw [leafText, hText]
      exact hSign.atomic (h.1.solid_qualify scope) (by decide) (by decide) (by decide)
  | scalar field operator value name =>
      have hNumber := Placeholder.toList_positionalText (size + 1)
      refine h.2.atomic (h.1.solid_qualify scope) (solid_positionalText (size + 1)) ?_ ?_
      · rw [hNumber]
        exact List.cons_ne_nil _ _
      · rw [hNumber]
        exact ⟨by simp, by simp⟩
  | nested field operator clause name => exact h.elim

mutual

/-- The shape of the normal form of a legible condition has atomic leaves. -/
theorem Condition.wellFormed_shape (scope : Scope) :
    ∀ {condition : Condition}, condition.Legible → ∀ size : Nat,
      (condition.normal.shape scope size).WellFormed
  | .comparison _, h, size => Comparison.atomic_leafText h scope size
  | .group _, h, size => Group.wellFormed_shape scope h size
  | .sub _, h, _ => h.elim
  | .native _, h, _ => h.elim

theorem Group.wellFormed_shape (scope : Scope) :
    ∀ {group : Group}, group.Legible → ∀ size : Nat,
      (group.normal.shape scope size).WellFormed
  | .empty _, h, _ => h.elim
  | .joined negated first rest, h, size => by
      rw [Group.normal]
      split
      · exact Condition.wellFormed_shape scope h.1 size
      · exact ⟨Condition.wellFormed_shape scope h.1 size,
          Group.wellFormed_restShape scope h.2 (size + first.normal.valueCount)⟩

theorem Group.wellFormed_restShape (scope : Scope) :
    ∀ {rest : List (Phrase × Condition)}, Group.RestLegible rest → ∀ size : Nat,
      Shape.RestWellFormed (Group.restShape scope size (Group.restNormal rest))
  | [], _, _ => trivial
  | (_, child) :: _, h, size =>
      ⟨Condition.wellFormed_shape scope h.2.1 size,
        Group.wellFormed_restShape scope h.2.2 (size + child.normal.valueCount)⟩

end

/-! ## The text is that of the shape -/

theorem Piece.placedAll_append {scope : Scope} {size : Nat} {front back : List Piece}
    {text more : String} {first second : List Value}
    (hFront : Piece.placedAll scope size front = .ok (text, first))
    (hBack : Piece.placedAll scope (size + first.length) back = .ok (more, second)) :
    Piece.placedAll scope size (front ++ back) = .ok (text ++ more, first ++ second) := by
  induction front generalizing size text first with
  | nil =>
      obtain ⟨rfl, rfl⟩ := Prod.mk.inj (Except.ok.inj hFront)
      simpa using hBack
  | cons piece rest ih =>
      obtain ⟨head, values, tail, later, hPiece, hRest, rfl, rfl⟩ :=
        Piece.placedAll_cons_eq_ok.mp hFront
      rw [List.length_append, ← Nat.add_assoc] at hBack
      have hJoined := ih hRest hBack
      rw [List.cons_append]
      exact Piece.placedAll_cons_eq_ok.mpr ⟨head, values, tail ++ more, later ++ second, hPiece,
        hJoined, String.append_assoc, List.append_assoc ..⟩

theorem Piece.placedAll_word {scope : Scope} {size : Nat} {token : Word} {rest : List Piece}
    {text : String} {values : List Value}
    (h : Piece.placedAll scope size rest = .ok (text, values)) :
    Piece.placedAll scope size (.word token :: rest) = .ok (token.text ++ text, values) :=
  Piece.placedAll_cons_eq_ok.mpr ⟨token.text, [], text, values, rfl, h, rfl, rfl⟩

theorem Piece.placedAll_phrase {scope : Scope} {size : Nat} {phrase : String} {rest : List Piece}
    {text : String} {values : List Value}
    (h : Piece.placedAll scope size rest = .ok (text, values)) :
    Piece.placedAll scope size (.phrase phrase :: rest) = .ok (phrase ++ text, values) :=
  Piece.placedAll_cons_eq_ok.mpr ⟨phrase, [], text, values, rfl, h, rfl, rfl⟩

theorem Piece.placedAll_singleton {scope : Scope} {size : Nat} {piece : Piece} {text : String}
    {values : List Value} (h : piece.placed scope size = .ok (text, values)) :
    Piece.placedAll scope size [piece] = .ok (text, values) :=
  Piece.placedAll_cons_eq_ok.mpr
    ⟨text, values, "", [], h, rfl, String.append_empty.symm, (List.append_nil values).symm⟩

theorem Group.wrapPieces_single (inside : List Piece) :
    Group.wrapPieces false (!([] : List (Phrase × Condition)).isEmpty) inside = inside := rfl

/-- A group of several parts, or a negated one, is written between brackets. -/
theorem Group.placedAll_wrapPieces {scope : Scope} {size : Nat} {negated several : Bool}
    {inside : List Piece} {text : String} {values : List Value}
    (hWrapped : (!negated && !several) = false)
    (h : Piece.placedAll scope size inside = .ok (text, values)) :
    Piece.placedAll scope size (Group.wrapPieces negated several inside) =
      .ok (Shape.opening negated ++ text ++ ")", values) := by
  have hClosed : ∀ size, Piece.placedAll scope size [.word .closing] = .ok (")", []) :=
    fun _ => rfl
  have hInside : Piece.placedAll scope size (inside ++ [.word .closing]) =
      .ok (text ++ ")", values) := by
    have hBoth := Piece.placedAll_append h (hClosed _)
    rwa [List.append_nil] at hBoth
  have hOpened : ∀ token : Word, Piece.placedAll scope size (.word token :: inside ++
      [.word .closing]) = .ok (token.text ++ text ++ ")", values) := by
    intro token
    rw [List.cons_append, String.append_assoc]
    exact Piece.placedAll_word hInside
  cases negated with
  | true => exact hOpened .negatedOpening
  | false =>
      cases several with
      | true => exact hOpened .opening
      | false => exact absurd hWrapped (by decide)

theorem Comparison.placed_leafText {comparison : Comparison} (h : comparison.Legible)
    (scope : Scope) (size : Nat) :
    ∃ values, values.length = comparison.valueCount ∧
      Piece.placedAll scope size comparison.pieces =
        .ok (comparison.leafText scope size, values) := by
  cases comparison with
  | bare field mark => exact ⟨[], rfl, Piece.placedAll_singleton rfl⟩
  | isNull field operator name =>
      have hField := hasPositional_of_quiet h.1.quiet
      have hOperator := h.2.noPlaceholder
      refine ⟨[], rfl, Piece.placedAll_singleton ?_⟩
      simp only [Piece.placed, Comparison.placed, hField, hOperator, Bool.false_eq_true, if_false]
      rfl
  | scalar field operator value name =>
      have hField := hasPositional_of_quiet h.1.quiet
      have hOperator := h.2.noPlaceholder
      refine ⟨[value.value], rfl, Piece.placedAll_singleton ?_⟩
      simp only [Piece.placed, Comparison.placed, hField, hOperator, Bool.false_eq_true, if_false]
      rfl
  | nested field operator clause name => exact h.elim

theorem IsJoint.text_eq {phrase : Phrase} (h : IsJoint phrase) :
    " " ++ phrase.text ++ " " = (Joint.ofPhrase phrase).text := by
  rcases h with hAnd | hOr
  · have hOf : Joint.ofPhrase phrase = .and := by
      rw [Joint.ofPhrase, hAnd]
      decide
    rw [hOf, hAnd]
    rfl
  · have hOf : Joint.ofPhrase phrase = .or := by
      rw [Joint.ofPhrase, hOr]
      decide
    rw [hOf, hOr]
    rfl

mutual

theorem Condition.valueCount_normal :
    ∀ condition : Condition, condition.normal.valueCount = condition.valueCount
  | .comparison _ => rfl
  | .group group => group.valueCount_normal
  | .sub _ => rfl
  | .native _ => rfl

theorem Group.valueCount_normal :
    ∀ group : Group, group.normal.valueCount = group.valueCount
  | .empty _ => rfl
  | .joined negated first rest => by
      have hFirst := first.valueCount_normal
      have hRest := Group.valueCount_restNormal rest
      rw [Group.normal, Group.valueCount]
      split
      · next hSingle =>
          simp only [Bool.and_eq_true, List.isEmpty_iff] at hSingle
          rw [hFirst, hSingle.2]
          rfl
      · simp only [Condition.valueCount, Group.valueCount, hFirst, hRest]

theorem Group.valueCount_restNormal :
    ∀ rest : List (Phrase × Condition),
      Group.restValueCount (Group.restNormal rest) = Group.restValueCount rest
  | [] => rfl
  | (conjunction, child) :: rest => by
      have hChild := child.valueCount_normal
      have hRest := Group.valueCount_restNormal rest
      simp only [Group.restNormal, Group.restValueCount, hChild, hRest]

end

mutual

/-- By position, a legible condition goes through, and its text is that of the shape of its normal
form. -/
theorem Condition.placed_text (scope : Scope) :
    ∀ {condition : Condition}, condition.Legible → ∀ size : Nat,
      ∃ values, values.length = condition.valueCount ∧
        Piece.placedAll scope size condition.pieces =
          .ok ((condition.normal.shape scope size).text, values)
  | .comparison _, h, size => Comparison.placed_leafText h scope size
  | .group _, h, size => Group.placed_text scope h size
  | .sub _, h, _ => h.elim
  | .native _, h, _ => h.elim

theorem Group.placed_text (scope : Scope) :
    ∀ {group : Group}, group.Legible → ∀ size : Nat,
      ∃ values, values.length = group.valueCount ∧
        Piece.placedAll scope size group.pieces =
          .ok ((group.normal.shape scope size).text, values)
  | .empty _, h, _ => h.elim
  | .joined negated first rest, h, size => by
      obtain ⟨values, hLength, hFirst⟩ := Condition.placed_text scope h.1 size
      obtain ⟨later, hLater, hRest⟩ := Group.placed_restText scope h.2 (size + first.valueCount)
      rw [← hLength] at hRest
      have hInside := Piece.placedAll_append hFirst hRest
      have hCount : (values ++ later).length = (Group.joined negated first rest).valueCount := by
        rw [List.length_append, hLength, hLater, Group.valueCount]
      refine ⟨values ++ later, hCount, ?_⟩
      rw [Group.pieces, Group.normal]
      split
      · next hSingle =>
          -- One part that is not negated is written without brackets.
          simp only [Bool.and_eq_true, Bool.not_eq_true', List.isEmpty_iff] at hSingle
          obtain ⟨rfl, rfl⟩ := hSingle
          rw [Group.wrapPieces_single, hInside, Group.restNormal, Group.restShape, Shape.restText,
            String.append_empty]
      · next hSeveral =>
          have hWritten : (!negated && !!rest.isEmpty) = false := by
            rw [Bool.not_not]
            exact Bool.eq_false_iff.mpr hSeveral
          rw [Group.placedAll_wrapPieces hWritten hInside, Condition.shape, Group.shape,
            Shape.text, hLength, Condition.valueCount_normal]
          simp only [String.append_assoc]

theorem Group.placed_restText (scope : Scope) :
    ∀ {rest : List (Phrase × Condition)}, Group.RestLegible rest → ∀ size : Nat,
      ∃ values, values.length = Group.restValueCount rest ∧
        Piece.placedAll scope size (Group.restPieces rest) =
          .ok (Shape.restText (Group.restShape scope size (Group.restNormal rest)), values)
  | [], _, _ => ⟨[], rfl, rfl⟩
  | (conjunction, child) :: rest, h, size => by
      obtain ⟨hJoint, hChild, hRest⟩ := h
      obtain ⟨values, hLength, hFirst⟩ := Condition.placed_text scope hChild size
      obtain ⟨later, hLater, hBehind⟩ := Group.placed_restText scope hRest (size + child.valueCount)
      rw [← hLength] at hBehind
      have hInside := Piece.placedAll_append hFirst hBehind
      refine ⟨values ++ later, ?_, ?_⟩
      · rw [List.length_append, hLength, hLater, Group.restValueCount]
      have hBlank := @Piece.placedAll_word scope size .space _ _ _ hInside
      have hPhrase := @Piece.placedAll_phrase scope size conjunction.text _ _ _ hBlank
      have hPlaced := @Piece.placedAll_word scope size .space _ _ _ hPhrase
      rw [Group.restPieces, hPlaced, Group.restNormal, Group.restShape, Shape.restText,
        ← hJoint.text_eq, hLength, Condition.valueCount_normal]
      simp only [Word.text, String.append_assoc]

end

/-! ## Calls -/

/-- A text that shows the groups of a shape: they can be read off it, its conjunctions stand in it
one for one, and more brackets are open in front of a conjunction the further inside it is. -/
structure Shape.ShownBy (shape : Shape) (text : String) : Prop where
  reads : Shape.read text = some shape
  stands : ∀ occurrence ∈ shape.joints,
    ∃ after, text = occurrence.before ++ occurrence.joint.text ++ after
  nests : ∀ outer ∈ shape.joints, ∀ inner ∈ shape.joints,
    outer.address <+: inner.address → outer.address ≠ inner.address →
      Shape.depth outer.before < Shape.depth inner.before

theorem Shape.WellFormed.shownBy_text {shape : Shape} (h : shape.WellFormed) :
    shape.ShownBy shape.text where
  reads := Shape.read_text h
  stands := Shape.text_of_mem_joints shape
  nests := by
    intro outer hOuter inner hInner hPrefix hDifferent
    have hLength : outer.address.length < inner.address.length := by
      rcases Nat.lt_or_ge outer.address.length inner.address.length with hLess | hGreater
      · exact hLess
      · exact absurd (hPrefix.eq_of_length_le hGreater) hDifferent
    rw [Shape.depth_before h hOuter, Shape.depth_before h hInner]
    omega

/-- How many values a call binds by position before its condition. -/
def boundBefore (assignments : Option (List Assignment)) (arguments : List Argument) : Nat :=
  (seeds arguments).length + (assignments.getD []).length

theorem Piece.length_placedAll_assigned {scope : Scope} {size : Nat} {list : List Assignment}
    {later : Bool} {text : String} {values : List Value}
    (h : placedAll scope size (list.map (.assigned later)) = .ok (text, values)) :
    values.length = list.length := by
  induction list generalizing size text values with
  | nil =>
      obtain ⟨-, rfl⟩ := Prod.mk.inj (Except.ok.inj h)
      rfl
  | cons assignment rest ih =>
      rw [List.map_cons] at h
      obtain ⟨front, first, back, more, hPiece, hRest, -, rfl⟩ := placedAll_cons_eq_ok.mp h
      obtain ⟨-, rfl⟩ := Prod.mk.inj (Except.ok.inj hPiece)
      have hMore := ih hRest
      rw [List.length_append, hMore, List.length_singleton, List.length_cons]
      omega

/-- Every assignment by position binds a value. -/
theorem Piece.length_placedAll_setPieces {scope : Scope} {size : Nat}
    {assignments : Option (List Assignment)} {text : String} {values : List Value}
    (h : placedAll scope size (setPieces assignments) = .ok (text, values)) :
    values.length = (assignments.getD []).length := by
  cases assignments with
  | none =>
      obtain ⟨-, rfl⟩ := Prod.mk.inj (Except.ok.inj h)
      rfl
  | some list =>
      cases list with
      | nil => exact absurd h (by simp [setPieces, Assignment.pieces, placedAll, placed])
      | cons assignment rest =>
          obtain ⟨front, first, back, more, hPiece, hRest, -, rfl⟩ := placedAll_cons_eq_ok.mp h
          obtain ⟨-, rfl⟩ := Prod.mk.inj (Except.ok.inj hPiece)
          have hMore := length_placedAll_assigned hRest
          rw [List.length_append, hMore, List.length_singleton, Option.getD_some, List.length_cons]
          omega

section Calls

variable {scope : Scope} {assignments : Option (List Assignment)} {condition : Condition}
  {arguments : List Argument} {compiled : Compiled} {values : List Value}

/-- A legible condition that is compiled by position is written as the shape of its normal form. -/
theorem text_of_legible (h : condition.Legible)
    (hOk : compile scope assignments (some condition) arguments = .ok compiled)
    (hPositional : compiled.parameters = .positional values) :
    compiled.text =
      (condition.normal.shape scope (boundBefore assignments arguments)).text := by
  have hStyle : callStyle (some condition) arguments = .positional := by
    rw [← style_of_compile hOk, hPositional]
    rfl
  obtain ⟨call⟩ := placedCall_of_compile hStyle hOk
  have hFirst := Piece.length_placedAll_setPieces call.hSet
  obtain ⟨bound, -, hText⟩ := Condition.placed_text scope h (boundBefore assignments arguments)
  have hCall := call.hText
  rw [List.length_append, hFirst] at hCall
  have hBoth := Except.ok.inj (hCall.symm.trans hText)
  exact congrArg Prod.fst hBoth

/-- A legible condition that binds nothing by name can be compiled by position. -/
theorem compile_of_legible (h : condition.Legible) (hUnnamed : condition.bindsByName = false)
    (scope : Scope) :
    ∃ compiled values, compile scope none (some condition) [] = .ok compiled ∧
      compiled.parameters = .positional values := by
  have hPieces : condition.pieces.any Piece.bindsByName = false := by
    rw [← condition.bindsByName_eq]
    exact hUnnamed
  have hNaming : bindsByName (some condition) [] = false := by
    rw [bindsByName, conditionPieces, Option.map_some, Option.getD_some, hPieces]
    rfl
  have hStyle : callStyle (some condition) [] = .positional := by
    rw [callStyle, hNaming]
    rfl
  obtain ⟨bound, -, hText⟩ := Condition.placed_text scope h 0
  refine ⟨⟨none, (condition.normal.shape scope 0).text, "", .positional bound, []⟩, bound, ?_, rfl⟩
  have hCondition : Piece.placedAll scope 0 (conditionPieces (some condition)) =
      .ok ((condition.normal.shape scope 0).text, bound) := hText
  have hSet : Piece.placedAll scope 0 (setPieces none) = .ok ("", []) := rfl
  have hTail : ∀ size, Piece.placedAll scope size (clausePieces []) = .ok ("", []) := fun _ => rfl
  have hPlace : Trailing.latePlace? [] = none := rfl
  rw [compile_eq_placed hStyle, hPlace]
  simp [bind, Except.bind, seeds, hSet, hCondition, hTail, pure, Except.pure]

/-- The text of a legible condition keeps its groups. By position, it shows the shape of the normal
form of the condition; so conditions with the same text have normal forms of the same shape. A
condition without names can be compiled so. -/
theorem grouping_of_text (h : condition.Legible) :
    (∀ scope assignments arguments compiled values,
      compile scope assignments (some condition) arguments = .ok compiled →
      compiled.parameters = .positional values →
        (condition.normal.shape scope (boundBefore assignments arguments)).ShownBy compiled.text ∧
        ∀ (other : Condition) otherScope otherAssignments otherArguments otherCompiled otherValues,
          other.Legible →
          compile otherScope otherAssignments (some other) otherArguments = .ok otherCompiled →
          otherCompiled.parameters = .positional otherValues →
          otherCompiled.text = compiled.text →
            other.normal.shape otherScope (boundBefore otherAssignments otherArguments) =
              condition.normal.shape scope (boundBefore assignments arguments)) ∧
    (condition.bindsByName = false → ∀ scope, ∃ compiled values,
      compile scope none (some condition) [] = .ok compiled ∧
        compiled.parameters = .positional values) := by
  refine ⟨?_, fun hUnnamed scope => compile_of_legible h hUnnamed scope⟩
  intro scope assignments arguments compiled values hOk hPositional
  have hShape := Condition.wellFormed_shape scope h (boundBefore assignments arguments)
  have hText := text_of_legible h hOk hPositional
  refine ⟨hText ▸ hShape.shownBy_text, ?_⟩
  intro other otherScope otherAssignments otherArguments otherCompiled otherValues hOther hOtherOk
    hOtherPositional hSame
  have hOtherShape := Condition.wellFormed_shape otherScope hOther
    (boundBefore otherAssignments otherArguments)
  have hOtherText := text_of_legible hOther hOtherOk hOtherPositional
  have hRead := Shape.read_text hShape
  have hOtherRead := Shape.read_text hOtherShape
  rw [← hOtherText, hSame, hText, hRead] at hOtherRead
  exact (Option.some.inj hOtherRead).symm

end Calls

/-- The path `author`. -/
def authorField : Field := ⟨"author", by decide +kernel, by decide⟩

/-- The path `active`. -/
def activeField : Field := ⟨"active", by decide +kernel, by decide⟩

/-- A condition on the author, together with a group of one part: neither without an author nor
active. -/
def authoredCondition : Condition :=
  .group (.joined false (.comparison (.scalar authorField none ⟨.string "x", rfl⟩ none))
    [(Group.andPhrase, .group (.joined false
      (.group (.joined true (.comparison (.isNull authorField none none))
        [(Group.orPhrase, .comparison (.bare activeField .skip))])) []))])

/-- The group of one part is written without brackets of its own, and the others can be read off the
text. -/
theorem grouping_of_authoredCondition :
    ∃ compiled, compile .standard none (some authoredCondition) [] = .ok compiled ∧
      compiled.text = "(e.author = ?1 AND NOT (e.author IS NULL OR e.active))" ∧
      (authoredCondition.normal.shape .standard 0).ShownBy compiled.text := by
  have hAuthor : IsIdentifierPath authorField := by decide +kernel
  have hActive : IsIdentifierPath activeField := by decide +kernel
  have hEquals : PlainOperator "=" :=
    ⟨by simp, by decide +kernel, fun joint => by cases joint <;> decide⟩
  have hLegible : authoredCondition.Legible :=
    ⟨⟨hAuthor, hEquals⟩, .inl rfl,
      ⟨⟨⟨hAuthor, hEquals⟩, .inr rfl, hActive, trivial⟩, trivial⟩, trivial⟩
  have hOk : compile .standard none (some authoredCondition) [] =
      .ok ⟨none, "(e.author = ?1 AND NOT (e.author IS NULL OR e.active))", "",
        .positional [.string "x"], []⟩ := rfl
  have hShown := (grouping_of_text hLegible).1 .standard none [] _ _ hOk rfl
  exact ⟨_, hOk, rfl, hShown.1⟩

end BoundQuery
