import BoundQuery.Proofs.Draft.Pushing
import BoundQuery.Proofs.Draft.Run

/-!
# Runs by position

By position, what a piece writes depends on the values bound before only through their number, and
it never takes one of them away. `Piece.placed` gives the text of a piece and the values that it
adds from that number alone, `Piece.placedAll` those of a list, and `Piece.run_positional` says that
a run from positional bindings is exactly this. Statements about numbers in a text then need no
bindings at all. A snippet binds its values while it is rewritten, and `writeSub_positional` and
`writeHaving_positional` say that this comes to the same: it is refused before the first value.
-/

namespace BoundQuery

/-! ## What a piece writes and adds -/

/-- Renumbers the placeholder in the text of a field or of an operator for the value after `size`
others; `plain` is for a comparison without one. -/
def Comparison.placed (scope : Scope) (size : Nat) (field operator : String) (value : Value)
    (plain : String × List Value) : String × List Value :=
  if Placeholder.hasPositional field then
    (Placeholder.renumber (scope.qualify field) (size + 1), [value])
  else if Placeholder.hasPositional operator then
    (scope.qualify field ++ " " ++ Placeholder.renumber operator (size + 1), [value])
  else plain

/-- A comparison of a value that has no placeholder in its own text. -/
def Comparison.placedScalar (scope : Scope) (size : Nat) (field operator : String)
    (value : Value) : String × List Value :=
  (scope.qualify field ++ " " ++ operator ++ " " ++ Placeholder.positionalText (size + 1), [value])

/-- Numbers all placeholders of a sub-expression upwards. -/
def Snippet.placedSub (size : Nat) (text : String) (arguments : List Argument) :
    Except Fault (String × List Value) :=
  match Argument.plainValues "sub-expression" text arguments with
  | .error fault => .error fault
  | .ok values =>
      if Placeholder.positionalCount text = values.length then
        .ok (Placeholder.numberFrom text (size + 1), values)
      else .error (.miscount text (Placeholder.positionalCount text) values.length)

/-- Numbers the placeholders of a HAVING text that carry none, the others being checked. -/
def Snippet.placedHaving (size : Nat) (text : String) (arguments : List Argument) :
    Except Fault (String × List Value) :=
  match Argument.plainValues "having clause" text arguments with
  | .error fault => .error fault
  | .ok values =>
      match Snippet.checkNumbers text (size + 1) (placeholders text) with
      | .error fault => .error fault
      | .ok (fresh, last) =>
          if last - (size + 1) = values.length then
            .ok (Placeholder.fillNumbers text fresh, values)
          else .error (.miscount text (last - (size + 1)) values.length)

/-- What a piece writes after `size` values, and the values that it adds to them. -/
def Piece.placed (scope : Scope) (size : Nat) : Piece → Except Fault (String × List Value)
  | .word token => .ok (token.text, [])
  | .field column => .ok (scope.qualify column.text, [])
  | .phrase text => .ok (text, [])
  | .null column operator _ =>
      let sign := Comparison.operatorText operator
      .ok (Comparison.placed scope size column.text sign .null
        (Comparison.nullText scope column.text sign, []))
  | .scalar column operator present _ =>
      let sign := Comparison.operatorText operator
      .ok (Comparison.placed scope size column.text sign present.value
        (Comparison.placedScalar scope size column.text sign present.value))
  | .sub text arguments =>
      if arguments.isEmpty then .ok (text, []) else Snippet.placedSub size text arguments
  | .having text arguments =>
      if arguments.isEmpty then .ok (text, []) else Snippet.placedHaving size text arguments
  | .literal text => .ok (Snippet.literalText text, [])
  | .value plain =>
      if plain.isNull then .ok (", NULL", [])
      else .ok (", " ++ Placeholder.positionalText (size + 1), [plain])
  | .mapping _ => .error .positionalMapping
  | .assigned later assignment =>
      .ok ((if later then ", " else "") ++ scope.qualify assignment.field.text ++ " = " ++
        Placeholder.positionalText (size + 1), [assignment.value])
  | .stop fault => .error fault

/-- What pieces write one after the other, and the values that they add. -/
def Piece.placedAll (scope : Scope) (size : Nat) : List Piece → Except Fault (String × List Value)
  | [] => .ok ("", [])
  | piece :: rest =>
      match piece.placed scope size with
      | .error fault => .error fault
      | .ok (front, first) =>
          match placedAll scope (size + first.length) rest with
          | .error fault => .error fault
          | .ok (back, more) => .ok (front ++ back, first ++ more)

theorem Piece.placedAll_cons_eq_ok {scope : Scope} {size : Nat} {piece : Piece}
    {rest : List Piece} {text : String} {values : List Value} :
    placedAll scope size (piece :: rest) = .ok (text, values) ↔
      ∃ front first back more, piece.placed scope size = .ok (front, first) ∧
        placedAll scope (size + first.length) rest = .ok (back, more) ∧
        text = front ++ back ∧ values = first ++ more := by
  rw [placedAll]
  constructor
  · intro hBoth
    split at hBoth
    · exact absurd hBoth (by simp)
    · next front first hFront =>
        split at hBoth
        · exact absurd hBoth (by simp)
        · next back more hBack =>
            obtain ⟨rfl, rfl⟩ := Prod.mk.inj (Except.ok.inj hBoth)
            exact ⟨front, first, back, more, hFront, hBack, rfl, rfl⟩
  · rintro ⟨front, first, back, more, hFront, hBack, rfl, rfl⟩
    simp only [hFront, hBack]

/-- The positional bindings after some more values. -/
def Bindings.extended (values : List Value) (placed : String × List Value) : String × Bindings :=
  (placed.1, .positional (values ++ placed.2))

/-! ## Writing is placing -/

/-- The draft of what is placed after some values; a refusal leaves the values as they are. -/
def Draft.ofPlaced (values : List Value) : Except Fault (String × List Value) → Draft
  | .ok (text, more) => ⟨text, .positional (values ++ more), none⟩
  | .error fault => ⟨"", .positional values, some fault⟩

theorem Step.finish_of_placed {step : Step} {values : List Value}
    {placed : Except Fault (String × List Value)}
    (h : step (.positional values) = Draft.ofPlaced values placed) :
    step.finish (.positional values) = placed.map (Bindings.extended values) := by
  rw [Step.finish, h]
  cases placed <;> rfl

namespace Snippet

theorem writeSub_positional (text : String) (argument : Argument) (rest : List Argument)
    (values : List Value) :
    writeSub text (argument :: rest) (.positional values) =
      Draft.ofPlaced values (placedSub values.length text (argument :: rest)) := by
  show Step.ofPushing (writeSubPositional text (argument :: rest)) values = _
  rw [Step.ofPushing, writeSubPositional, Pushing.run_ofExcept_bind, placedSub]
  cases Argument.plainValues "sub-expression" text (argument :: rest) with
  | error fault => rfl
  | ok plain =>
      simp only
      by_cases hCount : Placeholder.positionalCount text = plain.length
      · rw [if_pos hCount, if_pos hCount, run_substitute_pushNext hCount]
        rfl
      · rw [if_neg hCount, if_neg hCount]
        rfl

theorem writeHaving_positional (text : String) (argument : Argument) (rest : List Argument)
    (values : List Value) :
    writeHaving text (argument :: rest) (.positional values) =
      Draft.ofPlaced values (placedHaving values.length text (argument :: rest)) := by
  show Step.ofPushing (writeHavingPositional text (argument :: rest)) values = _
  rw [Step.ofPushing, writeHavingPositional, Pushing.run_ofExcept_bind, placedHaving]
  cases Argument.plainValues "having clause" text (argument :: rest) with
  | error fault => rfl
  | ok plain =>
      have hSize : (get : Pushing (List Value)).run.run values = (.ok values, values) := rfl
      simp only [Placeholder.run_bind_of_ok hSize, Pushing.run_ofExcept_bind]
      cases checkNumbers text (values.length + 1) (placeholders text) with
      | error fault => rfl
      | ok checked =>
          obtain ⟨fresh, last⟩ := checked
          simp only
          by_cases hCount : last - (values.length + 1) = plain.length
          · rw [if_pos hCount, if_pos hCount,
              Placeholder.run_bind_of_ok (Pushing.run_forM_push plain values)]
            rfl
          · rw [if_neg hCount, if_neg hCount]
            rfl

end Snippet

namespace Piece

/-- Placing a value through the placeholder in a text, or else as `plain` says. -/
theorem embed?_positional (scope : Scope) (field operator : String) (value : Value)
    (values : List Value) (plain : String × List Value) :
    (match Comparison.embed? scope field operator value (.positional values) with
      | some bound => bound
      | none => .ok (Bindings.extended values plain)) =
      .ok (Bindings.extended values
        (Comparison.placed scope values.length field operator value plain)) := by
  simp only [Comparison.embed?, Comparison.placed]
  split
  · next bound hBound =>
      split at hBound
      · next hField =>
          rw [if_pos hField]
          exact (Option.some.inj hBound).symm
      · next hField =>
          rw [if_neg hField]
          split at hBound
          · next hOperator =>
              rw [if_pos hOperator]
              exact (Option.some.inj hBound).symm
          · exact absurd hBound (by simp)
  · next hNone =>
      split at hNone
      · exact absurd hNone (by simp)
      · next hField =>
          split at hNone
          · exact absurd hNone (by simp)
          · next hOperator => rw [if_neg hField, if_neg hOperator]

theorem finish_sub_positional (text : String) (arguments : List Argument) (values : List Value) :
    (Snippet.writeSub text arguments).finish (.positional values) =
      (if arguments.isEmpty then .ok (text, [])
        else Snippet.placedSub values.length text arguments).map (Bindings.extended values) := by
  cases arguments with
  | nil => simp [Snippet.writeSub, Except.map, Bindings.extended]
  | cons argument rest =>
      exact Step.finish_of_placed (Snippet.writeSub_positional text argument rest values)

theorem finish_having_positional (text : String) (arguments : List Argument)
    (values : List Value) :
    (Snippet.writeHaving text arguments).finish (.positional values) =
      (if arguments.isEmpty then .ok (text, [])
        else Snippet.placedHaving values.length text arguments).map (Bindings.extended values) := by
  cases arguments with
  | nil => simp [Snippet.writeHaving, Except.map, Bindings.extended]
  | cons argument rest =>
      exact Step.finish_of_placed (Snippet.writeHaving_positional text argument rest values)

theorem finish_value_positional (plain : Value) (values : List Value) :
    (Snippet.writeNativeValue plain).finish (.positional values) =
      .ok (Bindings.extended values (if plain.isNull then (", NULL", [])
        else (", " ++ Placeholder.positionalText (values.length + 1), [plain]))) := by
  simp only [Step.finish, Snippet.writeNativeValue]
  by_cases hNull : plain.isNull = true
  · simp [hNull, Step.emit, Bindings.extended]
  · simp [hNull, Bindings.extended]

/-- A piece writes and adds, after some values, what it places after their number. -/
theorem finish_positional (scope : Scope) (piece : Piece) (values : List Value) :
    (piece.write scope).finish (.positional values) =
      (piece.placed scope values.length).map (Bindings.extended values) := by
  have hStill : ∀ text : String, (text, Bindings.positional values) =
      Bindings.extended values (text, []) := by
    intro text
    rw [Bindings.extended, List.append_nil]
  cases piece with
  | word token => exact congrArg Except.ok (hStill _)
  | field column => exact congrArg Except.ok (hStill _)
  | phrase text => exact congrArg Except.ok (hStill _)
  | literal text => exact congrArg Except.ok (hStill _)
  | null column operator name =>
      rw [Piece.write, Comparison.writeNull, Step.finish_ofBinding, hStill]
      exact embed?_positional scope _ _ _ values _
  | scalar column operator present name =>
      rw [Piece.write, Comparison.writeScalar, Step.finish_ofBinding]
      exact embed?_positional scope _ _ _ values
        (Comparison.placedScalar scope values.length column.text
          (Comparison.operatorText operator) present.value)
  | sub text arguments => exact finish_sub_positional text arguments values
  | having text arguments => exact finish_having_positional text arguments values
  | value plain =>
      rw [Piece.write, finish_value_positional, Piece.placed]
      split <;> rfl
  | mapping more => rfl
  | assigned later assignment => rfl
  | stop fault => rfl

/-- A run from positional bindings places its pieces. -/
theorem run_positional (scope : Scope) (pieces : List Piece) (values : List Value) :
    run scope pieces (.positional values) =
      (placedAll scope values.length pieces).map (Bindings.extended values) := by
  induction pieces generalizing values with
  | nil => simp [run_nil, placedAll, Except.map, Bindings.extended]
  | cons piece rest ih =>
      rw [run_cons, finish_positional, placedAll]
      cases piece.placed scope values.length with
      | error fault => rfl
      | ok placed =>
          obtain ⟨front, first⟩ := placed
          simp only [Except.map, bind, Except.bind, Bindings.extended]
          rw [ih (values ++ first), List.length_append]
          cases placedAll scope (values.length + first.length) rest with
          | error fault => rfl
          | ok placed =>
              simp [Except.map, Bindings.extended, pure, Except.pure]

end Piece

end BoundQuery
