import BoundQuery.Proofs.Bindings
import BoundQuery.Proofs.Draft.Placed

/-!
# Runs by name

By name, a piece writes a text and asks for pairs of names and values; all that it looks at is which
names are bound already, and only the text of a HAVING clause does. `Piece.asked` gives the text and
the pairs of a piece, `Piece.askedAll` those of a list. `Piece.run_named` says that a run from named
bindings gives this text and binds these pairs in this order, so what a run binds is what a series
of bindings gives.
-/

namespace BoundQuery

/-! ## What a piece writes and asks for -/

/-- Binds a value through the placeholder in the text of a field or of an operator; `plain` is for a
comparison without one. -/
def Comparison.asked (scope : Scope) (field operator : String) (value : Value)
    (plain : String × List (String × Value)) : String × List (String × Value) :=
  match Placeholder.firstName? field, Placeholder.firstName? operator with
  | some name, _ => (scope.qualify field, [(name, value)])
  | none, some name => (scope.qualify field ++ " " ++ operator, [(name, value)])
  | none, none => plain

/-- A comparison of a value that has no placeholder in its own text. -/
def Comparison.askedScalar (scope : Scope) (field operator key : String) (value : Value) :
    String × List (String × Value) :=
  (scope.qualify field ++ " " ++ operator ++ " " ++ Placeholder.namedText key, [(key, value)])

/-- The mapping that is the only argument. -/
def Argument.only? : List Argument → Option (Dict Value)
  | [.mapping more] => some more
  | _ => none

/-- The pairs of a sub-expression are those of its mapping. -/
def Snippet.askedSub (text : String) (arguments : List Argument) :
    Except Fault (String × List (String × Value)) :=
  match Argument.only? arguments with
  | some more => .ok (text, more.entries)
  | none => .error (.needsMapping text)

/-- The pairs of a HAVING text: those of its mapping, or plain values for the names not bound. -/
def Snippet.askedHaving (dict : Dict Value) (text : String) (arguments : List Argument) :
    Except Fault (String × List (String × Value)) :=
  match Argument.only? arguments with
  | some more => .ok (text, more.entries)
  | none =>
      match Argument.plainValues "having clause" text arguments with
      | .error fault => .error fault
      | .ok values =>
          let names := Snippet.unboundNames dict (Placeholder.names text)
          if names.length = values.length then .ok (text, names.zip values)
          else .error (.miscount text names.length values.length)

/-- The placeholders for the names of a mapping among the arguments of a native fragment. -/
def Snippet.namesText (keys : List String) : String :=
  String.join (keys.map fun key => ", " ++ Placeholder.namedText key)

/-- What a piece writes over some bindings, and the pairs that it asks for. -/
def Piece.asked (scope : Scope) (dict : Dict Value) :
    Piece → Except Fault (String × List (String × Value))
  | .word token => .ok (token.text, [])
  | .field column => .ok (scope.qualify column.text, [])
  | .phrase text => .ok (text, [])
  | .null column operator _ =>
      let sign := Comparison.operatorText operator
      .ok (Comparison.asked scope column.text sign .null
        (Comparison.nullText scope column.text sign, []))
  | .scalar column operator present name =>
      let sign := Comparison.operatorText operator
      .ok (Comparison.asked scope column.text sign present.value
        (Comparison.askedScalar scope column.text sign (Comparison.parameterName column name)
          present.value))
  | .sub text arguments =>
      if arguments.isEmpty then .ok (text, []) else Snippet.askedSub text arguments
  | .having text arguments =>
      if arguments.isEmpty then .ok (text, []) else Snippet.askedHaving dict text arguments
  | .literal text => .ok (Snippet.literalText text, [])
  | .value plain => if plain.isNull then .ok (", NULL", []) else .error (.unnamedNative plain)
  | .mapping more => .ok (Snippet.namesText more.keys, more.entries)
  | .assigned later assignment =>
      .ok ((if later then ", " else "") ++ scope.qualify assignment.field.text ++ " = " ++
        Placeholder.namedText assignment.field.parameterName,
        [(assignment.field.parameterName, assignment.value)])
  | .stop fault => .error fault

/-- What pieces write one after the other, and the pairs that they ask for. -/
def Piece.askedAll (scope : Scope) (dict : Dict Value) :
    List Piece → Except Fault (String × List (String × Value))
  | [] => .ok ("", [])
  | piece :: rest =>
      match piece.asked scope dict with
      | .error fault => .error fault
      | .ok (front, first) =>
          match dict.bindEach first with
          | .error fault => .error fault
          | .ok middle =>
              match askedAll scope middle rest with
              | .error fault => .error fault
              | .ok (back, more) => .ok (front ++ back, first ++ more)

/-- The named bindings after some pairs are bound. -/
def Bindings.binding (dict : Dict Value) (asked : String × List (String × Value)) :
    Except Fault (String × Bindings) :=
  (dict.bindEach asked.2).map fun after => (asked.1, .named after)

/-! ## Writing is asking and binding -/

namespace Piece

theorem bindEach_single (dict : Dict Value) (name : String) (value : Value) :
    dict.bindEach [(name, value)] = dict.bind name value := by
  rw [Dict.bindEach_cons]
  cases dict.bind name value <;> rfl

/-- Binding a value through the placeholder in a text, or else as `plain` says. -/
theorem embed?_named (scope : Scope) (field operator : String) (value : Value)
    (dict : Dict Value) (plain : String × List (String × Value)) :
    (match Comparison.embed? scope field operator value (.named dict) with
      | some bound => bound
      | none => Bindings.binding dict plain) =
      Bindings.binding dict (Comparison.asked scope field operator value plain) := by
  simp only [Comparison.embed?, Comparison.asked]
  cases hField : Placeholder.firstName? field with
  | some name =>
      simp only [Bindings.binding, bindEach_single]
      cases dict.bind name value <;> rfl
  | none =>
      cases hOperator : Placeholder.firstName? operator with
      | some name =>
          simp only [Bindings.binding, bindEach_single]
          cases dict.bind name value <;> rfl
      | none => rfl

theorem finish_ofPairs {step : Step} {bindings : Bindings} {text : String} {dict : Dict Value}
    {pairs : List (String × Value)} (h : step bindings = Step.ofPairs text dict pairs) :
    step.finish bindings = Bindings.binding dict (text, pairs) := by
  simp only [Step.finish, h, Step.ofPairs, Bindings.binding, Dict.bindEach]
  rcases dict.bindAll pairs with ⟨after, _ | fault⟩ <;> rfl

theorem writeSub_named (text : String) (argument : Argument) (rest : List Argument)
    (dict : Dict Value) :
    Snippet.writeSub text (argument :: rest) (.named dict) =
      match Argument.only? (argument :: rest) with
      | some more => Step.ofPairs text dict more.entries
      | none => Step.fail (.needsMapping text) (.named dict) := by
  cases rest with
  | nil => cases argument <;> rfl
  | cons second rest => cases argument <;> rfl

theorem finish_sub_named (text : String) (arguments : List Argument) (dict : Dict Value) :
    (Snippet.writeSub text arguments).finish (.named dict) =
      (if arguments.isEmpty then .ok (text, []) else Snippet.askedSub text arguments) >>=
        Bindings.binding dict := by
  cases arguments with
  | nil => rfl
  | cons argument rest =>
      have hStep := writeSub_named text argument rest dict
      rw [if_neg (by simp), Snippet.askedSub]
      cases hOnly : Argument.only? (argument :: rest) with
      | some more =>
          rw [hOnly] at hStep
          exact finish_ofPairs hStep
      | none =>
          rw [hOnly] at hStep
          simp only [Step.finish, hStep]
          rfl

theorem writeHaving_named (text : String) (argument : Argument) (rest : List Argument)
    (dict : Dict Value) :
    Snippet.writeHaving text (argument :: rest) (.named dict) =
      match Argument.only? (argument :: rest) with
      | some more => Step.ofPairs text dict more.entries
      | none => Snippet.writeHavingNamed text (argument :: rest) dict := by
  cases rest with
  | nil => cases argument <;> rfl
  | cons second rest => cases argument <;> rfl

theorem finish_having_named (text : String) (arguments : List Argument) (dict : Dict Value) :
    (Snippet.writeHaving text arguments).finish (.named dict) =
      (if arguments.isEmpty then .ok (text, []) else Snippet.askedHaving dict text arguments) >>=
        Bindings.binding dict := by
  cases arguments with
  | nil => rfl
  | cons argument rest =>
      have hStep := writeHaving_named text argument rest dict
      rw [if_neg (by simp), Snippet.askedHaving]
      cases hOnly : Argument.only? (argument :: rest) with
      | some more =>
          rw [hOnly] at hStep
          exact finish_ofPairs hStep
      | none =>
          simp only [hOnly, Snippet.writeHavingNamed] at hStep
          cases hPlain : Argument.plainValues "having clause" text (argument :: rest) with
          | error fault =>
              simp only [hPlain] at hStep
              simp only [Step.finish, hStep]
              rfl
          | ok values =>
              simp only [hPlain] at hStep
              simp only
              split at hStep
              · next hCount =>
                  rw [if_pos hCount]
                  exact finish_ofPairs hStep
              · next hCount =>
                  rw [if_neg hCount]
                  simp only [Step.finish, hStep]
                  rfl

/-- A piece binds, over some bindings, the pairs that it asks for. -/
theorem finish_named (scope : Scope) (piece : Piece) (dict : Dict Value) :
    (piece.write scope).finish (.named dict) =
      piece.asked scope dict >>= Bindings.binding dict := by
  cases piece with
  | word token => rfl
  | field column => rfl
  | phrase text => rfl
  | literal text => rfl
  | null column operator name =>
      rw [Piece.write, Comparison.writeNull, Step.finish_ofBinding]
      exact embed?_named scope _ _ _ dict
        (Comparison.nullText scope column.text (Comparison.operatorText operator), [])
  | scalar column operator present name =>
      have hPlain := embed?_named scope column.text (Comparison.operatorText operator) present.value
        dict (Comparison.askedScalar scope column.text (Comparison.operatorText operator)
          (Comparison.parameterName column name) present.value)
      rw [Piece.write, Comparison.writeScalar, Step.finish_ofBinding]
      refine Eq.trans ?_ hPlain
      simp only [Bindings.bindAs, Bindings.binding, Comparison.askedScalar, bindEach_single]
      cases dict.bind (Comparison.parameterName column name) present.value <;> rfl
  | sub text arguments => exact finish_sub_named text arguments dict
  | having text arguments => exact finish_having_named text arguments dict
  | value plain =>
      simp only [Piece.write, Step.finish, Snippet.writeNativeValue, Piece.asked]
      cases plain.isNull <;> rfl
  | mapping more => exact finish_ofPairs rfl
  | assigned later assignment =>
      rw [Piece.write, Assignment.write, Step.finish_ofBinding]
      simp only [Bindings.bindAs, Piece.asked, Bindings.binding, bindEach_single, Bind.bind,
        Except.bind]
      cases dict.bind assignment.field.parameterName assignment.value <;> rfl
  | stop fault => rfl

theorem askedAll_cons_eq_ok {scope : Scope} {dict : Dict Value} {piece : Piece}
    {rest : List Piece} {text : String} {pairs : List (String × Value)} :
    askedAll scope dict (piece :: rest) = .ok (text, pairs) ↔
      ∃ front first middle back more, piece.asked scope dict = .ok (front, first) ∧
        dict.bindEach first = .ok middle ∧ askedAll scope middle rest = .ok (back, more) ∧
        text = front ++ back ∧ pairs = first ++ more := by
  rw [askedAll]
  constructor
  · intro hBoth
    split at hBoth
    · exact absurd hBoth (by simp)
    · next front first hFront =>
        split at hBoth
        · exact absurd hBoth (by simp)
        · next middle hMiddle =>
            split at hBoth
            · exact absurd hBoth (by simp)
            · next back more hBack =>
                obtain ⟨rfl, rfl⟩ := Prod.mk.inj (Except.ok.inj hBoth)
                exact ⟨front, first, middle, back, more, hFront, hMiddle, hBack, rfl, rfl⟩
  · rintro ⟨front, first, middle, back, more, hFront, hMiddle, hBack, rfl, rfl⟩
    simp only [hFront, hMiddle, hBack]

/-- A run from named bindings binds the pairs that its pieces ask for. -/
theorem run_named (scope : Scope) (pieces : List Piece) (dict : Dict Value) :
    run scope pieces (.named dict) =
      askedAll scope dict pieces >>= Bindings.binding dict := by
  induction pieces generalizing dict with
  | nil => rfl
  | cons piece rest ih =>
      rw [run_cons, finish_named, askedAll]
      cases hFront : piece.asked scope dict with
      | error fault => rfl
      | ok asked =>
          obtain ⟨front, first⟩ := asked
          simp only [Bind.bind, Except.bind, Bindings.binding]
          cases hMiddle : dict.bindEach first with
          | error fault => rfl
          | ok middle =>
              simp only [Except.map]
              rw [ih middle]
              cases hBack : askedAll scope middle rest with
              | error fault => rfl
              | ok asked =>
                  obtain ⟨back, more⟩ := asked
                  simp only [Bind.bind, Except.bind, Bindings.binding, Dict.bindEach_append,
                    hMiddle]
                  cases middle.bindEach more <;> rfl

end Piece

end BoundQuery
