import BoundQuery.Proofs.Arguments
import BoundQuery.Proofs.Draft.Bound

/-!
# Calls in either style

A leading mapping, or a part of the condition or of a clause that binds by name, makes a call bind
by name; every other call binds by position (`callStyle`). `compile_eq_placed` and
`compile_eq_asked` say what a call does in each style: the plain values are the first of the
sequence, or the leading mapping is where the dictionary starts, and the assignments, the condition
and the clauses follow in this order.
-/

namespace BoundQuery

/-! ## The parts of a call -/

/-- The plain values among the arguments of a call. -/
def seeds (arguments : List Argument) : List Value := arguments.filterMap Argument.plain?

/-- The pieces of the clauses among the arguments of a call. -/
def clausePieces (arguments : List Argument) : List Piece :=
  (arguments.filterMap Argument.clause?).flatMap Clause.pieces

/-- All pieces that a call writes. -/
def callPieces (assignments : Option (List Assignment)) (condition : Option Condition)
    (arguments : List Argument) : List Piece :=
  setPieces assignments ++ conditionPieces condition ++ clausePieces arguments

/-- The mapping that leads the arguments of a call. -/
def leading? (arguments : List Argument) : Option (Dict Value) :=
  arguments.head?.bind Argument.mapping?

/-- Whether the condition or a clause of a call binds by name. -/
def bindsByName (condition : Option Condition) (arguments : List Argument) : Bool :=
  (conditionPieces condition).any Piece.bindsByName ||
    (clausePieces arguments).any Piece.bindsByName

/-- The binding style of a call. -/
def callStyle (condition : Option Condition) (arguments : List Argument) : Style :=
  if (leading? arguments).isSome || bindsByName condition arguments then .named else .positional

/-- The bindings that a call starts from. -/
theorem startOf_sorted (condition : Option Condition) (arguments : List Argument) :
    startOf condition (Trailing.sorted (leading? arguments) arguments) =
      match callStyle condition arguments with
      | .named => (.named ((leading? arguments).getD .empty), seeds arguments)
      | .positional => (.positional (seeds arguments), []) := by
  have hNaming : Trailing.naming condition (Trailing.sorted (leading? arguments) arguments) =
      bindsByName condition arguments := rfl
  rw [startOf, Trailing.start, hNaming, callStyle]
  cases hLeading : leading? arguments with
  | some mapping => rfl
  | none => cases bindsByName condition arguments <;> rfl

/-! ## What a call does -/

/-- A call whose arguments can be sorted is three runs from the bindings of its style. -/
theorem compile_eq_run (scope : Scope) (assignments : Option (List Assignment))
    (condition : Option Condition) (arguments : List Argument) :
    compile scope assignments condition arguments =
      match Trailing.latePlace? arguments with
      | some place => .error (.lateMapping place)
      | none => do
          let (bindings, passthrough) := (match callStyle condition arguments with
            | .named => (.named ((leading? arguments).getD .empty), seeds arguments)
            | .positional => (.positional (seeds arguments), []) : Bindings × List Value)
          let (written, bindings) ← Piece.run scope (setPieces assignments) bindings
          let (text, bindings) ← Piece.run scope (conditionPieces condition) bindings
          let (tail, bindings) ← Piece.run scope (clausePieces arguments) bindings
          return {
            assignments := assignments.map fun _ => written
            text := text
            tail := tail
            parameters := .ofBindings passthrough bindings
            paging := arguments.filterMap Argument.paging? } := by
  rw [compile_eq, Trailing.ofArguments_eq, ← startOf_sorted]
  cases Trailing.latePlace? arguments <;> rfl

/-- A call by position places the assignments, the condition and the clauses after the plain
values. -/
theorem compile_eq_placed {condition : Option Condition} {arguments : List Argument}
    (hStyle : callStyle condition arguments = .positional) (scope : Scope)
    (assignments : Option (List Assignment)) :
    compile scope assignments condition arguments =
      match Trailing.latePlace? arguments with
      | some place => .error (.lateMapping place)
      | none => do
          let values := seeds arguments
          let (written, first) ← Piece.placedAll scope values.length (setPieces assignments)
          let values := values ++ first
          let (text, second) ← Piece.placedAll scope values.length (conditionPieces condition)
          let values := values ++ second
          let (tail, third) ← Piece.placedAll scope values.length (clausePieces arguments)
          return {
            assignments := assignments.map fun _ => written
            text := text
            tail := tail
            parameters := .positional (values ++ third)
            paging := arguments.filterMap Argument.paging? } := by
  rw [compile_eq_run, hStyle]
  cases Trailing.latePlace? arguments with
  | some place => rfl
  | none =>
      simp only [Piece.run_positional]
      cases Piece.placedAll scope (seeds arguments).length (setPieces assignments) with
      | error fault => rfl
      | ok set =>
          simp only [Except.map, Bindings.extended, bind, Except.bind, Piece.run_positional]
          cases Piece.placedAll scope (seeds arguments ++ set.2).length
              (conditionPieces condition) with
          | error fault => rfl
          | ok text =>
              simp only [Except.map, Bindings.extended, Piece.run_positional]
              cases Piece.placedAll scope (seeds arguments ++ set.2 ++ text.2).length
                  (clausePieces arguments) with
              | error fault => rfl
              | ok tail => rfl

/-- A call by name binds what the assignments, the condition and the clauses ask for over the
leading mapping, and passes the plain values through. -/
theorem compile_eq_asked {condition : Option Condition} {arguments : List Argument}
    (hStyle : callStyle condition arguments = .named) (scope : Scope)
    (assignments : Option (List Assignment)) :
    compile scope assignments condition arguments =
      match Trailing.latePlace? arguments with
      | some place => .error (.lateMapping place)
      | none => do
          let dict := (leading? arguments).getD .empty
          let (written, first) ← Piece.askedAll scope dict (setPieces assignments)
          let dict ← dict.bindEach first
          let (text, second) ← Piece.askedAll scope dict (conditionPieces condition)
          let dict ← dict.bindEach second
          let (tail, third) ← Piece.askedAll scope dict (clausePieces arguments)
          let dict ← dict.bindEach third
          return {
            assignments := assignments.map fun _ => written
            text := text
            tail := tail
            parameters := .named dict (seeds arguments)
            paging := arguments.filterMap Argument.paging? } := by
  rw [compile_eq_run, hStyle]
  cases Trailing.latePlace? arguments with
  | some place => rfl
  | none =>
      generalize (leading? arguments).getD .empty = dict
      simp only [Piece.run_named, bind, Except.bind]
      cases Piece.askedAll scope dict (setPieces assignments) with
      | error fault => rfl
      | ok set =>
          simp only [Bindings.binding]
          cases dict.bindEach set.2 with
          | error fault => rfl
          | ok dict =>
              simp only [Except.map, Piece.run_named, bind, Except.bind]
              cases Piece.askedAll scope dict (conditionPieces condition) with
              | error fault => rfl
              | ok text =>
                  simp only [Bindings.binding]
                  cases dict.bindEach text.2 with
                  | error fault => rfl
                  | ok dict =>
                      simp only [Except.map, Piece.run_named, bind, Except.bind]
                      cases Piece.askedAll scope dict (clausePieces arguments) with
                      | error fault => rfl
                      | ok tail =>
                          simp only [Bindings.binding]
                          cases dict.bindEach tail.2 <;> rfl

/-! ## Calls that go through -/

/-- What a call by position that goes through consists of. -/
structure PlacedCall (scope : Scope) (assignments : Option (List Assignment))
    (condition : Option Condition) (arguments : List Argument) (compiled : Compiled) where
  written : String
  first : List Value
  second : List Value
  third : List Value
  hSet : Piece.placedAll scope (seeds arguments).length (setPieces assignments) =
    .ok (written, first)
  hText : Piece.placedAll scope (seeds arguments ++ first).length (conditionPieces condition) =
    .ok (compiled.text, second)
  hTail : Piece.placedAll scope (seeds arguments ++ first ++ second).length
    (clausePieces arguments) = .ok (compiled.tail, third)
  hAssignments : compiled.assignments = assignments.map fun _ => written
  hParameters : compiled.parameters = .positional (seeds arguments ++ first ++ second ++ third)
  hPaging : compiled.paging = arguments.filterMap Argument.paging?

/-- What a call by name that goes through consists of. -/
structure AskedCall (scope : Scope) (assignments : Option (List Assignment))
    (condition : Option Condition) (arguments : List Argument) (compiled : Compiled) where
  written : String
  first : List (String × Value)
  second : List (String × Value)
  third : List (String × Value)
  afterSet : Dict Value
  afterText : Dict Value
  last : Dict Value
  hSet : Piece.askedAll scope ((leading? arguments).getD .empty) (setPieces assignments) =
    .ok (written, first)
  hFirst : ((leading? arguments).getD .empty).bindEach first = .ok afterSet
  hText : Piece.askedAll scope afterSet (conditionPieces condition) = .ok (compiled.text, second)
  hSecond : afterSet.bindEach second = .ok afterText
  hTail : Piece.askedAll scope afterText (clausePieces arguments) = .ok (compiled.tail, third)
  hThird : afterText.bindEach third = .ok last
  hAssignments : compiled.assignments = assignments.map fun _ => written
  hParameters : compiled.parameters = .named last (seeds arguments)
  hPaging : compiled.paging = arguments.filterMap Argument.paging?

variable {scope : Scope} {assignments : Option (List Assignment)} {condition : Option Condition}
  {arguments : List Argument} {compiled : Compiled}

theorem placedCall_of_compile (hStyle : callStyle condition arguments = .positional)
    (hOk : compile scope assignments condition arguments = .ok compiled) :
    Nonempty (PlacedCall scope assignments condition arguments compiled) := by
  rw [compile_eq_placed hStyle] at hOk
  split at hOk
  · exact absurd hOk (by simp)
  · obtain ⟨⟨written, first⟩, hSet, hOk⟩ := bind_eq_ok.mp hOk
    obtain ⟨⟨text, second⟩, hText, hOk⟩ := bind_eq_ok.mp hOk
    obtain ⟨⟨tail, third⟩, hTail, hOk⟩ := bind_eq_ok.mp hOk
    obtain rfl := Except.ok.inj hOk
    exact ⟨⟨written, first, second, third, hSet, hText, hTail, rfl, rfl, rfl⟩⟩

theorem askedCall_of_compile (hStyle : callStyle condition arguments = .named)
    (hOk : compile scope assignments condition arguments = .ok compiled) :
    Nonempty (AskedCall scope assignments condition arguments compiled) := by
  rw [compile_eq_asked hStyle] at hOk
  split at hOk
  · exact absurd hOk (by simp)
  · obtain ⟨⟨written, first⟩, hSet, hOk⟩ := bind_eq_ok.mp hOk
    obtain ⟨afterSet, hFirst, hOk⟩ := bind_eq_ok.mp hOk
    obtain ⟨⟨text, second⟩, hText, hOk⟩ := bind_eq_ok.mp hOk
    obtain ⟨afterText, hSecond, hOk⟩ := bind_eq_ok.mp hOk
    obtain ⟨⟨tail, third⟩, hTail, hOk⟩ := bind_eq_ok.mp hOk
    obtain ⟨last, hThird, hOk⟩ := bind_eq_ok.mp hOk
    obtain rfl := Except.ok.inj hOk
    exact ⟨⟨written, first, second, third, afterSet, afterText, last, hSet, hFirst, hText, hSecond,
      hTail, hThird, rfl, rfl, rfl⟩⟩

/-- The parameters of a call have the style of the call. -/
theorem style_of_compile (hOk : compile scope assignments condition arguments = .ok compiled) :
    compiled.parameters.style = callStyle condition arguments := by
  cases hStyle : callStyle condition arguments with
  | named =>
      obtain ⟨call⟩ := askedCall_of_compile hStyle hOk
      rw [call.hParameters]
      rfl
  | positional =>
      obtain ⟨call⟩ := placedCall_of_compile hStyle hOk
      rw [call.hParameters]
      rfl

end BoundQuery
