import BoundQuery.Proofs.Tree.Pieces

/-!
# Runs

A run writes a list of pieces from some bindings and either gives a text and the bindings after it
or stops at a fault. `run_cons` is the step from which statements about runs follow by induction on
the list. `compile_eq` says that a call is three runs in a row, of the assignments, the condition
and the clauses among the arguments, on one and the same bindings.
-/

namespace BoundQuery

/-- Writes pieces from some bindings. -/
def Piece.run (scope : Scope) (pieces : List Piece) (bindings : Bindings) :
    Except Fault (String × Bindings) :=
  (Piece.writeAll scope pieces).finish bindings

namespace Piece

theorem run_nil (scope : Scope) (bindings : Bindings) :
    run scope [] bindings = .ok ("", bindings) :=
  rfl

theorem run_cons (scope : Scope) (piece : Piece) (rest : List Piece) (bindings : Bindings) :
    run scope (piece :: rest) bindings = do
      let (front, middle) ← (piece.write scope).finish bindings
      let (back, after) ← run scope rest middle
      return (front ++ back, after) :=
  Step.finish_append _ _ _

end Piece

/-! ## Calls as runs -/

/-- The pieces of the assignments of an update, if there are any. -/
def setPieces (assignments : Option (List Assignment)) : List Piece :=
  (assignments.map Assignment.pieces).getD []

/-- The pieces of a condition, if there is one. -/
def conditionPieces (condition : Option Condition) : List Piece :=
  (condition.map Condition.pieces).getD []

namespace Trailing

/-- The pieces of the clauses among the arguments of a call. -/
def pieces (trailing : Trailing) : List Piece := trailing.clauses.flatMap Clause.pieces

/-- Whether a condition or a clause among the arguments binds by name. -/
def naming (condition : Option Condition) (trailing : Trailing) : Bool :=
  (conditionPieces condition).any Piece.bindsByName || trailing.pieces.any Piece.bindsByName

theorem naming_eq (condition : Option Condition) (trailing : Trailing) :
    naming condition trailing =
      (condition.any Condition.bindsByName || trailing.clauses.any Clause.bindsByName) := by
  rw [naming, pieces, ← Clause.any_bindsByName_eq]
  cases condition with
  | none => rfl
  | some condition =>
      rw [Option.any_some, condition.bindsByName_eq]
      rfl

end Trailing

/-- The bindings that a call starts from, once its arguments are sorted. -/
def startOf (condition : Option Condition) (trailing : Trailing) : Bindings × List Value :=
  trailing.start (trailing.naming condition)

theorem optional_setPieces (scope : Scope) (assignments : Option (List Assignment)) :
    Step.optional (Assignment.writeAll scope) assignments =
      Piece.writeAll scope (setPieces assignments) := by
  cases assignments with
  | none => rfl
  | some assignments => exact Assignment.writeAll_eq scope assignments

theorem optional_conditionPieces (scope : Scope) (condition : Option Condition) :
    Step.optional (Condition.write scope) condition =
      Piece.writeAll scope (conditionPieces condition) := by
  cases condition with
  | none => rfl
  | some condition => exact condition.write_eq scope

theorem compile_eq (scope : Scope) (assignments : Option (List Assignment))
    (condition : Option Condition) (arguments : List Argument) :
    compile scope assignments condition arguments = do
      let trailing ← Trailing.ofArguments arguments
      let (bindings, passthrough) := startOf condition trailing
      let (written, bindings) ← Piece.run scope (setPieces assignments) bindings
      let (text, bindings) ← Piece.run scope (conditionPieces condition) bindings
      let (tail, bindings) ← Piece.run scope trailing.pieces bindings
      return {
        assignments := assignments.map fun _ => written
        text := text
        tail := tail
        parameters := .ofBindings passthrough bindings
        paging := trailing.paging } := by
  simp only [compile, startOf, Trailing.naming_eq, optional_setPieces, optional_conditionPieces,
    Clause.writeAll_eq]
  rfl

end BoundQuery
