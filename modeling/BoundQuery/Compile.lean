import BoundQuery.Draft.Tree
import BoundQuery.Tree.Document
import BoundQuery.Tree.Naming

/-!
# Compiling

A call gives a condition, perhaps the assignments of an update, and further arguments. A mapping may
only come first: it selects binding by name and its entries are bound before anything else. Without
one, a tree that binds by name is compiled by name too; otherwise the plain values among the
arguments are the first positional parameters. Assignments are written first, then the condition,
then the clauses among the arguments, all on the same bindings. By name, plain values are not bound
but passed through.
-/

namespace BoundQuery

/-- The parameters of a compiled query. -/
inductive Parameters where
  | named (bindings : Dict Value) (passthrough : List Value)
  | positional (values : List Value)

namespace Parameters

def style : Parameters → Style
  | .named .. => .named
  | .positional _ => .positional

/-- The bound values, in the order of their binding. -/
def values : Parameters → List Value
  | .named bindings _ => bindings.values
  | .positional values => values

def encode : Parameters → Json
  | .named bindings passthrough =>
      .record [("named", .record (("bindings", bindings.encode Value.encode) ::
        Json.unlessEmpty "passthrough" (passthrough.map Value.encode)))]
  | .positional values => .record [("positional", .array (values.map Value.encode))]

/-- The parameters that some bindings have become; values are passed through by name only. -/
def ofBindings (passthrough : List Value) : Bindings → Parameters
  | .named dict => .named dict passthrough
  | .positional values => .positional values

end Parameters

/-- What compiling gives: the assignments of an update, the condition, the clauses after it, the
parameters, and the settings for whoever runs the query. -/
structure Compiled where
  assignments : Option String
  text : String
  tail : String
  parameters : Parameters
  paging : List Paging

namespace Compiled

/-- The condition and the clauses after it. -/
def query (compiled : Compiled) : String := compiled.text ++ compiled.tail

def encode (compiled : Compiled) : Json :=
  .record (Json.optional "set" (compiled.assignments.map .string) ++
    ("text", .string compiled.text) ::
    Json.optional "tail" (if compiled.tail = "" then none else some (.string compiled.tail)) ++
    ("parameters", compiled.parameters.encode) ::
    Json.unlessEmpty "injectors" (compiled.paging.map Paging.encode))

end Compiled

/-- The arguments of a call, sorted by what they are for. -/
structure Trailing where
  mapping : Option (Dict Value)
  values : List Value
  clauses : List Clause
  paging : List Paging

namespace Trailing

def empty : Trailing := ⟨none, [], [], []⟩

/-- Sorts arguments among which no mapping may be; `place` is that of the first one. -/
def sort (place : Nat) : List Argument → Except Fault Trailing
  | [] => .ok empty
  | .mapping _ :: _ => .error (.lateMapping place)
  | .value value :: rest => do
      let trailing ← sort (place + 1) rest
      return { trailing with values := value :: trailing.values }
  | .clause clause :: rest => do
      let trailing ← sort (place + 1) rest
      return { trailing with clauses := clause :: trailing.clauses }
  | .paging paging :: rest => do
      let trailing ← sort (place + 1) rest
      return { trailing with paging := paging :: trailing.paging }

/-- Sorts the arguments of a call. -/
def ofArguments : List Argument → Except Fault Trailing
  | .mapping mapping :: rest => do return { ← sort 2 rest with mapping := some mapping }
  | arguments => sort 1 arguments

/-- The bindings before anything is written, and the values that are passed through. -/
def start (trailing : Trailing) (byName : Bool) : Bindings × List Value :=
  match trailing.mapping with
  | some mapping => (.named mapping, trailing.values)
  | none =>
      if byName then (.named .empty, trailing.values)
      else (.positional trailing.values, [])

end Trailing

/-- The text and the bindings of a step that was not stopped. -/
def Step.finish (step : Step) (bindings : Bindings) : Except Fault (String × Bindings) :=
  let draft := step bindings
  match draft.fault with
  | none => .ok (draft.text, draft.bindings)
  | some fault => .error fault

/-- Writes what may be missing. -/
def Step.optional {α : Type} (write : α → Step) : Option α → Step
  | some part => write part
  | none => Step.emit ""

/-- Compiles a condition, perhaps with the assignments of an update, and the arguments of a call. -/
def compile (scope : Scope) (assignments : Option (List Assignment)) (condition : Option Condition)
    (arguments : List Argument) : Except Fault Compiled := do
  let trailing ← Trailing.ofArguments arguments
  let byName := condition.any Condition.bindsByName || trailing.clauses.any Clause.bindsByName
  let (bindings, passthrough) := trailing.start byName
  let (written, bindings) ←
    (Step.optional (Assignment.writeAll scope) assignments).finish bindings
  let (text, bindings) ← (Step.optional (Condition.write scope) condition).finish bindings
  let (tail, bindings) ← (Clause.writeAll scope trailing.clauses).finish bindings
  return {
    assignments := assignments.map fun _ => written
    text := text
    tail := tail
    parameters := .ofBindings passthrough bindings
    paging := trailing.paging }

/-- The scope of the alias `e` under the standard rule. -/
def Scope.standard : Scope := ⟨⟨Alias.standard, by decide +kernel⟩, .standard⟩

end BoundQuery
