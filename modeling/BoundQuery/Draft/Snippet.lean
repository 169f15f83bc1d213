import BoundQuery.Draft.Basic
import BoundQuery.Tree.Basic

/-!
# Writing snippets

Text of the caller's own comes with arguments for its placeholders. By name, the arguments are one
mapping and the text stays as it is. By position, every placeholder is numbered after the values
bound before, so that a snippet fits anywhere; in the condition of a HAVING clause a number may also
refer back to a value bound before. All checks come before the first binding.
-/

namespace BoundQuery

namespace Argument

/-- What an argument is, as messages say it. -/
def kindText : Argument → String
  | .value _ => "a value"
  | .mapping _ => "a mapping"
  | .clause _ => "a statement"
  | .paging _ => "an injector"

/-- The values of arguments that have to be plain values. -/
def plainValues (kind fragment : String) : List Argument → Except Fault (List Value)
  | [] => .ok []
  | .value plain :: rest => do return plain :: (← plainValues kind fragment rest)
  | other :: _ => .error (.notPlain kind fragment other.kindText)

end Argument

namespace Snippet

/-- Binds the next of some values for a positional placeholder, which gets its number; null stands
in for a value that is missing. -/
def pushNext (placeholder : Placeholder) : StateT (List Value) Pushing (Option String) := do
  if placeholder.kind.isPositional then
    let left ← get
    set left.tail
    return some (Placeholder.positionalText (← Pushing.push (left.headD .null)))
  else return none

/-- Writes a sub-expression of positional parameters: each placeholder takes one value. -/
def writeSubPositional (text : String) (arguments : List Argument) : Pushing String := do
  let values ← MonadExcept.ofExcept (Argument.plainValues "sub-expression" text arguments)
  let places := Placeholder.positionalCount text
  if places = values.length then (Placeholder.substitute pushNext text).run' values
  else throw (.miscount text places values.length)

/-- Writes a sub-expression. -/
def writeSub (text : String) (arguments : List Argument) : Step :=
  if arguments.isEmpty then Step.emit text
  else fun bindings =>
    match bindings with
    | .positional values => Step.ofPushing (writeSubPositional text arguments) values
    | .named dict =>
        match arguments with
        | [.mapping more] => Step.ofPairs text dict more.entries
        | _ => Step.fail (.needsMapping text) bindings

/-- The names of a list that are neither bound nor further to the left. -/
def unboundNames (dict : Dict Value) : List String → List String
  | [] => []
  | name :: rest =>
      if dict.contains name then unboundNames dict rest
      else name :: (unboundNames dict rest).filter (· ≠ name)

/-- Writes the text of a HAVING clause with plain values for the names that are not bound yet. -/
def writeHavingNamed (text : String) (arguments : List Argument) (dict : Dict Value) : Draft :=
  match Argument.plainValues "having clause" text arguments with
  | .error fault => ⟨"", .named dict, some fault⟩
  | .ok values =>
      let names := unboundNames dict (Placeholder.names text)
      if names.length = values.length then Step.ofPairs text dict (names.zip values)
      else ⟨"", .named dict, some (.miscount text names.length values.length)⟩

/-- Checks the numbers of placeholders, of which the next new one is `next`. A placeholder without
number, or with the next one, takes a value; a lower number refers back. Gives the numbers of those
without, and the next number at the end. -/
def checkNumbers (fragment : String) (next : Nat) :
    List Placeholder → Except Fault (List Nat × Nat)
  | [] => .ok ([], next)
  | placeholder :: rest =>
      match placeholder.kind with
      | .named _ => checkNumbers fragment next rest
      | .positional none => do
          let (fresh, last) ← checkNumbers fragment (next + 1) rest
          return (next :: fresh, last)
      | .positional (some number) =>
          if number = next then checkNumbers fragment (next + 1) rest
          else if 1 ≤ number && number < next then checkNumbers fragment next rest
          else .error (.outOfSequence fragment next number placeholder.span)

/-- Writes the text of a HAVING clause with positional parameters. -/
def writeHavingPositional (text : String) (arguments : List Argument) : Pushing String := do
  let values ← MonadExcept.ofExcept (Argument.plainValues "having clause" text arguments)
  let next := (← get).length + 1
  let (fresh, last) ← MonadExcept.ofExcept (checkNumbers text next (placeholders text))
  let taken := last - next
  if taken = values.length then
    values.forM fun value => discard (Pushing.push value)
    return Placeholder.fillNumbers text fresh
  else throw (.miscount text taken values.length)

/-- Writes the text of a HAVING clause. -/
def writeHaving (text : String) (arguments : List Argument) : Step :=
  if arguments.isEmpty then Step.emit text
  else fun bindings =>
    match bindings with
    | .positional values => Step.ofPushing (writeHavingPositional text arguments) values
    | .named dict =>
        match arguments with
        | [.mapping more] => Step.ofPairs text dict more.entries
        | _ => writeHavingNamed text arguments dict

/-- A text as the inside of a quoted literal: each quote is doubled. -/
def doubleQuotes (text : String) : String :=
  String.ofList (text.toList.flatMap fun c => if c = '\'' then ['\'', '\''] else [c])

/-- Writes a value among the arguments of a native fragment. -/
def writeNativeValue (value : Value) : Step := fun bindings =>
  if value.isNull then Step.emit ", NULL" bindings
  else match bindings with
    | .positional values =>
        ⟨", " ++ Placeholder.positionalText (values.length + 1), .positional (values ++ [value]),
          none⟩
    | .named _ => Step.fail (.unnamedNative value) bindings

/-- Writes a mapping among the arguments of a native fragment. -/
def writeNativeMapping (more : Dict Value) : Step := fun bindings =>
  match bindings with
  | .positional _ => Step.fail .positionalMapping bindings
  | .named dict =>
      Step.ofPairs (String.join (more.keys.map fun key => ", " ++ Placeholder.namedText key))
        dict more.entries

end Snippet

end BoundQuery
