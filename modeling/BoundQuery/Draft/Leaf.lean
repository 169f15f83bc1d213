import BoundQuery.Alias
import BoundQuery.Draft.Basic
import BoundQuery.Tree.Basic

/-!
# Writing comparisons of values

A comparison of a value is written as field, operator and placeholder. When the field or the
operator has a placeholder of the binding style in its own text, the value is bound through that one
and no other is added: by position, the placeholder is numbered; by name, the text stays as it is.
A comparison with null that has no placeholder is written `IS NULL` or `IS NOT NULL`.
-/

namespace BoundQuery

namespace Comparison

/-- Binds a value through the placeholder in the text of the field or of the operator. -/
def embed? (scope : Scope) (field operator : String) (value : Value) :
    Bindings → Option (Except Fault (String × Bindings))
  | .positional values =>
      let number := values.length + 1
      let bound := Bindings.positional (values ++ [value])
      if Placeholder.hasPositional field then
        some (.ok (Placeholder.renumber (scope.qualify field) number, bound))
      else if Placeholder.hasPositional operator then
        some (.ok (scope.qualify field ++ " " ++ Placeholder.renumber operator number, bound))
      else none
  | .named dict =>
      match Placeholder.firstName? field, Placeholder.firstName? operator with
      | some name, _ =>
          some (do return (scope.qualify field, .named (← dict.bind name value)))
      | none, some name =>
          some (do return (scope.qualify field ++ " " ++ operator, .named (← dict.bind name value)))
      | none, none => none

/-- A comparison with null that has no placeholder. -/
def nullText (scope : Scope) (field operator : String) : String :=
  scope.qualify field ++
    (if operator = "=" then " IS NULL"
    else if operator = "!=" || operator = "<>" then " IS NOT NULL"
    else " " ++ operator ++ " NULL")

/-- The name of the parameter that a comparison binds when its text has no placeholder. -/
def parameterName (field : Field) (name : Option Phrase) : String :=
  match name with
  | some phrase => phrase.text
  | none => field.parameterName

/-- Writes a comparison with null. -/
def writeNull (scope : Scope) (field : Field) (operator : String) : Step :=
  Step.ofBinding fun bindings =>
    match embed? scope field.text operator .null bindings with
    | some bound => bound
    | none => .ok (nullText scope field.text operator, bindings)

/-- Writes a comparison with a value. -/
def writeScalar (scope : Scope) (field : Field) (operator : String) (value : Value)
    (name : Option Phrase) : Step :=
  Step.ofBinding fun bindings =>
    match embed? scope field.text operator value bindings with
    | some bound => bound
    | none => do
        let (placeholder, bindings) ← bindings.bindAs (parameterName field name) value
        return (scope.qualify field.text ++ " " ++ operator ++ " " ++ placeholder, bindings)

end Comparison

namespace Assignment

/-- Writes one assignment. The value is bound before anything is written. -/
def write (scope : Scope) (separator : String) (assignment : Assignment) : Step :=
  Step.ofBinding fun bindings => do
    let (placeholder, bindings) ←
      bindings.bindAs assignment.field.parameterName assignment.value
    return (separator ++ scope.qualify assignment.field.text ++ " = " ++ placeholder, bindings)

/-- Writes assignments with commas in front of them. -/
def writeMore (scope : Scope) : List Assignment → Step
  | [] => Step.emit ""
  | assignment :: rest => assignment.write scope ", " ++ writeMore scope rest

/-- Writes the list of assignments of an update, of which there must be one. -/
def writeAll (scope : Scope) : List Assignment → Step
  | [] => Step.fail .noAssignments
  | assignment :: rest => assignment.write scope "" ++ writeMore scope rest

end Assignment

end BoundQuery
