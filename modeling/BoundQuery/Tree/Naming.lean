import BoundQuery.Placeholder
import BoundQuery.Tree.Basic

/-!
# Which trees bind by name

A tree binds by name when some part of it does: a comparison with a parameter name or with a named
placeholder in its own text, or a snippet with a mapping among its arguments. Such a tree cannot be
compiled with positional parameters.
-/

namespace BoundQuery

/-- Whether a comparison of a value binds by name. -/
def Comparison.leafNames (field : Field) (operator name : Option Phrase) : Bool :=
  name.isSome || (Placeholder.firstName? field.text).isSome ||
    (Placeholder.firstName? (Comparison.operatorText operator)).isSome

mutual

def Comparison.bindsByName : Comparison → Bool
  | .bare .. => false
  | .isNull field operator name => Comparison.leafNames field operator name
  | .scalar field operator _ name => Comparison.leafNames field operator name
  | .nested _ _ clause _ => clause.bindsByName

def Group.bindsByName : Group → Bool
  | .empty _ => false
  | .joined _ first rest => first.bindsByName || Group.restBindsByName rest

/-- Whether one of the later conditions of a group binds by name. -/
def Group.restBindsByName : List (Phrase × Condition) → Bool
  | [] => false
  | (_, child) :: rest => child.bindsByName || Group.restBindsByName rest

def Condition.bindsByName : Condition → Bool
  | .comparison comparison => comparison.bindsByName
  | .group group => group.bindsByName
  | .sub snippet | .native snippet => snippet.bindsByName

def Snippet.bindsByName : Snippet → Bool
  | .mk _ arguments => Snippet.argumentsBindByName arguments

/-- Whether one of a snippet's arguments binds by name. -/
def Snippet.argumentsBindByName : List Argument → Bool
  | [] => false
  | argument :: rest => argument.bindsByName || Snippet.argumentsBindByName rest

/-- Whether an argument of a snippet binds by name. -/
def Argument.bindsByName : Argument → Bool
  | .mapping _ => true
  | .clause clause => clause.bindsByName
  | .value _ | .paging _ => false

def Having.bindsByName : Having → Bool
  | .condition condition => condition.bindsByName
  | .text snippet => snippet.bindsByName

def Clause.bindsByName : Clause → Bool
  | .condition condition => condition.bindsByName
  | .having having => having.bindsByName
  | .sub snippet | .native snippet => snippet.bindsByName
  | .groupBy _ | .orderBy _ | .aggregate _ => false

end

end BoundQuery
