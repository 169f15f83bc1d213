import BoundQuery.Draft.Leaf
import BoundQuery.Draft.Snippet

/-!
# Writing trees

Every node of a tree is a step that adds its text and binds its values. A group of several
conditions, and a negated one, is written in parentheses; a group of one condition is that
condition; an empty group is nothing, or the word `NOT` if it is negated.
-/

namespace BoundQuery

namespace Group

/-- What stands around the conditions of a group. -/
def wrap (negated several : Bool) (inside : Step) : Step :=
  if negated then Step.emit "NOT (" ++ inside ++ Step.emit ")"
  else if several then Step.emit "(" ++ inside ++ Step.emit ")"
  else inside

end Group

mutual

def Comparison.write (scope : Scope) : Comparison → Step
  | .bare field _ => Step.emit (scope.qualify field.text)
  | .isNull field operator _ =>
      Comparison.writeNull scope field (Comparison.operatorText operator)
  | .scalar field operator value name =>
      Comparison.writeScalar scope field (Comparison.operatorText operator) value.value name
  | .nested field operator clause _ =>
      Step.emit (scope.qualify field.text ++ " " ++ Comparison.operatorText operator ++ " (") ++
        clause.write scope ++ Step.emit ")"

def Group.write (scope : Scope) : Group → Step
  | .empty negated => Step.emit (if negated then "NOT" else "")
  | .joined negated first rest =>
      Group.wrap negated (!rest.isEmpty) (first.write scope ++ Group.writeRest scope rest)

/-- Writes the later conditions of a group, each behind its conjunction. -/
def Group.writeRest (scope : Scope) : List (Phrase × Condition) → Step
  | [] => Step.emit ""
  | (conjunction, child) :: rest =>
      Step.emit (" " ++ conjunction.text ++ " ") ++ child.write scope ++
        Group.writeRest scope rest

def Condition.write (scope : Scope) : Condition → Step
  | .comparison comparison => comparison.write scope
  | .group group => group.write scope
  | .sub (.mk text arguments) => Snippet.writeSub text arguments
  | .native snippet => snippet.writeNative scope

/-- Writes a native fragment: its text as a literal, then its arguments. -/
def Snippet.writeNative (scope : Scope) : Snippet → Step
  | .mk text arguments =>
      Step.emit ("SQL('" ++ Snippet.doubleQuotes text ++ "'") ++
        Argument.writeNativeAll scope arguments ++ Step.emit ")"

/-- Writes an argument of a native fragment, with a comma in front. -/
def Argument.writeNative (scope : Scope) : Argument → Step
  | .value value => Snippet.writeNativeValue value
  | .mapping more => Snippet.writeNativeMapping more
  | .clause clause => Step.emit ", " ++ clause.write scope
  | .paging paging => Step.fail (.notNative paging.describe)

def Argument.writeNativeAll (scope : Scope) : List Argument → Step
  | [] => Step.emit ""
  | argument :: rest => argument.writeNative scope ++ Argument.writeNativeAll scope rest

def Having.write (scope : Scope) : Having → Step
  | .condition condition => Step.emit " HAVING " ++ condition.write scope
  | .text (.mk text arguments) => Step.emit " HAVING " ++ Snippet.writeHaving text arguments

def Clause.write (scope : Scope) : Clause → Step
  | .condition condition => condition.write scope
  | .groupBy fields => Step.emit (scope.fieldClause "GROUP BY" fields)
  | .orderBy fields => Step.emit (scope.fieldClause "ORDER BY" fields)
  | .having having => having.write scope
  | .sub (.mk text arguments) => Snippet.writeSub text arguments
  | .native snippet => snippet.writeNative scope
  | .aggregate aggregate => Step.emit (scope.fieldClause "GROUP BY" aggregate.fields)

end

/-- Writes clauses one after the other. -/
def Clause.writeAll (scope : Scope) : List Clause → Step
  | [] => Step.emit ""
  | clause :: rest => clause.write scope ++ Clause.writeAll scope rest

end BoundQuery
