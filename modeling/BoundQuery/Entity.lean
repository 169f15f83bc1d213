import BoundQuery.Compile
import BoundQuery.Settings

/-!
# Statements over an entity

Whole statements: SELECT, the two kinds of counting, UPDATE and DELETE. Each has a head of its own;
the condition follows behind WHERE unless its text is blank, then the grouping of an aggregate, then
the clauses of the call.
-/

namespace BoundQuery

/-- A complete statement with its parameters. -/
structure Query where
  text : String
  parameters : Parameters
  paging : List Paging

namespace Query

def encode (query : Query) : Json :=
  .record (("text", .string query.text) :: ("parameters", query.parameters.encode) ::
    Json.unlessEmpty "injectors" (query.paging.map Paging.encode))

/-- A statement's head and what stands before its tail, completed by what was compiled. -/
def ofCompiled (head : String) (compiled : Compiled) : Query :=
  ⟨head ++ compiled.tail, compiled.parameters, compiled.paging⟩

end Query

/-- The text of a projection: an aggregate's fields and expressions, all behind the alias. -/
def Aggregate.columnsText (scope : Scope) (aggregate : Aggregate) : String :=
  scope.qualifyAll (aggregate.fields.toList.map (·.text) ++ aggregate.outputs.values)

namespace Projection

def text (scope : Scope) : Projection → String
  | .entity => scope.entityAlias.text
  | .expression text => text
  | .aggregate summary => summary.columnsText scope

/-- The grouping that a projection asks for. -/
def grouping (scope : Scope) : Projection → String
  | .aggregate summary => scope.fieldClause "GROUP BY" summary.fields
  | _ => ""

end Projection

/-- An entity under its alias. -/
structure Entity where
  name : Phrase
  scope : Scope

namespace Entity

/-- The entity of a name, which must not be blank. -/
def ofName (name : String) (scope : Scope) : Except Fault Entity :=
  match Phrase.of? name with
  | some name => .ok ⟨name, scope⟩
  | none => .error .blankEntity

/-- The entity of some settings; its name is checked before its alias. -/
def ofSettings (settings : Settings) (read : PatternReader := Pattern.search?) :
    Except Fault Entity := do
  let name ← settings.entityName
  return ⟨name, ← settings.scope read⟩

/-- The condition behind WHERE, or nothing where it is blank. -/
def whereText (condition : String) : String :=
  if Text.isBlankText condition then "" else " WHERE " ++ condition

/-- The entity and its alias. -/
def source (entity : Entity) : String := entity.name.text ++ " " ++ entity.scope.entityAlias.text

/-- The expression that counts rows. -/
def countText (entity : Entity) : String := "COUNT(" ++ entity.scope.entityAlias.text ++ ")"

/-- A SELECT statement. -/
def select (entity : Entity) (projection : Projection) (condition : Option Condition)
    (arguments : List Argument) : Except Fault Query := do
  let compiled ← compile entity.scope none condition arguments
  return Query.ofCompiled
    ("SELECT " ++ projection.text entity.scope ++ " FROM " ++ entity.source ++
      whereText compiled.text ++ projection.grouping entity.scope)
    compiled

/-- A statement that counts the rows. -/
def count (entity : Entity) (condition : Option Condition) (arguments : List Argument) :
    Except Fault Query :=
  entity.select (.expression entity.countText) condition arguments

/-- The aggregate that counts rows by fields, under the output name `count`. -/
def countAggregate (entity : Entity) (fields : String) : Except Fault Aggregate := do
  return (← Aggregate.parse fields).withOutput "count" entity.countText

/-- A statement that counts the rows by fields. -/
def countBy (entity : Entity) (fields : String) (condition : Option Condition)
    (arguments : List Argument) : Except Fault Query := do
  entity.select (.aggregate (← entity.countAggregate fields)) condition arguments

/-- An UPDATE statement. -/
def update (entity : Entity) (assignments : List Assignment) (condition : Option Condition)
    (arguments : List Argument) : Except Fault Query := do
  let compiled ← compile entity.scope (some assignments) condition arguments
  return Query.ofCompiled
    ("UPDATE " ++ entity.source ++ " SET " ++ compiled.assignments.getD "" ++
      whereText compiled.text)
    compiled

/-- A DELETE statement. -/
def delete (entity : Entity) (condition : Option Condition) (arguments : List Argument) :
    Except Fault Query := do
  let compiled ← compile entity.scope none condition arguments
  return Query.ofCompiled ("DELETE FROM " ++ entity.source ++ whereText compiled.text) compiled

end Entity

end BoundQuery
