import BoundQuery.Dict
import BoundQuery.Field

/-!
# Aggregates and projections

An aggregate groups rows by fields and computes one expression per output name. A row of its result
holds the fields in order and then the outputs; `Aggregate.result` names the values of a row.
A projection is what a SELECT statement asks for.
-/

namespace BoundQuery

/-- Fields to group by, and expressions by output name. -/
structure Aggregate where
  fields : Fields
  outputs : Dict String

namespace Aggregate

def ofFields (fields : Fields) : Aggregate := ⟨fields, .empty⟩

/-- The aggregate over the fields of a text in which commas part them. -/
def parse (fields : String) : Except Fault Aggregate := ofFields <$> Fields.parse fields

/-- Adds an expression under an output name, or exchanges the one that is there. -/
def withOutput (aggregate : Aggregate) (name expression : String) : Aggregate :=
  { aggregate with outputs := aggregate.outputs.insert name expression }

/-- How many columns a row of the result has. -/
def width (aggregate : Aggregate) : Nat := aggregate.fields.size + aggregate.outputs.size

/-- The names of the columns, in order. -/
def columns (aggregate : Aggregate) : List String :=
  aggregate.fields.toList.map (·.text) ++ aggregate.outputs.keys

/-- The values of a row under the names of their columns; of columns with one name the last one
counts. -/
def result (aggregate : Aggregate) (row : List Value) : Except Fault (Dict Value) :=
  if row.length = aggregate.width then .ok (Dict.ofList (aggregate.columns.zip row))
  else .error (.rowShape aggregate.width row.length)

end Aggregate

/-- What a SELECT statement asks for: the entity, a verbatim expression, or an aggregate. -/
inductive Projection where
  | entity
  | expression (text : String)
  | aggregate (aggregate : Aggregate)

end BoundQuery
