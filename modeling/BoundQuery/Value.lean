import BoundQuery.Calendar
import BoundQuery.Dict
import BoundQuery.Number.Decimal

/-!
# Parameter values

The values that a query binds. `Value.describe` is the form in which messages show a value, and
`Value.equals` compares values: by structure, and decimals by number, so that `1.0` equals `1.00`.
-/

namespace BoundQuery

/-- A value bound to a parameter; a list is bound as a whole. -/
inductive Value where
  | null
  | boolean (b : Bool)
  | integer (n : Int64)
  | decimal (d : Decimal)
  | string (s : String)
  | date (d : Date)
  | dateTime (moment : DateTime)
  | list (items : List Value)

namespace Value

def isNull : Value → Bool
  | .null => true
  | _ => false

def integer? : Value → Option Int64
  | .integer n => some n
  | _ => none

def string? : Value → Option String
  | .string s => some s
  | _ => none

mutual

/-- The form in which messages show a value; a string's own quotes are left as they are. -/
def describe : Value → String
  | .null => "NULL"
  | .boolean b => if b then "true" else "false"
  | .integer n => toString n.toInt
  | .decimal d => d.text
  | .string s => "'" ++ s ++ "'"
  | .date d => d.text
  | .dateTime moment => moment.textWith ' '
  | .list items => "(" ++ describeItems items ++ ")"

/-- The items of a list, separated by commas. -/
def describeItems : List Value → String
  | [] => ""
  | [item] => item.describe
  | item :: rest => item.describe ++ ", " ++ describeItems rest

end

mutual

/-- Equality of values; decimals are compared as numbers. -/
def equals : Value → Value → Bool
  | .null, .null => true
  | .boolean a, .boolean b => a == b
  | .integer a, .integer b => a == b
  | .decimal a, .decimal b => a.equals b
  | .string a, .string b => a == b
  | .date a, .date b => a == b
  | .dateTime a, .dateTime b => a == b
  | .list as, .list bs => equalsItems as bs
  | _, _ => false

/-- Equality item by item. -/
def equalsItems : List Value → List Value → Bool
  | [], [] => true
  | a :: as, b :: bs => a.equals b && equalsItems as bs
  | _, _ => false

end

instance : BEq Value := ⟨equals⟩

end Value

/-- A value that is not null. -/
structure Present where
  value : Value
  notNull : value.isNull = false

namespace Present

def of? (value : Value) : Option Present :=
  if h : value.isNull = false then some ⟨value, h⟩ else none

end Present

end BoundQuery
