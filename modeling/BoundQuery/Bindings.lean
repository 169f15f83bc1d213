import BoundQuery.Fault
import BoundQuery.Placeholder

/-!
# Parameter bindings

A query's parameters are bound in one of two styles, which never mix: by name in a dictionary, or by
position in a sequence whose places count from one. A name may be bound again to an equal value; a
null never replaces a value, and a value replaces a null; any other rebinding is a conflict.
-/

namespace BoundQuery

/-- The two styles of parameters. -/
inductive Style where
  | named
  | positional
  deriving DecidableEq, Repr

namespace Style

def text : Style → String
  | .named => "named"
  | .positional => "positional"

def named? (name : String) : Option Style :=
  match name with
  | "named" => some .named
  | "positional" => some .positional
  | _ => none

end Style

namespace Dict

/-- Binds a name to a value. -/
def bind (dict : Dict Value) (name : String) (value : Value) : Except Fault (Dict Value) :=
  match dict.find? name with
  | none => .ok (dict.insert name value)
  | some existing =>
      if value.isNull || existing == value then .ok dict
      else if existing.isNull then .ok (dict.insert name value)
      else .error (.conflict name existing value)

/-- Binds names to values one after the other, up to the first conflict: the bindings made so far,
and the conflict. -/
def bindAll (dict : Dict Value) : List (String × Value) → Dict Value × Option Fault
  | [] => (dict, none)
  | (name, value) :: rest =>
      match dict.bind name value with
      | .ok dict => bindAll dict rest
      | .error fault => (dict, some fault)

end Dict

/-- The parameters that a query has bound so far. -/
inductive Bindings where
  | named (dict : Dict Value)
  | positional (values : List Value)

namespace Bindings

def style : Bindings → Style
  | .named _ => .named
  | .positional _ => .positional

def size : Bindings → Nat
  | .named dict => dict.size
  | .positional values => values.length

/-- Binds a value at the next place, or under a key; also gives the placeholder that refers to
it. -/
def bindAs (key : String) (value : Value) : Bindings → Except Fault (String × Bindings)
  | .positional values =>
      .ok (Placeholder.positionalText (values.length + 1), .positional (values ++ [value]))
  | .named dict => do return (Placeholder.namedText key, .named (← dict.bind key value))

end Bindings

end BoundQuery
