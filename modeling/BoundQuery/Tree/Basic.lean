import BoundQuery.Aggregate
import BoundQuery.Field
import BoundQuery.Value

/-!
# Conditions, clauses and arguments

The trees that a query is compiled from. A condition is a comparison, a group of conditions joined
by conjunctions, or text of the caller's own; a clause is anything that adds text to a query, from a
condition in place to an ORDER BY; an argument is what comes after the condition in a call, and what
a snippet of text is given for its placeholders. They contain each other: a comparison may have a
clause as its right side, and a snippet may have clauses among its arguments.

The rules of construction are in the types: a field, an operator, a conjunction and a parameter name
are phrases, a compared value is not null, a bare field has neither operator nor name, and in a
group every condition but the first has a conjunction.
-/

namespace BoundQuery

/-- The two ways to ask for a bare field instead of a comparison. -/
inductive Mark where
  | skip
  | noValue
  deriving DecidableEq, Repr

/-- A setting for whoever runs the query; it is never bound. -/
inductive Paging where
  | offset (n : UInt64)
  | limit (n : UInt64)
  deriving DecidableEq, Repr

/-- The form in which messages show a paging setting. -/
def Paging.describe : Paging → String
  | .offset n => "Offset(" ++ toString n.toNat ++ ")"
  | .limit n => "Limit(" ++ toString n.toNat ++ ")"

mutual

/-- A field and what it is compared with. The operator is the equals sign where none is given, and
the name is the parameter's where the binding style has names. -/
inductive Comparison where
  | bare (field : Field) (mark : Mark)
  | isNull (field : Field) (operator name : Option Phrase)
  | scalar (field : Field) (operator : Option Phrase) (value : Present) (name : Option Phrase)
  | nested (field : Field) (operator : Option Phrase) (clause : Clause) (name : Option Phrase)

/-- Conditions joined by conjunctions, perhaps negated as a whole. -/
inductive Group where
  | empty (negated : Bool)
  | joined (negated : Bool) (first : Condition) (rest : List (Phrase × Condition))

/-- A condition on the rows of a query. -/
inductive Condition where
  | comparison (comparison : Comparison)
  | group (group : Group)
  | sub (snippet : Snippet)
  | native (snippet : Snippet)

/-- Text of the caller's own with the arguments for its placeholders. -/
inductive Snippet where
  | mk (text : String) (arguments : List Argument)

/-- An argument of a call or of a snippet. -/
inductive Argument where
  | value (value : Value)
  | mapping (bindings : Dict Value)
  | clause (clause : Clause)
  | paging (paging : Paging)

/-- The condition of a HAVING clause. -/
inductive Having where
  | condition (condition : Condition)
  | text (snippet : Snippet)

/-- Anything that adds text to a query. -/
inductive Clause where
  | condition (condition : Condition)
  | groupBy (fields : Fields)
  | orderBy (fields : Fields)
  | having (having : Having)
  | sub (snippet : Snippet)
  | native (snippet : Snippet)
  | aggregate (aggregate : Aggregate)

end

/-- The right side of a comparison as a caller writes it. -/
inductive Operand where
  | scalar (value : Value)
  | null
  | nested (clause : Clause)
  | marked (mark : Mark)

/-- One field and the value that an update gives it. -/
structure Assignment where
  field : Field
  value : Value

namespace Snippet

def text : Snippet → String
  | .mk text _ => text

def arguments : Snippet → List Argument
  | .mk _ arguments => arguments

end Snippet

namespace Operand

/-- A value as the right side of a comparison; null is its own kind of right side. -/
def ofValue (value : Value) : Operand := if value.isNull then .null else .scalar value

end Operand

namespace Comparison

/-- The operator where none is given. -/
def defaultOperator : String := "="

def field : Comparison → Field
  | .bare field _ | .isNull field _ _ | .scalar field _ _ _ | .nested field _ _ _ => field

def operator? : Comparison → Option Phrase
  | .bare .. => none
  | .isNull _ operator _ | .scalar _ operator _ _ | .nested _ operator _ _ => operator

def name? : Comparison → Option Phrase
  | .bare .. => none
  | .isNull _ _ name | .scalar _ _ _ name | .nested _ _ _ name => name

/-- The text of an operator, with the default where none is given. -/
def operatorText (operator : Option Phrase) : String :=
  match operator with
  | some phrase => phrase.text
  | none => defaultOperator

def operator (comparison : Comparison) : String := operatorText comparison.operator?

def operand : Comparison → Operand
  | .bare _ mark => .marked mark
  | .isNull .. => .null
  | .scalar _ _ value _ => .scalar value.value
  | .nested _ _ clause _ => .nested clause

def isBare : Comparison → Bool
  | .bare .. => true
  | _ => false

/-- The comparison of a field with a right side. Blank operators and names count as not given, and a
bare field has none. -/
def ofParts (field : String) (operator : Option String) (operand : Operand)
    (name : Option String) : Except Fault Comparison := do
  let field ← Field.ofText field
  let operator := operator.bind Phrase.of?
  let name := name.bind Phrase.of?
  return match operand with
    | .marked mark => .bare field mark
    | .null => .isNull field operator name
    | .nested clause => .nested field operator clause name
    | .scalar value =>
        match Present.of? value with
        | some value => .scalar field operator value name
        | none => .isNull field operator name

/-- A comparison without an operator of its own. -/
def of (field : String) (operand : Operand) : Except Fault Comparison :=
  ofParts field none operand none

def withOperator (field operator : String) (operand : Operand) : Except Fault Comparison :=
  ofParts field (some operator) operand none

def equal (field : String) (operand : Operand) : Except Fault Comparison :=
  withOperator field "=" operand

def unequal (field : String) (operand : Operand) : Except Fault Comparison :=
  withOperator field "!=" operand

def greater (field : String) (operand : Operand) : Except Fault Comparison :=
  withOperator field ">" operand

def atLeast (field : String) (operand : Operand) : Except Fault Comparison :=
  withOperator field ">=" operand

def less (field : String) (operand : Operand) : Except Fault Comparison :=
  withOperator field "<" operand

def atMost (field : String) (operand : Operand) : Except Fault Comparison :=
  withOperator field "<=" operand

def like (field : String) (operand : Operand) : Except Fault Comparison :=
  withOperator field "LIKE" operand

/-- Membership in a list, which is bound as one parameter. -/
def isIn (field : String) (values : List Value) : Except Fault Comparison :=
  withOperator field "IN" (.scalar (.list values))

/-- A bare field. -/
def bareField (field : String) (mark : Mark) : Except Fault Comparison := of field (.marked mark)

/-- Gives a comparison a parameter name; a bare field stays as it is. -/
def named (comparison : Comparison) (name : String) : Comparison :=
  let name := Phrase.of? name
  match comparison with
  | .bare field mark => .bare field mark
  | .isNull field operator _ => .isNull field operator name
  | .scalar field operator value _ => .scalar field operator value name
  | .nested field operator clause _ => .nested field operator clause name

end Comparison

namespace Group

/-- A group of one condition. -/
def of (child : Condition) : Group := .joined false child []

/-- A group of one comparison. -/
def ofComparison (field : String) (operand : Operand) : Except Fault Group := do
  return of (.comparison (← Comparison.of field operand))

def isNegated : Group → Bool
  | .empty negated | .joined negated _ _ => negated

def children : Group → List Condition
  | .empty _ => []
  | .joined _ first rest => first :: rest.map Prod.snd

/-- The conjunctions in order: each stands between two neighbouring conditions. -/
def conjunctions : Group → List Phrase
  | .empty _ => []
  | .joined _ _ rest => rest.map Prod.fst

def size (group : Group) : Nat := group.children.length

def isEmpty : Group → Bool
  | .empty _ => true
  | .joined .. => false

/-- Sets whether the group is negated. -/
def negateIf (negated : Bool) : Group → Group
  | .empty _ => .empty negated
  | .joined _ first rest => .joined negated first rest

def negate (group : Group) : Group := group.negateIf true

/-- Adds a condition behind a conjunction; the first condition needs none. -/
def join (group : Group) (conjunction : Phrase) (child : Condition) : Group :=
  match group with
  | .empty negated => .joined negated child []
  | .joined negated first rest => .joined negated first (rest ++ [(conjunction, child)])

def andPhrase : Phrase := ⟨"AND", by decide +kernel, by decide⟩

def orPhrase : Phrase := ⟨"OR", by decide +kernel, by decide⟩

def and (group : Group) (child : Condition) : Group := group.join andPhrase child

def or (group : Group) (child : Condition) : Group := group.join orPhrase child

/-- Adds a condition behind a conjunction given as text. The conjunction of the first condition is
not looked at; any other has to be a phrase. -/
def append (group : Group) (conjunction : String) (child : Condition) : Except Fault Group :=
  match group with
  | .empty negated => .ok (.joined negated child [])
  | .joined .. =>
      match Phrase.of? conjunction with
      | some conjunction => .ok (group.join conjunction child)
      | none => .error .emptyConjunction

/-- Like `append`, for a condition that may be missing. -/
def append? (group : Group) (conjunction : String) : Option Condition → Except Fault Group
  | some child => group.append conjunction child
  | none => .error .missingChild

theorem length_conjunctions (group : Group) :
    group.conjunctions.length = group.children.length - 1 := by
  cases group <;> simp [conjunctions, children]

end Group

end BoundQuery
