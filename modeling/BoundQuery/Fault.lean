import BoundQuery.Text.Span
import BoundQuery.Value

/-!
# Faults and their codes

A fault is why a tree cannot be built or a query not be compiled. Every fault has a code; codes come
in ranges, one per kind of trouble, and some carry a standing advice. The wording of each fault that
this library raises is given once, beside its cause; `Fault.message` is the one line that shows it.
-/

namespace BoundQuery

/-- The number that identifies a kind of fault. -/
structure Code where
  number : UInt16
  deriving DecidableEq, Repr

namespace Code

def emptyField : Code := ⟨1⟩
def emptyConjunction : Code := ⟨2⟩
def missingChild : Code := ⟨3⟩
def emptyList : Code := ⟨4⟩
def conflict : Code := ⟨100⟩
def wrongArgument : Code := ⟨101⟩
def unnamedValue : Code := ⟨102⟩
def miscount : Code := ⟨200⟩
def outOfSequence : Code := ⟨201⟩
def rowShape : Code := ⟨300⟩
def badAlias : Code := ⟨400⟩
def badPattern : Code := ⟨401⟩
def missingEntity : Code := ⟨402⟩

/-- The code as it is shown: the letters JPQ and at least four digits. -/
def text (code : Code) : String := "JPQ" ++ String.ofList (Text.padded 4 code.number.toNat)

/-- Whether a code is about the construction of a tree. -/
def isTree (code : Code) : Bool := 1 ≤ code.number && code.number < 100

/-- Whether a code is about the binding of parameters. -/
def isBinding (code : Code) : Bool := 100 ≤ code.number && code.number < 200

/-- Whether a code is about placeholders in a fragment. -/
def isPlaceholder (code : Code) : Bool := 200 ≤ code.number && code.number < 300

/-- Whether a code is about settings. -/
def isSettings (code : Code) : Bool := 400 ≤ code.number && code.number < 500

/-- What a code stands for. -/
def description (code : Code) : String :=
  match code.number.toNat with
  | 1 => "Empty field reference"
  | 2 => "Empty conjunction"
  | 3 => "Missing child criteria"
  | 4 => "Empty field list"
  | 100 => "Parameter conflict"
  | 101 => "Argument not valid for binding mode"
  | 102 => "Unnamed value in named mode"
  | 200 => "Placeholder count mismatch"
  | 201 => "Placeholder number out of sequence"
  | 300 => "Result row arity mismatch"
  | 400 => "Invalid alias"
  | 401 => "Invalid alias pattern"
  | 402 => "Missing entity name"
  | _ => "Unknown error"

/-- The standing advice of a code. -/
def advice? (code : Code) : Option String :=
  match code.number.toNat with
  | 2 => some "Every criteria after the first needs a conjunction such as AND or OR"
  | 100 => some "Give one of the comparisons an explicit parameter name"
  | 102 => some "Pass the values as a single mapping"
  | 400 => some "An alias is a non-empty identifier such as 'e'"
  | _ => none

end Code

/-- Why a tree cannot be built or a query not be compiled. -/
inductive Fault where
  /-- A tree that breaks a rule of construction. -/
  | malformed (code : Code) (what : String)
  /-- A name bound to two different values, neither of them null. -/
  | conflict (name : String) (existing incoming : Value)
  /-- A fragment with more or fewer placeholders than values. -/
  | miscount (fragment : String) (expected found : Nat)
  /-- A numbered placeholder that skips ahead of the values bound so far. -/
  | outOfSequence (fragment : String) (expected found : Nat) (span : Span)
  /-- An argument that its place or the binding style does not admit. -/
  | argument (code : Code) (what : String)
  /-- A result row with more or fewer values than the selector has columns. -/
  | rowShape (expected found : Nat)
  /-- A setting that is missing or wrong. -/
  | settings (code : Code) (what : String)

namespace Fault

def emptyField : Fault := .malformed .emptyField "field reference is empty"

def emptyConjunction : Fault := .malformed .emptyConjunction "conjunction text is empty"

def missingChild : Fault := .malformed .missingChild "criteria child is missing"

def emptyFields : Fault := .malformed .emptyList "field list is empty"

def noAssignments : Fault := .malformed .emptyList "update statement has no assignments"

/-- A mapping at a place, counted from one, other than the first. -/
def lateMapping (place : Nat) : Fault :=
  .argument .wrongArgument
    ("argument " ++ toString place ++ " is a mapping; only the first argument may be one")

/-- Something other than a plain value among the arguments of a fragment of some kind. -/
def notPlain (kind fragment got : String) : Fault :=
  .argument .wrongArgument
    (kind ++ " `" ++ fragment ++ "` accepts only plain values, got " ++ got)

def needsMapping (fragment : String) : Fault :=
  .argument .unnamedValue
    ("sub-expression `" ++ fragment ++ "` needs a single mapping in named mode")

def unnamedNative (value : Value) : Fault :=
  .argument .unnamedValue
    ("native fragment value " ++ value.describe ++ " has no name; pass a mapping")

def positionalMapping : Fault :=
  .argument .wrongArgument "native fragment mappings require named mode"

def notNative (shown : String) : Fault :=
  .argument .wrongArgument (shown ++ " is not a native fragment parameter")

def badAlias (text : String) : Fault :=
  .settings .badAlias ("alias `" ++ text ++ "` is not an identifier")

def badPattern (pattern : String) : Fault :=
  .settings .badPattern ("invalid alias pattern `" ++ pattern ++ "`")

def noEntity : Fault := .settings .missingEntity "no entity name configured"

def blankEntity : Fault := .settings .missingEntity "entity name is empty"

def code : Fault → Code
  | .malformed code _ => code
  | .conflict .. => .conflict
  | .miscount .. => .miscount
  | .outOfSequence .. => .outOfSequence
  | .argument code _ => code
  | .rowShape .. => .rowShape
  | .settings code _ => code

/-- The bytes of the fragment that a fault points at. -/
def span? : Fault → Option Span
  | .outOfSequence _ _ _ span => some span
  | _ => none

/-- Two counts, as messages give them. -/
def counts (expected found : Nat) : String :=
  "(expected " ++ toString expected ++ ", found " ++ toString found ++ ")"

def miscountText : String := "placeholder count does not match parameter count"

def sequenceText : String := "placeholder number out of sequence"

def rowShapeText (expected found : Nat) : String :=
  "result row has " ++ toString found ++ " columns, selector expects " ++ toString expected

/-- What went wrong, without the code. -/
def explain : Fault → String
  | .malformed _ what | .argument _ what | .settings _ what => what
  | .conflict name existing incoming =>
      "parameter \"" ++ name ++ "\" is bound to " ++ existing.describe ++
        ", cannot rebind to " ++ incoming.describe
  | .miscount fragment expected found =>
      miscountText ++ " in `" ++ fragment ++ "` " ++ counts expected found
  | .outOfSequence fragment expected found _ =>
      sequenceText ++ " in `" ++ fragment ++ "` " ++ counts expected found
  | .rowShape expected found => rowShapeText expected found

/-- The line that shows a fault: its code and what went wrong. -/
def message (fault : Fault) : String := fault.code.text ++ ": " ++ fault.explain

end Fault

end BoundQuery
