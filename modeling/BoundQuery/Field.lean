import BoundQuery.Fault
import BoundQuery.Text.Blank

/-!
# Fields

A field is the text of a column, a path or an expression, kept as a phrase. Its default parameter
name is the path with points turned into underscores. A list of fields is never empty; written as
one text, its fields stand between commas.
-/

namespace BoundQuery

/-- A column, a path or an expression. -/
abbrev Field := Phrase

namespace Field

/-- The field inside a text; a blank text is a fault. -/
def ofText (text : String) : Except Fault Field :=
  match Phrase.of? text with
  | some field => .ok field
  | none => .error .emptyField

/-- The name of the parameter that belongs to a field when no name is given. -/
def parameterName (field : Field) : String :=
  String.ofList (field.text.toList.map fun c => if c = '.' then '_' else c)

end Field

/-- Fields in order, at least one. -/
structure Fields where
  first : Field
  rest : List Field
  deriving DecidableEq

namespace Fields

def toList (fields : Fields) : List Field := fields.first :: fields.rest

def size (fields : Fields) : Nat := fields.rest.length + 1

def ofList : List Field → Except Fault Fields
  | [] => .error .emptyFields
  | first :: rest => .ok ⟨first, rest⟩

/-- The fields inside some texts; the first blank one is the fault. -/
def ofTexts (texts : List String) : Except Fault Fields := do
  ofList (← texts.mapM Field.ofText)

/-- The parts of a list of characters between its commas. -/
def betweenCommas : List Char → List (List Char)
  | [] => [[]]
  | c :: rest =>
      if c = ',' then [] :: betweenCommas rest
      else match betweenCommas rest with
        | part :: parts => (c :: part) :: parts
        | [] => [[c]]

/-- The fields of a text in which commas part them. -/
def parse (text : String) : Except Fault Fields :=
  ofTexts ((betweenCommas text.toList).map String.ofList)

@[simp] theorem toList_ne_nil (fields : Fields) : fields.toList ≠ [] := by
  simp [toList]

@[simp] theorem ofList_toList (fields : Fields) : ofList fields.toList = .ok fields := rfl

end Fields

end BoundQuery
