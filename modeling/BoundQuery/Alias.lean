import BoundQuery.Alias.Pattern
import BoundQuery.Fault
import BoundQuery.Field
import BoundQuery.Text.Alphabet
import BoundQuery.Text.Blank

/-!
# Aliases and the fields that carry them

A query gives its entity an alias, and fields are written behind it: `e.name`. A field that already
carries the alias is left as it is. By the standard rule it carries the alias when, blanks around
it apart, it is the alias; when it starts with the alias and a point; when the alias and a point
follow a character that cannot stand in a word; or when the alias stands alone in parentheses, as in
`COUNT(e)`. Only the space character counts as a blank here. A caller's pattern can replace the
rule.
-/

namespace BoundQuery

namespace Alias

/-- A character that an alias may start with. -/
def isFirst (c : Char) : Bool := Text.isAlphabetic c || c = '_'

/-- A character that an alias may contain. -/
def isPart (c : Char) : Bool := Text.isAlphanumeric c || c = '_' || c = '$'

/-- Whether characters form an identifier. -/
def isIdentifier : List Char → Bool
  | [] => false
  | c :: rest => isFirst c && (c :: rest).all isPart

end Alias

/-- An identifier that stands for the entity of a query. -/
structure Alias where
  text : String
  identifier : Alias.isIdentifier text.toList = true
  deriving DecidableEq

namespace Alias

/-- The alias where settings give none. -/
def standard : String := "e"

/-- The alias inside a text, blanks around it apart. -/
def ofText (text : String) : Except Fault Alias :=
  if h : isIdentifier (Text.trim text).toList = true then .ok ⟨Text.trim text, h⟩
  else .error (.badAlias (Text.trim text))

/-- What follows a given front part of some characters. -/
def after? : List Char → List Char → Option (List Char)
  | [], cs => some cs
  | _ :: _, [] => none
  | a :: front, c :: rest => if a = c then after? front rest else none

def skipSpaces (cs : List Char) : List Char := cs.dropWhile (· = ' ')

/-- Whether a field is the alias alone, spaces apart; here and below `name` is the alias. -/
def isAlone (name field : List Char) : Bool :=
  match after? name (skipSpaces field) with
  | some rest => (skipSpaces rest).isEmpty
  | none => false

/-- Whether characters start with the alias and a point. -/
def startsPath (name field : List Char) : Bool := (after? (name ++ ['.']) field).isSome

/-- Whether the alias and a point follow a character that cannot stand in a word. -/
def followsNonWord (name : List Char) : List Char → Bool
  | [] => false
  | c :: rest => (!Text.isWord c && startsPath name rest) || followsNonWord name rest

/-- Whether the alias, spaces apart, comes before a closing parenthesis. -/
def closes (name field : List Char) : Bool :=
  match after? name (skipSpaces field) with
  | some rest => (after? [')'] (skipSpaces rest)).isSome
  | none => false

/-- Whether the alias stands alone in parentheses somewhere. -/
def inParentheses (name : List Char) : List Char → Bool
  | [] => false
  | c :: rest => (c = '(' && closes name rest) || inParentheses name rest

/-- The standard rule for fields that carry an alias. -/
def carriedBy (name field : List Char) : Bool :=
  isAlone name field || startsPath name (skipSpaces field) || followsNonWord name field ||
    inParentheses name field

theorem after?_append (front rest : List Char) : after? front (front ++ rest) = some rest := by
  induction front with
  | nil => simp [after?]
  | cons c front ih => simp [after?, ih]

end Alias

/-- How to tell that a field carries an alias: by the standard rule, or by a caller's search. -/
inductive Marking where
  | standard
  | search (found : String → Bool)

/-- An alias and the rule for the fields that carry it. -/
structure Scope where
  entityAlias : Alias
  marking : Marking

namespace Scope

/-- The scope of an alias under the standard rule. -/
def ofAlias (text : String) : Except Fault Scope := do return ⟨← Alias.ofText text, .standard⟩

/-- The scope of an alias under a caller's pattern; the alias is checked first. -/
def ofPattern (text pattern : String) (read : PatternReader := Pattern.search?) :
    Except Fault Scope := do
  let entityAlias ← Alias.ofText text
  match read pattern with
  | some found => return ⟨entityAlias, .search found⟩
  | none => .error (.badPattern pattern)

/-- Whether a field carries the alias. -/
def carries (scope : Scope) (field : String) : Bool :=
  match scope.marking with
  | .standard => Alias.carriedBy scope.entityAlias.text.toList field.toList
  | .search found => found field

/-- The field behind the alias, unless it carries the alias already. -/
def qualify (scope : Scope) (field : String) : String :=
  if scope.carries field then field else scope.entityAlias.text ++ "." ++ field

/-- The fields of a list behind the alias, separated by commas. -/
def qualifyAll (scope : Scope) (fields : List String) : String :=
  ", ".intercalate (fields.map scope.qualify)

/-- A clause of a keyword and fields, with a space in front. -/
def fieldClause (scope : Scope) (keyword : String) (fields : Fields) : String :=
  " " ++ keyword ++ " " ++ scope.qualifyAll (fields.toList.map (·.text))

end Scope

end BoundQuery
