/-!
# JSON documents

A document is a tree as it was found in a text. Numbers keep their spelling. Text that stops being
JSON is a leaf, `cut`, at the place where it stops, so that a decoder which walks the tree in order
meets the first fault of the text where it stands. A string whose escapes name half a surrogate
pair is the leaf `unpaired`, and a key of that kind is `none`: they do no harm where nobody reads
them. `compact` and `pretty` write a tree.
-/

namespace BoundQuery

/-- A JSON document. -/
inductive Json where
  | null
  | boolean (b : Bool)
  | number (spelling : String)
  | string (s : String)
  | unpaired
  | array (items : List Json)
  | object (members : List (Option String × Json))
  | cut

namespace Json

/-- An object with given members. -/
def record (members : List (String × Json)) : Json :=
  .object (members.map fun (key, value) => (some key, value))

def ofNat (n : Nat) : Json := .number (toString n)

def ofInt (n : Int) : Json := .number (toString n)

/-- A string, or null where there is none. -/
def ofString? : Option String → Json
  | some s => .string s
  | none => .null

/-- A member that is left out where there is no value. -/
def optional (key : String) : Option Json → List (String × Json)
  | some value => [(key, value)]
  | none => []

/-- A list as a member that is left out where the list is empty. -/
def unlessEmpty (key : String) (items : List Json) : List (String × Json) :=
  if items.isEmpty then [] else [(key, .array items)]

mutual

/-- Whether a document is JSON to its end. -/
def isIntact : Json → Bool
  | .array items => areIntact items
  | .object members => membersIntact members
  | .cut => false
  | _ => true

def areIntact : List Json → Bool
  | [] => true
  | item :: rest => item.isIntact && areIntact rest

def membersIntact : List (Option String × Json) → Bool
  | [] => true
  | (_, value) :: rest => value.isIntact && membersIntact rest

end

mutual

/-- How deep arrays and objects nest. -/
def depth : Json → Nat
  | .array items => itemsDepth items + 1
  | .object members => membersDepth members + 1
  | _ => 0

def itemsDepth : List Json → Nat
  | [] => 0
  | item :: rest => max item.depth (itemsDepth rest)

def membersDepth : List (Option String × Json) → Nat
  | [] => 0
  | (_, value) :: rest => max value.depth (membersDepth rest)

end

/-- A digit of a number in base sixteen, in lower case. -/
def hexDigit (n : Nat) : Char := Nat.digitChar (n % 16)

/-- A character as it stands in a string: only quotes, backslashes and control characters are
escaped. -/
def escape (c : Char) : List Char :=
  if c = '"' then ['\\', '"']
  else if c = '\\' then ['\\', '\\']
  else if c = '\x08' then ['\\', 'b']
  else if c = '\x0c' then ['\\', 'f']
  else if c = '\n' then ['\\', 'n']
  else if c = '\r' then ['\\', 'r']
  else if c = '\t' then ['\\', 't']
  else if c.toNat < 0x20 then
    ['\\', 'u', '0', '0', hexDigit (c.toNat / 16), hexDigit c.toNat]
  else [c]

/-- A string in its quotes. -/
def quoted (s : String) : List Char := '"' :: s.toList.flatMap escape ++ ['"']

/-- A key in its quotes; a key that names no text is written as an empty one. -/
def quotedKey (key : Option String) : List Char := quoted (key.getD "")

mutual

/-- The characters of a document without blanks. -/
def chars : Json → List Char
  | .null | .unpaired | .cut => "null".toList
  | .boolean b => (if b then "true" else "false").toList
  | .number spelling => spelling.toList
  | .string s => quoted s
  | .array items => '[' :: itemsChars items ++ [']']
  | .object members => '\x7b' :: membersChars members ++ ['\x7d']

def itemsChars : List Json → List Char
  | [] => []
  | [item] => item.chars
  | item :: rest => item.chars ++ ',' :: itemsChars rest

def membersChars : List (Option String × Json) → List Char
  | [] => []
  | [(key, value)] => quotedKey key ++ ':' :: value.chars
  | (key, value) :: rest => quotedKey key ++ ':' :: value.chars ++ ',' :: membersChars rest

end

/-- A document on one line, without blanks. -/
def compact (json : Json) : String := String.ofList json.chars

/-- A line break and the blanks of a level of nesting, two for each. -/
def newline (level : Nat) : List Char := '\n' :: List.replicate (2 * level) ' '

mutual

/-- The characters of a document with one item or member a line, at a level of nesting. -/
def prettyChars (level : Nat) : Json → List Char
  | .array [] => ['[', ']']
  | .array items =>
      '[' :: newline (level + 1) ++ prettyItems (level + 1) items ++ newline level ++ [']']
  | .object [] => ['\x7b', '\x7d']
  | .object members =>
      '\x7b' :: newline (level + 1) ++ prettyMembers (level + 1) members ++ newline level ++
        ['\x7d']
  | leaf => leaf.chars

def prettyItems (level : Nat) : List Json → List Char
  | [] => []
  | [item] => prettyChars level item
  | item :: rest => prettyChars level item ++ ',' :: newline level ++ prettyItems level rest

def prettyMembers (level : Nat) : List (Option String × Json) → List Char
  | [] => []
  | [(key, value)] => quotedKey key ++ ':' :: ' ' :: prettyChars level value
  | (key, value) :: rest =>
      quotedKey key ++ ':' :: ' ' :: prettyChars level value ++ ',' :: newline level ++
        prettyMembers level rest

end

/-- A document with one item or member a line, indented by two blanks a level. -/
def pretty (json : Json) : String := String.ofList (prettyChars 0 json)

end Json

end BoundQuery
