import BoundQuery.Json.Basic
import BoundQuery.Text.Digits

/-!
# Reading JSON

`Json.read` turns a text into a document and tells whether nothing but blanks follows it. Reading
never fails: where the text stops being JSON the document has a `cut`. The grammar is the strict
one: no comments, no trailing commas, no leading zeros, no control characters inside strings.
-/

namespace BoundQuery.Json

/-- The four blanks of JSON. -/
def isSpace (c : Char) : Bool := c = ' ' || c = '\t' || c = '\n' || c = '\r'

def skipSpace (cs : List Char) : List Char := cs.dropWhile isSpace

/-- The value of a digit of base sixteen. -/
def hexValue? (c : Char) : Option Nat :=
  if Text.isDigit c then some (c.toNat - '0'.toNat)
  else if 'a' ≤ c && c ≤ 'f' then some (c.toNat - 'a'.toNat + 10)
  else if 'A' ≤ c && c ≤ 'F' then some (c.toNat - 'A'.toNat + 10)
  else none

/-- The character that a one-letter escape stands for. -/
def shortEscape? (c : Char) : Option Char :=
  if c = '"' || c = '\\' || c = '/' then some c
  else if c = 'b' then some '\x08'
  else if c = 'f' then some '\x0c'
  else if c = 'n' then some '\n'
  else if c = 'r' then some '\r'
  else if c = 't' then some '\t'
  else none

/-- Reads the inside of a string up to its closing quote: the code of each character, where an
escape by four digits counts as it stands, and the characters after the quote. -/
def readCodes : List Char → Option (List Nat × List Char)
  | [] => none
  | '\\' :: 'u' :: a :: b :: c :: d :: rest => do
      let a ← hexValue? a
      let b ← hexValue? b
      let c ← hexValue? c
      let d ← hexValue? d
      let (codes, rest) ← readCodes rest
      return ((((a * 16 + b) * 16 + c) * 16 + d) :: codes, rest)
  | '\\' :: c :: rest => do
      let c ← shortEscape? c
      let (codes, rest) ← readCodes rest
      return (c.toNat :: codes, rest)
  | c :: rest =>
      if c = '"' then some ([], rest)
      else if c = '\\' || c.toNat < 0x20 then none
      else do
        let (codes, rest) ← readCodes rest
        return (c.toNat :: codes, rest)

/-- The characters with given codes; two codes that form a surrogate pair are one character, and
half a pair is no character. -/
def pairCodes : List Nat → Option (List Char)
  | [] => some []
  | high :: low :: rest =>
      if 0xD800 ≤ high && high < 0xDC00 then
        if 0xDC00 ≤ low && low < 0xE000 then
          (pairCodes rest).map
            (Char.ofNat (0x10000 + (high - 0xD800) * 0x400 + (low - 0xDC00)) :: ·)
        else none
      else if 0xDC00 ≤ high && high < 0xE000 then none
      else (pairCodes (low :: rest)).map (Char.ofNat high :: ·)
  | [code] => if 0xD800 ≤ code && code < 0xE000 then none else some [Char.ofNat code]

/-- Reads one or more digits. -/
def readDigits (cs : List Char) : Option (List Char × List Char) :=
  let digits := cs.takeWhile Text.isDigit
  if digits.isEmpty then none else some (digits, cs.drop digits.length)

/-- Reads the digits before a number's point: a zero alone, or no zero in front. -/
def readWhole (cs : List Char) : Option (List Char × List Char) := do
  let (digits, rest) ← readDigits cs
  match digits with
  | '0' :: _ :: _ => none
  | _ => return (digits, rest)

/-- Reads a point and the digits after it, if a point is there. -/
def readFraction (cs : List Char) : Option (List Char × List Char) :=
  match cs with
  | '.' :: rest => do
      let (digits, rest) ← readDigits rest
      return ('.' :: digits, rest)
  | _ => some ([], cs)

/-- Reads an exponent, if one is there. -/
def readExponent (cs : List Char) : Option (List Char × List Char) :=
  match cs with
  | [] => some ([], [])
  | mark :: rest =>
      if mark = 'e' || mark = 'E' then
        match rest with
        | '+' :: rest => (readDigits rest).map fun (digits, rest) => (mark :: '+' :: digits, rest)
        | '-' :: rest => (readDigits rest).map fun (digits, rest) => (mark :: '-' :: digits, rest)
        | _ => (readDigits rest).map fun (digits, rest) => (mark :: digits, rest)
      else some ([], cs)

/-- Reads a number's spelling. -/
def readNumber (cs : List Char) : Option (List Char × List Char) := do
  let (sign, rest) := match cs with
    | '-' :: rest => (['-'], rest)
    | _ => ([], cs)
  let (whole, rest) ← readWhole rest
  let (fraction, rest) ← readFraction rest
  let (exponent, rest) ← readExponent rest
  return (sign ++ whole ++ fraction ++ exponent, rest)

/-- A document that is a word, if the text starts with the word. -/
def readWord (word : String) (json : Json) (cs : List Char) : Json × List Char :=
  if word.toList.isPrefixOf cs then (json, cs.drop word.toList.length) else (.cut, [])

mutual

/-- Reads a document; also gives the characters after it. -/
def readValue : Nat → List Char → Json × List Char
  | 0, _ => (.cut, [])
  | fuel + 1, cs =>
      match skipSpace cs with
      | [] => (.cut, [])
      | c :: rest =>
          if c = '"' then
            match readCodes rest with
            | none => (.cut, [])
            | some (codes, rest) =>
                match pairCodes codes with
                | some text => (.string (String.ofList text), rest)
                | none => (.unpaired, rest)
          else if c = '[' then
            match skipSpace rest with
            | ']' :: rest => (.array [], rest)
            | rest =>
                let (items, rest) := readItems fuel rest
                (.array items, rest)
          else if c = '\x7b' then
            match skipSpace rest with
            | '\x7d' :: rest => (.object [], rest)
            | rest =>
                let (members, rest) := readMembers fuel rest
                (.object members, rest)
          else if c = 'n' then readWord "null" .null (c :: rest)
          else if c = 't' then readWord "true" (.boolean true) (c :: rest)
          else if c = 'f' then readWord "false" (.boolean false) (c :: rest)
          else
            match readNumber (c :: rest) with
            | some (spelling, rest) => (.number (String.ofList spelling), rest)
            | none => (.cut, [])

/-- Reads the items of an array and its closing bracket. -/
def readItems : Nat → List Char → List Json × List Char
  | 0, _ => ([.cut], [])
  | fuel + 1, cs =>
      let (item, rest) := readValue fuel cs
      match skipSpace rest with
      | ',' :: rest =>
          let (items, rest) := readItems fuel rest
          (item :: items, rest)
      | ']' :: rest => ([item], rest)
      | _ => ([item, .cut], [])

/-- Reads the members of an object and its closing brace. -/
def readMembers : Nat → List Char → List (Option String × Json) × List Char
  | 0, _ => ([(none, .cut)], [])
  | fuel + 1, cs =>
      match skipSpace cs with
      | '"' :: rest =>
          match readCodes rest with
          | none => ([(none, .cut)], [])
          | some (codes, rest) =>
              let key := (pairCodes codes).map String.ofList
              match skipSpace rest with
              | ':' :: rest =>
                  let (value, rest) := readValue fuel rest
                  match skipSpace rest with
                  | ',' :: rest =>
                      let (members, rest) := readMembers fuel rest
                      ((key, value) :: members, rest)
                  | '\x7d' :: rest => ([(key, value)], rest)
                  | _ => ([(key, value), (none, .cut)], [])
              | _ => ([(key, .cut)], [])
      | _ => ([(none, .cut)], [])

end

/-- Reads a document from the front of some characters; also gives the characters after it. Every
step takes a character or hands over to the next one, so twice as many steps as there are
characters are enough. -/
def readFront (cs : List Char) : Json × List Char := readValue (2 * cs.length + 2) cs

/-- The document that a text holds, and whether only blanks follow it. -/
def read (text : String) : Json × Bool :=
  let (json, rest) := readFront text.toList
  (json, (skipSpace rest).isEmpty)

end BoundQuery.Json
