import BoundQuery.Text.Alphabet
import BoundQuery.Text.Blank
import BoundQuery.Text.Digits

/-!
# Search patterns

A caller's pattern tells which fields already carry an alias. How patterns are read and searched for
is a matter of the engine at hand, so scopes, settings and requests take a `PatternReader` as a
parameter, and what is said of them is said for each one.

The reader of this module, `Pattern.search?`, is the one that the program runs with, so it is the
one that those functions take where none is given. It knows regular expressions of literals, `.`,
classes, groups, alternatives, repetitions, the two ends of the text, and the escapes for words,
digits and blanks. Flags, word boundaries, properties of characters, characters by number, named
classes and operations on classes are refused. `Pattern.parse?` reads an expression, `Pattern.ends`
gives what is left of a text after each way to match at its front, and `Pattern.found` searches at
every place.
-/

namespace BoundQuery

/-- Reads the text of a pattern: gives the search for it, or nothing where it spells no pattern. -/
abbrev PatternReader := String → Option (String → Bool)

/-- Sets of characters. -/
inductive CharSet where
  | range (low high : Char)
  | word
  | digit
  | blank
  | union (sets : List CharSet)
  | complement (set : CharSet)

namespace CharSet

mutual

def has (c : Char) : CharSet → Bool
  | .range low high => low ≤ c && c ≤ high
  | .word => Text.isWord c
  | .digit => Text.isWordDigit c
  | .blank => Text.isBlank c
  | .union sets => anyHas c sets
  | .complement set => !set.has c

def anyHas (c : Char) : List CharSet → Bool
  | [] => false
  | set :: rest => set.has c || anyHas c rest

end

def single (c : Char) : CharSet := .range c c

/-- Every character but the line feed. -/
def anyButNewline : CharSet := .complement (single '\n')

end CharSet

/-- A regular expression with anchors. -/
inductive Pattern where
  | empty
  | atStart
  | atEnd
  | one (set : CharSet)
  | seq (first second : Pattern)
  | alt (left right : Pattern)
  | star (body : Pattern)
  | named (name : List Char) (body : Pattern)

namespace Pattern

/-- The names of the groups, from left to right. -/
def names : Pattern → List (List Char)
  | .empty | .atStart | .atEnd | .one _ => []
  | .seq first second | .alt first second => first.names ++ second.names
  | .star body => body.names
  | .named name body => name :: body.names

/-- Suffixes of one text, each length once. -/
def distinct (suffixes : List (List Char)) : List (List Char) :=
  suffixes.eraseDupsBy fun a b => a.length == b.length

/-- What is left after any number of steps, up to a bound, from what is left already. -/
def repeated (step : List Char → List (List Char)) : Nat → List (List Char) → List (List Char)
  | 0, seen => seen
  | rounds + 1, seen => repeated step rounds (distinct (seen ++ seen.flatMap step))

/-- What is left of `cs`, the end of a text of `whole` characters, after each way to match at its
front. -/
def ends (whole : Nat) : Pattern → List Char → List (List Char)
  | .empty, cs => [cs]
  | .atStart, cs => if cs.length = whole then [cs] else []
  | .atEnd, cs => if cs.isEmpty then [cs] else []
  | .one _, [] => []
  | .one set, c :: rest => if set.has c then [rest] else []
  | .seq first second, cs => distinct ((ends whole first cs).flatMap (ends whole second))
  | .alt left right, cs => distinct (ends whole left cs ++ ends whole right cs)
  | .star body, cs => repeated (ends whole body) cs.length [cs]
  | .named _ body, cs => ends whole body cs

/-- Whether a pattern matches at the front of one of the suffixes of a list. -/
def foundIn (whole : Nat) (pattern : Pattern) : List Char → Bool
  | [] => !(pattern.ends whole []).isEmpty
  | c :: rest => !(pattern.ends whole (c :: rest)).isEmpty || foundIn whole pattern rest

/-- Whether a pattern matches anywhere in a text. -/
def found (pattern : Pattern) (text : String) : Bool :=
  let cs := text.toList
  pattern.foundIn cs.length cs

/-! ## Reading patterns -/

/-- The set that an escaped letter stands for. -/
def escapedSet? (c : Char) : Option CharSet :=
  match c with
  | 'w' => some .word
  | 'W' => some (.complement .word)
  | 'd' => some .digit
  | 'D' => some (.complement .digit)
  | 's' => some .blank
  | 'S' => some (.complement .blank)
  | _ => none

/-- The character that an escaped one stands for: itself if it is ASCII punctuation, or a control
character. -/
def escapedChar? (c : Char) : Option Char :=
  match c with
  | 'n' => some '\n'
  | 't' => some '\t'
  | 'r' => some '\r'
  | 'f' => some '\x0c'
  | 'v' => some '\x0b'
  | 'a' => some '\x07'
  | _ => if c.toNat < 0x80 && !c.isAlphanum && c ≠ '<' && c ≠ '>' then some c else none

/-- Reads one character or escape inside a class. -/
def readMember : List Char → Option (CharSet × Option Char × List Char)
  | '\\' :: c :: rest =>
      match escapedSet? c, escapedChar? c with
      | some set, _ => some (set, none, rest)
      | none, some c => some (.single c, some c, rest)
      | none, none => none
  | '\\' :: [] => none
  | c :: rest => some (.single c, some c, rest)
  | [] => none

/-- What follows the opening bracket of a class: a mark of negation, the dashes in front, which
stand for themselves, and the characters after them. -/
structure ClassHead where
  negated : Bool
  dashes : List Char
  rest : List Char

def readClassHead (cs : List Char) : ClassHead :=
  let (negated, inside) := match cs with
    | '^' :: inside => (true, inside)
    | _ => (false, cs)
  let dashes := inside.takeWhile (· = '-')
  ⟨negated, dashes, inside.drop dashes.length⟩

/-- The set of a class with given members behind its head. -/
def ClassHead.close (head : ClassHead) (members : List CharSet) : CharSet :=
  let set : CharSet := .union (head.dashes.map .single ++ members)
  if head.negated then .complement set else set

/-- Reads a member of a class: one character or escape, or a range between two characters in order.
A dash before the closing bracket or before another dash makes no range. -/
def readRange (cs : List Char) : Option (CharSet × List Char) := do
  let (set, low, rest) ← readMember cs
  match rest with
  | '-' :: next :: more =>
      if next = ']' || next = '-' then return (set, rest)
      let (_, high, rest) ← readMember (next :: more)
      let low ← low
      let high ← high
      if low ≤ high then return (.range low high, rest) else none
  | _ => return (set, rest)

/-- Whether a class goes on with an operation on classes, or with a class that has a name. -/
def startsClassSyntax : List Char → Bool
  | '&' :: '&' :: _ | '-' :: '-' :: _ | '~' :: '~' :: _ | '[' :: ':' :: _ => true
  | _ => false

/-- Reads the members of a class up to its closing bracket; `first` tells whether a closing bracket
would still be a member. -/
def readClass : Nat → Bool → List Char → Option (List CharSet × List Char)
  | 0, _, _ => none
  | _, _, [] => none
  | fuel + 1, first, c :: rest =>
      if c = ']' && !first then some ([], rest)
      else if startsClassSyntax (c :: rest) then none
      else if c = '[' then do
        let head := readClassHead rest
        let (inner, rest) ← readClass fuel head.dashes.isEmpty head.rest
        let (others, rest) ← readClass fuel false rest
        return (head.close inner :: others, rest)
      else do
        let (set, rest) ← readRange (c :: rest)
        let (others, rest) ← readClass fuel false rest
        return (set :: others, rest)

/-- A pattern a given number of times in a row. -/
def times (pattern : Pattern) : Nat → Pattern
  | 0 => .empty
  | n + 1 => .seq pattern (times pattern n)

def optional (pattern : Pattern) : Pattern := .alt pattern .empty

/-- Reads the counts of a repetition after its opening brace: a least count, and a most one unless
there is none. -/
def readCounts (cs : List Char) : Option (Nat × Option Nat × List Char) :=
  let low := cs.takeWhile Text.isDigit
  let rest := cs.drop low.length
  if low.isEmpty then none
  else
    let least := Text.digitsValue low
    match rest with
    | '\x7d' :: rest => some (least, some least, rest)
    | ',' :: '\x7d' :: rest => some (least, none, rest)
    | ',' :: rest =>
        let high := rest.takeWhile Text.isDigit
        match rest.drop high.length with
        | '\x7d' :: rest =>
            let most := Text.digitsValue high
            if high.isEmpty || most < least then none else some (least, some most, rest)
        | _ => none
    | _ => none

/-- Skips the mark of a reluctant repetition, which changes no search. -/
def skipReluctant : List Char → List Char
  | '?' :: rest => rest
  | cs => cs

/-- Reads the repetitions behind a pattern. -/
def readRepeats : Nat → Pattern → List Char → Option (Pattern × List Char)
  | 0, _, _ => none
  | fuel + 1, body, cs =>
      match cs with
      | '*' :: rest => readRepeats fuel (.star body) (skipReluctant rest)
      | '+' :: rest => readRepeats fuel (.seq body (.star body)) (skipReluctant rest)
      | '?' :: rest => readRepeats fuel body.optional (skipReluctant rest)
      | '\x7b' :: rest => do
          let (least, most, rest) ← readCounts rest
          let more : Pattern := match most with
            | some most => body.optional.times (most - least)
            | none => .star body
          readRepeats fuel (.seq (body.times least) more) (skipReluctant rest)
      | _ => some (body, cs)

/-- Reads what may stand between a group's opening parenthesis and its content: nothing, the mark of
an unnumbered group, or a name. Gives what becomes of the content, and the characters after. -/
def readGroupHead : List Char → Option ((Pattern → Pattern) × List Char)
  | '?' :: ':' :: rest => some (id, rest)
  | '?' :: 'P' :: '<' :: rest | '?' :: '<' :: rest =>
      let name := rest.takeWhile fun c => c.isAlphanum || c = '_'
      match name, rest.drop name.length with
      | c :: _, '>' :: rest => if Text.isDigit c then none else some (.named name, rest)
      | _, _ => none
  | '?' :: _ => none
  | cs => some (id, cs)

mutual

/-- Reads alternatives; also gives the characters after them. -/
def readAlternatives : Nat → List Char → Option (Pattern × List Char)
  | 0, _ => none
  | fuel + 1, cs => do
      let (left, rest) ← readSequence fuel cs
      match rest with
      | '|' :: rest =>
          let (right, rest) ← readAlternatives fuel rest
          return (.alt left right, rest)
      | _ => return (left, rest)

/-- Reads a sequence up to a bar, a closing parenthesis or the end. -/
def readSequence : Nat → List Char → Option (Pattern × List Char)
  | 0, _ => none
  | _, [] => some (.empty, [])
  | fuel + 1, c :: rest =>
      if c = '|' || c = ')' then some (.empty, c :: rest)
      else do
        let (body, rest) ← readAtom fuel (c :: rest)
        let (body, rest) ← readRepeats (rest.length + 1) body rest
        let (others, rest) ← readSequence fuel rest
        return (.seq body others, rest)

/-- Reads one pattern without its repetitions. -/
def readAtom : Nat → List Char → Option (Pattern × List Char)
  | 0, _ => none
  | _, [] => none
  | fuel + 1, c :: rest =>
      match c with
      | '(' => do
          let (group, inside) ← readGroupHead rest
          let (body, rest) ← readAlternatives fuel inside
          match rest with
          | ')' :: rest => return (group body, rest)
          | _ => none
      | '[' => do
          let head := readClassHead rest
          let (sets, rest) ← readClass fuel head.dashes.isEmpty head.rest
          return (.one (head.close sets), rest)
      | '.' => some (.one .anyButNewline, rest)
      | '^' => some (.atStart, rest)
      | '$' => some (.atEnd, rest)
      | '\\' =>
          match rest with
          | 'A' :: rest => some (.atStart, rest)
          | 'z' :: rest => some (.atEnd, rest)
          | _ => (readMember (c :: rest)).map fun (set, _, rest) => (.one set, rest)
      | '*' | '+' | '?' | '\x7b' => none
      | c => some (.one (.single c), rest)

end

/-- The pattern that a text spells; no two groups have the same name. -/
def parse? (text : String) : Option Pattern :=
  let cs := text.toList
  match readAlternatives (4 * cs.length + 4) cs with
  | some (pattern, []) => if pattern.names.Nodup then some pattern else none
  | _ => none

/-- The reader of patterns that the program runs with. -/
def search? : PatternReader := fun text => (parse? text).map found

end Pattern

end BoundQuery
