import BoundQuery.Text.Digits
import BoundQuery.Text.Span

/-!
# Placeholders in query text

Query text marks its parameters by `?`, `?N` and `:name`. A quoted literal hides what is inside it
(a doubled quote closes and reopens the literal at once), and a colon right after a colon is a
cast. `segments` cuts a text into single characters and placeholders; `spelling_segments` says that
the cut loses nothing. `placeholders` lists what was found with byte spans, and `substitute`
exchanges placeholders and leaves every other character alone.
-/

namespace BoundQuery

/-- What a placeholder refers to: a position, with its number if one is written, or a name. -/
inductive Placeholder.Kind where
  | positional (number : Option Nat)
  | named (name : String)
  deriving DecidableEq, Repr

/-- A placeholder and the bytes that it takes in its text. -/
structure Placeholder where
  kind : Placeholder.Kind
  span : Span
  deriving DecidableEq, Repr

namespace Placeholder

def Kind.isPositional : Kind → Bool
  | .positional _ => true
  | .named _ => false

def Kind.name? : Kind → Option String
  | .positional _ => none
  | .named name => some name

/-- A character of a parameter name: an ASCII letter or digit, an underscore or a dollar sign. -/
def isNameChar (c : Char) : Bool :=
  ('a' ≤ c && c ≤ 'z') || ('A' ≤ c && c ≤ 'Z') || Text.isDigit c || c = '_' || c = '$'

/-- The largest number that a placeholder can carry; a larger one counts as this one. -/
def largestNumber : Nat := twoTo 64 - 1

/-- The number after a question mark, if there is one. -/
def number? (digits : List Char) : Option Nat :=
  if digits.isEmpty then none else some (min (Text.digitsValue digits) largestNumber)

/-- A piece of query text: one character that is not part of a placeholder, or a placeholder with
the characters that spell it. -/
inductive Segment where
  | plain (c : Char)
  | marker (kind : Kind) (spelling : List Char)
  deriving DecidableEq, Repr

namespace Segment

def spelling : Segment → List Char
  | .plain c => [c]
  | .marker _ spelling => spelling

def kind? : Segment → Option Kind
  | .plain _ => none
  | .marker kind _ => some kind

end Segment

/-- Cuts characters into segments. `quoted` tells whether a literal is open, `afterColon` whether
the character before is a colon outside a literal, and `skip` how many characters the placeholder
before still takes. -/
def scan (quoted afterColon : Bool) : Nat → List Char → List Segment
  | _, [] => []
  | skip + 1, _ :: rest => scan quoted afterColon skip rest
  | 0, c :: rest =>
      if c = '\'' then .plain c :: scan (!quoted) false 0 rest
      else if quoted then .plain c :: scan true false 0 rest
      else if c = '?' then
        let digits := rest.takeWhile Text.isDigit
        .marker (.positional (number? digits)) (c :: digits) ::
          scan false false digits.length rest
      else if c = ':' then
        let name := rest.takeWhile isNameChar
        if afterColon || name.isEmpty then .plain c :: scan false true 0 rest
        else .marker (.named (String.ofList name)) (c :: name) :: scan false false name.length rest
      else .plain c :: scan false false 0 rest

/-- The segments of a text, in order. -/
def segments (text : String) : List Segment := scan false false 0 text.toList

/-- The characters that segments spell. -/
def spelled (parts : List Segment) : List Char := parts.flatMap Segment.spelling

@[simp] theorem spelled_nil : spelled [] = [] := rfl

@[simp] theorem spelled_cons (part : Segment) (rest : List Segment) :
    spelled (part :: rest) = part.spelling ++ spelled rest := rfl

@[simp] theorem spelled_append (front back : List Segment) :
    spelled (front ++ back) = spelled front ++ spelled back := List.flatMap_append

@[simp] theorem spelled_scan (quoted afterColon : Bool) (skip : Nat) (cs : List Char) :
    spelled (scan quoted afterColon skip cs) = cs.drop skip := by
  have hRun : ∀ (p : Char → Bool) (rest : List Char),
      rest.takeWhile p ++ rest.drop (rest.takeWhile p).length = rest :=
    fun p rest => List.prefix_iff_eq_append.mp (List.takeWhile_prefix p)
  induction cs generalizing quoted afterColon skip with
  | nil => simp [scan]
  | cons c rest ih =>
      cases skip with
      | succ skip => simp only [scan, List.drop_succ_cons]; exact ih quoted afterColon skip
      | zero =>
          simp only [scan, List.drop_zero]
          split
          · simp [Segment.spelling, ih]
          · split
            · simp [Segment.spelling, ih]
            · split
              · simp [Segment.spelling, ih, hRun]
              · split
                · split
                  · simp [Segment.spelling, ih]
                  · simp [Segment.spelling, ih, hRun]
                · simp [Segment.spelling, ih]

/-- The segments of a text spell its characters. -/
@[simp] theorem spelled_segments (text : String) : spelled (segments text) = text.toList := by
  rw [segments, spelled_scan, List.drop_zero]

/-- Cutting a text into segments loses nothing. -/
theorem spelling_segments (text : String) : String.ofList (spelled (segments text)) = text := by
  simp

/-- The placeholders among segments, the first of which starts at byte `start`. -/
def located (start : Nat) : List Segment → List Placeholder
  | [] => []
  | .plain c :: rest => located (start + c.utf8Size) rest
  | .marker kind spelling :: rest =>
      let stop := start + Text.byteLength spelling
      ⟨kind, start, stop⟩ :: located stop rest

end Placeholder

/-- The placeholders of a text, from left to right. -/
def placeholders (text : String) : List Placeholder :=
  Placeholder.located 0 (Placeholder.segments text)

namespace Placeholder

/-- Whether a text holds a positional placeholder. -/
def hasPositional (text : String) : Bool := (placeholders text).any (·.kind.isPositional)

/-- The names of a text's named placeholders, in order and with repetitions. -/
def names (text : String) : List String := (placeholders text).filterMap (·.kind.name?)

/-- The name of a text's first named placeholder. -/
def firstName? (text : String) : Option String := (names text).head?

/-- How many positional placeholders a text holds. -/
def positionalCount (text : String) : Nat :=
  (placeholders text).countP (·.kind.isPositional)

/-- Writes segments out again, with each placeholder exchanged for what `replace` answers, or kept
where it answers nothing. -/
def substituteFrom {m : Type → Type} [Monad m] (replace : Placeholder → m (Option String))
    (start : Nat) : List Segment → m (List Char)
  | [] => pure []
  | .plain c :: rest => do
      return c :: (← substituteFrom replace (start + c.utf8Size) rest)
  | .marker kind spelling :: rest => do
      let stop := start + Text.byteLength spelling
      let answer ← replace ⟨kind, start, stop⟩
      return (answer.map String.toList).getD spelling ++ (← substituteFrom replace stop rest)

/-- Substitutes the placeholders of a text, asking `replace` once for each from left to right. -/
def substitute {m : Type → Type} [Monad m] (replace : Placeholder → m (Option String))
    (text : String) : m String :=
  String.ofList <$> substituteFrom replace 0 (segments text)

/-- The text of a positional placeholder. -/
def positionalText (number : Nat) : String := "?" ++ toString number

/-- The text of a named placeholder. -/
def namedText (name : String) : String := ":" ++ name

/-- The text with every positional placeholder carrying one number. -/
def renumber (text : String) (number : Nat) : String :=
  let answer (p : Placeholder) : Option String :=
    if p.kind.isPositional then some (positionalText number) else none
  Id.run (substitute (fun p => pure (answer p)) text)

/-- The text with its positional placeholders numbered upwards from `next`. -/
def numberFrom (text : String) (next : Nat) : String :=
  let step (p : Placeholder) : StateM Nat (Option String) := do
    if p.kind.isPositional then
      let number ← get
      set (number + 1)
      return some (positionalText number)
    else return none
  ((substitute step text).run next).1

/-- The text with its unnumbered placeholders given the numbers of a list, in order. -/
def fillNumbers (text : String) (numbers : List Nat) : String :=
  let step (p : Placeholder) : StateM (List Nat) (Option String) := do
    match p.kind, ← get with
    | .positional none, number :: rest =>
        set rest
        return some (positionalText number)
    | _, _ => return none
  ((substitute step text).run numbers).1

end Placeholder

end BoundQuery
