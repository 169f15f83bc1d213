/-!
# Byte spans

A span is a range of byte offsets into the UTF-8 form of a text. `Span.slice` is the text under a
span; a span that leaves the text, runs backwards or splits a character has the empty slice.
`dropBytes_append` and `takeBytes_append` say that a cut at the length of a front part gives that
part and the rest.
-/

namespace BoundQuery.Text

/-- The number of bytes that a list of characters takes in UTF-8. -/
def byteLength : List Char → Nat
  | [] => 0
  | c :: rest => c.utf8Size + byteLength rest

@[simp] theorem byteLength_nil : byteLength [] = 0 := rfl

@[simp] theorem byteLength_cons (c : Char) (rest : List Char) :
    byteLength (c :: rest) = c.utf8Size + byteLength rest := rfl

@[simp] theorem byteLength_append (front back : List Char) :
    byteLength (front ++ back) = byteLength front + byteLength back := by
  induction front with
  | nil => simp
  | cons c rest ih => simp [ih, Nat.add_assoc]

/-- The characters after the first `n` bytes, if a character ends there. -/
def dropBytes (n : Nat) : List Char → Option (List Char)
  | [] => if n = 0 then some [] else none
  | c :: rest =>
      if n = 0 then some (c :: rest)
      else if c.utf8Size ≤ n then dropBytes (n - c.utf8Size) rest else none

/-- The characters in the first `n` bytes, if a character ends there. -/
def takeBytes (n : Nat) : List Char → Option (List Char)
  | [] => if n = 0 then some [] else none
  | c :: rest =>
      if n = 0 then some []
      else if c.utf8Size ≤ n then (takeBytes (n - c.utf8Size) rest).map (c :: ·) else none

@[simp] theorem dropBytes_append (front back : List Char) :
    dropBytes (byteLength front) (front ++ back) = some back := by
  induction front with
  | nil => cases back <;> simp [dropBytes]
  | cons c rest ih =>
      have hpos := c.utf8Size_pos
      have hne : c.utf8Size ≠ 0 := by omega
      simp [dropBytes, hne, ih]

@[simp] theorem takeBytes_append (front back : List Char) :
    takeBytes (byteLength front) (front ++ back) = some front := by
  induction front with
  | nil => cases back <;> simp [takeBytes]
  | cons c rest ih =>
      have hpos := c.utf8Size_pos
      have hne : c.utf8Size ≠ 0 := by omega
      simp [takeBytes, hne, ih]

end BoundQuery.Text

namespace BoundQuery

/-- The bytes of a text from `start` up to, not including, `stop`. -/
structure Span where
  start : Nat
  stop : Nat
  deriving DecidableEq, Repr

namespace Span

/-- The text under a span, or the empty text where the span does not fit. -/
def slice (span : Span) (text : String) : String :=
  if span.start ≤ span.stop then
    match Text.dropBytes span.start text.toList with
    | some rest =>
        match Text.takeBytes (span.stop - span.start) rest with
        | some part => String.ofList part
        | none => ""
    | none => ""
  else ""

def describe (span : Span) : String := toString span.start ++ ".." ++ toString span.stop

/-- A span that covers the middle of three parts slices to that part. -/
theorem slice_append (front part back : List Char) :
    slice ⟨Text.byteLength front, Text.byteLength front + Text.byteLength part⟩
      (String.ofList (front ++ (part ++ back))) = String.ofList part := by
  simp [slice]

end Span

end BoundQuery
