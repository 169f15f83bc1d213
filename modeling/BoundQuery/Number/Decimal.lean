import BoundQuery.Text.Digits

/-!
# Decimals of 96 bits

A decimal is a sign, a mantissa below 2^96 and a scale of at most 28 digits after the point. It is
written with all digits of its scale, so `1.0` and `1.00` are different decimals that are
numerically equal. A text may have more digits after the point than fit: the first one that does
not fit rounds the mantissa, a half going away from zero, and the others are dropped. A text that is
not a plain numeral is tried again as a plain numeral with a power of ten; that too rounds once the
scale is used up. A plain zero has no sign, but a number that rounds to zero under a power of ten
keeps its own.
-/

namespace BoundQuery

/-- The bound of a mantissa. -/
def Decimal.bound : Nat := twoTo 96

/-- The largest number of digits after the point. -/
def Decimal.maxScale : Nat := 28

/-- The number `mantissa / 10 ^ scale`, or its negation. -/
structure Decimal where
  negative : Bool
  mantissa : Nat
  scale : Nat
  mantissa_lt : mantissa < Decimal.bound
  scale_le : scale ≤ Decimal.maxScale
  deriving DecidableEq

namespace Decimal

/-- The decimal with given parts, if they are in range. -/
def of? (negative : Bool) (mantissa scale : Nat) : Option Decimal :=
  if h : mantissa < bound ∧ scale ≤ maxScale then
    some ⟨negative, mantissa, scale, h.1, h.2⟩
  else none

/-- Taking a decimal apart and putting it together gives it back. -/
theorem of?_parts (d : Decimal) : of? d.negative d.mantissa d.scale = some d :=
  dif_pos ⟨d.mantissa_lt, d.scale_le⟩

/-- The mantissa with the sign. -/
def signed (d : Decimal) : Int := if d.negative then -d.mantissa else d.mantissa

/-- Numeric equality, whatever the scales; the two zeros are equal. -/
def equals (a b : Decimal) : Bool := a.signed * tenTo b.scale == b.signed * tenTo a.scale

/-- The written form: a sign if negative, at least one digit before the point, and the digits of
the scale after it. -/
def text (d : Decimal) : String :=
  let digits := Text.padded (d.scale + 1) d.mantissa
  let whole := digits.take (digits.length - d.scale)
  let fraction := digits.drop (digits.length - d.scale)
  String.ofList ((if d.negative then ['-'] else []) ++ whole ++
    (if d.scale = 0 then [] else '.' :: fraction))

/-- Rounds a mantissa up by the first digit that did not fit; if it then leaves its range, its last
digit is given up. -/
def roundUp (digit mantissa scale : Nat) : Option (Nat × Nat) :=
  if digit < 5 then some (mantissa, scale)
  else if mantissa + 1 < bound then some (mantissa + 1, scale)
  else if scale = 0 then none
  else some ((mantissa + 5) / 10, scale - 1)

/-- What may follow the digits that count. -/
def isFiller (c : Char) : Bool := Text.isDigit c || c = '_'

/-- The least mantissa that is read as a long one: a tenth of 64 bits, less a byte. -/
def longFrom : Nat := (twoTo 64 - 1) / 10 - 255

/-- Reads the digits after the point: `seen` tells whether a digit came before. An underscore behind
the last digit that fits is passed over if the mantissa was long before that digit; behind a shorter
one it stands for a zero, so that nothing is left to round. -/
def readFraction (seen : Bool) (mantissa scale : Nat) : List Char → Option (Nat × Nat)
  | [] => if seen then some (mantissa, scale) else none
  | c :: rest =>
      if Text.isDigit c then
        let grown := mantissa * 10 + Text.digitValue c
        if scale < maxScale && grown < bound then readFraction true grown (scale + 1) rest
        else if rest.all isFiller then roundUp (Text.digitValue c) mantissa scale
        else none
      else if c = '_' && seen then
        if scale < maxScale || longFrom ≤ mantissa / 10 then readFraction seen mantissa scale rest
        else if rest.all isFiller then some (mantissa, scale) else none
      else none

/-- Reads the digits before the point, and then those after it. -/
def readWhole (seen : Bool) (mantissa : Nat) : List Char → Option (Nat × Nat)
  | [] => if seen then some (mantissa, 0) else none
  | c :: rest =>
      if Text.isDigit c then
        let grown := mantissa * 10 + Text.digitValue c
        if grown < bound then readWhole true grown rest else none
      else if c = '.' then readFraction seen mantissa 0 rest
      else if c = '_' && seen then readWhole seen mantissa rest
      else none

/-- Reads a plain numeral: a sign, digits with at most one point, and underscores after the first
digit. -/
def readPlain (cs : List Char) : Option Decimal :=
  let (negative, digits) :=
    match cs with
    | '-' :: rest => (true, rest)
    | '+' :: rest => (false, rest)
    | _ => (false, cs)
  match readWhole false 0 digits with
  | some (mantissa, scale) => of? (negative && mantissa != 0) mantissa scale
  | none => none

/-- Reads an exponent without its minus sign: a plus sign or none, then digits, below 2^32. -/
def readExponent (cs : List Char) : Option Nat :=
  let digits := match cs with
    | '+' :: rest => rest
    | _ => cs
  if digits.isEmpty || !digits.all Text.isDigit then none
  else if Text.digitsValue digits < twoTo 32 then some (Text.digitsValue digits)
  else none

/-- The decimal times a power of ten; digits after the point go first, and what is left of the
power lengthens the mantissa. -/
def raise (d : Decimal) (power : Nat) : Option Decimal :=
  if power ≤ d.scale then of? d.negative d.mantissa (d.scale - power)
  else if maxScale < power then none
  else of? d.negative (d.mantissa * tenTo (power - d.scale)) 0

/-- A number without its last digits, rounded by the first of them. -/
def dropDigits (count n : Nat) : Nat := (n + tenTo count / 2) / tenTo count

/-- The decimal divided by a power of ten, rounded to the digits that fit. -/
def lower (d : Decimal) (power : Nat) : Option Decimal :=
  let scale := d.scale + power
  if maxScale < power then none
  else if scale ≤ maxScale then of? d.negative d.mantissa scale
  else of? d.negative (dropDigits (scale - maxScale) d.mantissa) maxScale

/-- Reads a plain numeral, an `e` or `E` and an exponent. -/
def readScientific (cs : List Char) : Option Decimal :=
  let isMark (c : Char) : Bool := c = 'e' || c = 'E'
  match cs.dropWhile (!isMark ·) with
  | [] => none
  | _ :: exponent => do
      let base ← readPlain (cs.takeWhile (!isMark ·))
      match exponent with
      | '-' :: digits => base.lower (← readExponent digits)
      | _ => base.raise (← readExponent exponent)

/-- The decimal that a text spells. -/
def ofText? (text : String) : Option Decimal :=
  (readPlain text.toList).or (readScientific text.toList)

end Decimal

end BoundQuery
