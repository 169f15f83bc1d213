import BoundQuery.Number.Binary64
import BoundQuery.Number.Decimal

/-!
# Numerals of JSON

A numeral is a sign, digits, and perhaps a point and an exponent. Without point and exponent, and
within 64 bits, it is an exact integer. Any other numeral goes through a binary fraction: as many
leading digits as fit 64 bits make a significand, the other ones only count as powers of ten, and
the decimal is the shortest one that names the binary fraction.
-/

namespace BoundQuery

/-- The parts of a numeral. -/
structure Numeral where
  negative : Bool
  whole : List Char
  fraction : Option (List Char)
  exponent : Option Int

namespace Numeral

/-- Takes a numeral apart. -/
def ofSpelling (spelling : List Char) : Numeral :=
  let (negative, rest) := match spelling with
    | '-' :: rest => (true, rest)
    | _ => (false, spelling)
  let whole := rest.takeWhile Text.isDigit
  let rest := rest.drop whole.length
  let (fraction, rest) := match rest with
    | '.' :: rest =>
        let digits := rest.takeWhile Text.isDigit
        (some digits, rest.drop digits.length)
    | _ => (none, rest)
  let exponent := match rest with
    | _ :: '-' :: digits => some (-(Text.digitsValue digits : Int))
    | _ :: '+' :: digits => some (Text.digitsValue digits : Int)
    | _ :: digits => some (Text.digitsValue digits : Int)
    | [] => none
  ⟨negative, whole, fraction, exponent⟩

/-- The bound of significands. -/
def significandBound : Nat := twoTo 64

/-- Appends digits to a significand as long as it stays in range; also counts those left over. -/
def gather (significand : Nat) : List Char → Nat × Nat
  | [] => (significand, 0)
  | c :: rest =>
      let grown := 10 * significand + Text.digitValue c
      if grown < significandBound then gather grown rest else (significand, rest.length + 1)

/-- The numeral as an integer, if it has neither point nor exponent; minus zero is none. -/
def integer? (numeral : Numeral) : Option Int :=
  match numeral.fraction, numeral.exponent with
  | none, none =>
      let size := Text.digitsValue numeral.whole
      if numeral.negative then (if size = 0 then none else some (-(size : Int)))
      else some size
  | _, _ => none

/-- The numeral as a binary fraction, without its sign; too large a numeral has none. -/
def binary? (numeral : Numeral) : Option Binary64 :=
  let (significand, skipped) := gather 0 numeral.whole
  let fraction := numeral.fraction.getD []
  let (significand, dropped) := gather significand fraction
  let places := fraction.length - dropped
  Binary64.ofScientific? significand ((skipped : Int) - places + numeral.exponent.getD 0)

/-- Whether an integer fits 64 bits, with a sign if it is negative and without one if not. -/
def fits64 (n : Int) : Bool := -(twoTo 63) ≤ n && n < twoTo 64

/-- The numeral as a decimal. -/
def decimal? (numeral : Numeral) : Option Decimal :=
  let rounded : Option Decimal := do
    let (digits, power) := (← numeral.binary?).shortest
    let text := Binary64.plainText digits power
    Decimal.readPlain (if numeral.negative then '-' :: text else text)
  match numeral.integer? with
  | some n => if fits64 n then Decimal.of? (n < 0) n.natAbs 0 else rounded
  | none => rounded

end Numeral

end BoundQuery
