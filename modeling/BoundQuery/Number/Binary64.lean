import BoundQuery.Number.Power

/-!
# Binary fractions of 53 bits

Numbers that are written with a point or an exponent are held as `mantissa * 2 ^ exponent` with a
mantissa of at most 53 bits. `nearest` rounds a ratio of natural numbers to such a number, a tie
going to the even mantissa. `ofScientific?` multiplies or divides a rounded significand by a
rounded power of ten, rounding once more. `shortest` finds the coarsest power of ten that has a
multiple among the reals that round to a number, and the multiple nearest to it; `plainText`
writes that multiple without an exponent.
-/

namespace BoundQuery

/-- The number `mantissa * 2 ^ exponent`. -/
structure Binary64 where
  mantissa : Nat
  exponent : Int
  deriving DecidableEq, Repr

namespace Binary64

def zero : Binary64 := ⟨0, 0⟩

/-- The smallest exponent. -/
def minExponent : Int := -1074

/-- A power of two as a ratio. -/
def powerRatio (exponent : Int) : Nat × Nat := (twoTo exponent.toNat, twoTo (-exponent).toNat)

/-- The ratio rounded to a whole number, a half going to the even neighbour. -/
def roundHalfEven (num den : Nat) : Nat :=
  let whole := num / den
  let twice := 2 * (num % den)
  if den < twice || (twice = den && whole % 2 = 1) then whole + 1 else whole

/-- The number nearest to the ratio `num / den`. -/
def nearest (num den : Nat) : Binary64 :=
  if num = 0 then zero
  else
    let rough : Int := (num.log2 : Int) - (den.log2 : Int) - 53
    let ratioAt (exponent : Int) : Nat × Nat :=
      let (up, down) := powerRatio exponent
      (num * down, den * up)
    let tight := if twoTo 53 * (ratioAt rough).2 ≤ (ratioAt rough).1 then rough + 1 else rough
    let exponent := max tight minExponent
    let mantissa := roundHalfEven (ratioAt exponent).1 (ratioAt exponent).2
    if mantissa = twoTo 53 then ⟨twoTo 52, exponent + 1⟩ else ⟨mantissa, exponent⟩

/-- Whether a number lies below 2^1024. -/
def isFinite (x : Binary64) : Bool := x.mantissa = 0 || x.exponent ≤ 971

/-- The rounded product. -/
def mul (x y : Binary64) : Binary64 :=
  let (up, down) := powerRatio (x.exponent + y.exponent)
  nearest (x.mantissa * y.mantissa * up) down

/-- The rounded quotient. -/
def div (x y : Binary64) : Binary64 :=
  let (up, down) := powerRatio (x.exponent - y.exponent)
  nearest (x.mantissa * up) (y.mantissa * down)

/-- The largest power of ten that is used as one factor. -/
def maxPower : Nat := 308

def powerOfTen (power : Nat) : Binary64 := nearest (tenTo power) 1

/-- Multiplies by a power of ten. A number too large has no result; divisors beyond the largest
power are split off, at most `rounds` times, after which only zero is left. -/
def scale? (x : Binary64) (power : Int) : Nat → Option Binary64
  | 0 => some zero
  | rounds + 1 =>
      if x.mantissa = 0 then some x
      else if power.natAbs ≤ maxPower then
        if 0 ≤ power then
          let product := x.mul (powerOfTen power.natAbs)
          if product.isFinite then some product else none
        else some (x.div (powerOfTen power.natAbs))
      else if 0 ≤ power then none
      else scale? (x.div (powerOfTen maxPower)) (power + maxPower) rounds

/-- The number written as a significand and a power of ten. -/
def ofScientific? (significand : Nat) (power : Int) : Option Binary64 :=
  scale? (nearest significand 1) power 4

/-- The multiple of `10 ^ power` that is nearest to a number, if one rounds to the number; of two
that are as near, the greater. -/
def onGrid? (x : Binary64) (power : Int) : Option Nat :=
  let (up, down) := powerRatio x.exponent
  let finer := tenTo (-power).toNat * up
  let value := 4 * x.mantissa * finer
  let below := if x.mantissa = twoTo 52 && minExponent < x.exponent then finer else 2 * finer
  let step := 4 * down * tenTo power.toNat
  let rounds (multiple : Nat) : Bool :=
    if x.mantissa % 2 = 0 then
      value ≤ multiple * step + below && multiple * step ≤ value + 2 * finer
    else value < multiple * step + below && multiple * step < value + 2 * finer
  let low := value / step
  if rounds low && (2 * (value % step) < step || !rounds (low + 1)) then some low
  else if rounds (low + 1) then some (low + 1)
  else none

/-- Searches grids of ever finer powers of ten. -/
def shortestFrom (x : Binary64) (power : Int) : Nat → Nat × Int
  | 0 => (0, 0)
  | tries + 1 =>
      match onGrid? x power with
      | some multiple => (multiple, power)
      | none => shortestFrom x (power - 1) tries

/-- The shortest decimal that rounds to a number, as digits and a power of ten. -/
def shortest (x : Binary64) : Nat × Int :=
  if x.mantissa = 0 then (0, 0) else shortestFrom x 309 700

/-- A number of digits and a power of ten, written without an exponent. -/
def plainText (digits : Nat) (power : Int) : List Char :=
  if 0 ≤ power then Nat.toDigits 10 digits ++ List.replicate power.toNat '0'
  else
    let places := (-power).toNat
    let written := Nat.toDigits 10 digits
    let full := List.replicate (places + 1 - written.length) '0' ++ written
    full.take (full.length - places) ++ '.' :: full.drop (full.length - places)

end Binary64

end BoundQuery
