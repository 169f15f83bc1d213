import BoundQuery.Number.Power

/-!
# Decimal digits

ASCII digits, the number that a run of them spells, and the written form of a number with a least
width. `digitsValue_append` is the positional rule.
-/

namespace BoundQuery.Text

/-- An ASCII digit. -/
def isDigit (c : Char) : Bool := '0' ≤ c && c ≤ '9'

def digitValue (c : Char) : Nat := c.toNat - '0'.toNat

/-- The number that a run of decimal digits spells. -/
def digitsValue (digits : List Char) : Nat :=
  digits.foldl (fun value c => 10 * value + digitValue c) 0

theorem foldl_digits (digits : List Char) (start : Nat) :
    digits.foldl (fun value c => 10 * value + digitValue c) start =
      start * tenTo digits.length + digitsValue digits := by
  induction digits generalizing start with
  | nil => simp [digitsValue]
  | cons c rest ih =>
      simp only [List.foldl_cons, digitsValue, List.length_cons]
      rw [ih, ih (10 * 0 + digitValue c), tenTo_succ, Nat.add_mul, Nat.add_mul,
        Nat.mul_comm 10 start, Nat.mul_assoc, Nat.mul_comm 10 (tenTo rest.length)]
      omega

theorem digitsValue_append (front back : List Char) :
    digitsValue (front ++ back) = digitsValue front * tenTo back.length + digitsValue back := by
  simp only [digitsValue, List.foldl_append]
  exact foldl_digits back _

/-- The digits of a number, with zeros in front up to a least width. -/
def padded (width n : Nat) : List Char :=
  let digits := Nat.toDigits 10 n
  List.replicate (width - digits.length) '0' ++ digits

end BoundQuery.Text
