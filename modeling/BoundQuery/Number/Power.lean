/-!
# Powers of two and ten

The two bases that numerals and limits use. `twoTo` shifts a one to the left, and `tenTo` multiplies:
`tenTo_succ` says that the next power is the one before times ten.
-/

namespace BoundQuery

/-- A power of two. -/
def twoTo (n : Nat) : Nat := 1 <<< n

/-- A power of ten. -/
def tenTo (n : Nat) : Nat := Nat.pow 10 n

@[simp] theorem tenTo_zero : tenTo 0 = 1 := rfl

theorem tenTo_succ (n : Nat) : tenTo (n + 1) = tenTo n * 10 := rfl

theorem tenTo_pos (n : Nat) : 0 < tenTo n := by
  induction n with
  | zero => decide
  | succ n ih => rw [tenTo_succ]; omega

end BoundQuery
