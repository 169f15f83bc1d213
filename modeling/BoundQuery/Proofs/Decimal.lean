import BoundQuery.Number.Decimal
import BoundQuery.Proofs.Text.Digits

/-!
# Decimals are read as they are written

Reading the text of a decimal gives its digits and its scale again (`ofText?_text`). The sign is
kept unless all digits are zero: a plain zero has no sign, so the decimals that read back are those
that are not a zero with one (`readsBack_iff`).
-/

namespace BoundQuery.Decimal

open Text (digitsValue digitValue padded)

/-! ## Gathering digits -/

/-- What digits make of a mantissa, the first digit taken on its own. -/
theorem gathered_cons (mantissa : Nat) (c : Char) (digits : List Char) :
    mantissa * tenTo (c :: digits).length + digitsValue (c :: digits) =
      (mantissa * 10 + digitValue c) * tenTo digits.length + digitsValue digits := by
  rw [Text.digitsValue_cons, List.length_cons, tenTo_succ, Nat.add_mul, Nat.mul_assoc,
    Nat.mul_comm 10]
  omega

/-- If a mantissa is in range after some digits, it is before them. -/
theorem lt_bound_of_gathered {mantissa : Nat} {digits : List Char}
    (h : mantissa * tenTo digits.length + digitsValue digits < bound) : mantissa < bound := by
  have hPower := Nat.le_mul_of_pos_right mantissa (tenTo_pos digits.length)
  omega

/-- Digits that stay in range are gathered before the point. -/
theorem readWhole_digits {digits : List Char} (hDigits : digits.all Text.isDigit = true)
    {seen : Bool} {mantissa : Nat} {rest : List Char}
    (hBound : mantissa * tenTo digits.length + digitsValue digits < bound) :
    readWhole seen mantissa (digits ++ rest) =
      readWhole (seen || !digits.isEmpty) (mantissa * tenTo digits.length + digitsValue digits)
        rest := by
  induction digits generalizing seen mantissa with
  | nil => simp [tenTo, digitsValue]
  | cons c digits ih =>
      rw [List.all_cons, Bool.and_eq_true] at hDigits
      rw [gathered_cons] at hBound ⊢
      have hGrown := lt_bound_of_gathered hBound
      have hRest := @ih hDigits.2 true (mantissa * 10 + digitValue c) hBound
      rw [List.cons_append, readWhole]
      simp only [hDigits.1, if_true, hGrown]
      rw [hRest]
      simp

/-- Digits that stay in range, and for which there is room, are gathered behind the point. -/
theorem readFraction_digits {digits : List Char} (hDigits : digits.all Text.isDigit = true)
    {mantissa scale : Nat} (hScale : scale + digits.length ≤ maxScale)
    (hBound : mantissa * tenTo digits.length + digitsValue digits < bound) :
    readFraction true mantissa scale digits =
      some (mantissa * tenTo digits.length + digitsValue digits, scale + digits.length) := by
  induction digits generalizing mantissa scale with
  | nil => simp [readFraction, tenTo, digitsValue]
  | cons c digits ih =>
      rw [List.all_cons, Bool.and_eq_true] at hDigits
      rw [gathered_cons] at hBound ⊢
      rw [List.length_cons] at hScale ⊢
      have hGrown := lt_bound_of_gathered hBound
      have hRoom : scale < maxScale := by omega
      have hPlaces : scale + 1 + digits.length = scale + (digits.length + 1) := by omega
      have hRest := @ih hDigits.2 (mantissa * 10 + digitValue c) (scale + 1) (by omega) hBound
      rw [readFraction]
      simp only [hDigits.1, if_true, hRoom, hGrown, decide_true, Bool.and_self]
      rw [hRest, hPlaces]

/-! ## The text of a decimal -/

/-- The digits of a decimal before its point. -/
def whole (d : Decimal) : List Char :=
  let digits := padded (d.scale + 1) d.mantissa
  digits.take (digits.length - d.scale)

/-- The digits of a decimal behind its point. -/
def fraction (d : Decimal) : List Char :=
  let digits := padded (d.scale + 1) d.mantissa
  digits.drop (digits.length - d.scale)

theorem whole_append_fraction (d : Decimal) :
    d.whole ++ d.fraction = padded (d.scale + 1) d.mantissa := List.take_append_drop ..

theorem all_isDigit_whole (d : Decimal) : d.whole.all Text.isDigit = true := by
  have hAll := Text.all_isDigit_padded (d.scale + 1) d.mantissa
  rw [← whole_append_fraction, List.all_append, Bool.and_eq_true] at hAll
  exact hAll.1

theorem all_isDigit_fraction (d : Decimal) : d.fraction.all Text.isDigit = true := by
  have hAll := Text.all_isDigit_padded (d.scale + 1) d.mantissa
  rw [← whole_append_fraction, List.all_append, Bool.and_eq_true] at hAll
  exact hAll.2

theorem length_fraction (d : Decimal) : d.fraction.length = d.scale := by
  have hLength := Text.le_length_padded (d.scale + 1) d.mantissa
  simp only [fraction, List.length_drop]
  omega

theorem whole_ne_nil (d : Decimal) : d.whole ≠ [] := by
  have hLength := Text.le_length_padded (d.scale + 1) d.mantissa
  apply List.length_pos_iff.mp
  simp only [whole, List.length_take]
  omega

/-- Both parts together spell the mantissa. -/
theorem value_whole_fraction (d : Decimal) :
    digitsValue d.whole * tenTo d.scale + digitsValue d.fraction = d.mantissa := by
  have hValue := Text.digitsValue_padded (d.scale + 1) d.mantissa
  rw [← whole_append_fraction, Text.digitsValue_append, length_fraction] at hValue
  exact hValue

theorem toList_text (d : Decimal) :
    d.text.toList = (if d.negative then ['-'] else []) ++
      (d.whole ++ (if d.scale = 0 then [] else '.' :: d.fraction)) := by
  rw [text, String.toList_ofList, List.append_assoc]
  rfl

/-! ## Reading the text -/

/-- The digits of a decimal are read with its scale. -/
theorem readWhole_text (d : Decimal) :
    readWhole false 0 (d.whole ++ (if d.scale = 0 then [] else '.' :: d.fraction)) =
      some (d.mantissa, d.scale) := by
  have hMantissa := d.mantissa_lt
  have hScale := d.scale_le
  have hValue := d.value_whole_fraction
  have hWhole : 0 * tenTo d.whole.length + digitsValue d.whole < bound := by
    have hPower := Nat.le_mul_of_pos_right (digitsValue d.whole) (tenTo_pos d.scale)
    omega
  have hSeen : (false || !d.whole.isEmpty) = true := by
    simp [d.whole_ne_nil]
  rw [readWhole_digits d.all_isDigit_whole hWhole, hSeen, Nat.zero_mul, Nat.zero_add]
  split
  · next hNone =>
      have hFraction : d.fraction = [] := List.length_eq_zero_iff.mp (d.length_fraction.trans hNone)
      rw [hNone, hFraction] at hValue
      have hAll : digitsValue d.whole = d.mantissa := by simpa [tenTo, digitsValue] using hValue
      rw [readWhole, hAll, hNone]
      rfl
  · have hPlaces : 0 + d.fraction.length ≤ maxScale := by
      rw [length_fraction]
      omega
    have hBound : digitsValue d.whole * tenTo d.fraction.length + digitsValue d.fraction <
        bound := by
      rw [length_fraction, hValue]
      exact hMantissa
    have hRead := readFraction_digits d.all_isDigit_fraction hPlaces hBound
    have hPoint : Text.isDigit '.' = false := by decide
    rw [readWhole]
    simp only [hPoint, Bool.false_eq_true, if_false, if_true]
    rw [hRead, length_fraction, hValue, Nat.zero_add]

/-- A decimal without a sign if all its digits are zero. -/
def plainZero (d : Decimal) : Decimal := { d with negative := d.negative && d.mantissa != 0 }

theorem readPlain_text (d : Decimal) : readPlain d.text.toList = some d.plainZero := by
  have hRead := d.readWhole_text
  have hParts := of?_parts d.plainZero
  rw [toList_text]
  cases hSign : d.negative with
  | true =>
      simp only [readPlain, if_true, List.singleton_append, hRead]
      rw [← hParts, plainZero, hSign]
  | false =>
      obtain ⟨c, digits, hWhole⟩ := List.exists_cons_of_ne_nil d.whole_ne_nil
      have hDigit := d.all_isDigit_whole
      rw [hWhole, List.all_cons, Bool.and_eq_true] at hDigit
      have hMinus : c ≠ '-' := Text.ne_of_isDigit hDigit.1 (by decide)
      have hPlus : c ≠ '+' := Text.ne_of_isDigit hDigit.1 (by decide)
      rw [hWhole, List.cons_append] at hRead ⊢
      rw [← hParts, plainZero, hSign]
      simp [readPlain, hMinus, hPlus, hRead]

/-- Reading the text of a decimal gives the decimal, without a sign if all its digits are zero. -/
theorem ofText?_text (d : Decimal) : ofText? d.text = some d.plainZero := by
  rw [ofText?, readPlain_text]
  rfl

/-- Whether a decimal is read back from its text. -/
def ReadsBack (d : Decimal) : Prop := ofText? d.text = some d

theorem plainZero_eq_iff (d : Decimal) :
    d.plainZero = d ↔ ¬ (d.negative = true ∧ d.mantissa = 0) := by
  obtain ⟨negative, mantissa, scale, hMantissa, hScale⟩ := d
  cases negative <;> simp [plainZero]

/-- All decimals read back but the zeros with a sign. -/
theorem readsBack_iff (d : Decimal) : d.ReadsBack ↔ ¬ (d.negative = true ∧ d.mantissa = 0) := by
  rw [ReadsBack, ofText?_text, Option.some_inj, plainZero_eq_iff]

end BoundQuery.Decimal
