import BoundQuery.Text.Digits

/-!
# Written numbers

What `Nat.toDigits` and `padded` write is made of digits, spells the number, and is as long as it
has to be. `takeWhile_isDigit` is the form in which readers meet a run of digits: all of it is taken
when no digit follows.
-/

namespace BoundQuery.Text

theorem digitsValue_toDigits (n : Nat) : digitsValue (Nat.toDigits 10 n) = n := by
  have h := @Nat.ofDigitChars_ten_toDigits n
  rwa [Nat.ofDigitChars_eq_foldl] at h

theorem all_isDigit_toDigits (n : Nat) : (Nat.toDigits 10 n).all isDigit := by
  rw [List.all_eq_true]
  intro c hc
  have h := Nat.isDigit_of_mem_toDigits (by decide) (by decide) hc
  simpa [Char.isDigit, isDigit, Char.le_def] using h

/-- A digit is none of the characters that are no digits. -/
theorem ne_of_isDigit {c d : Char} (hDigit : isDigit c = true) (hOther : isDigit d = false) :
    c ≠ d := by
  rintro rfl
  rw [hDigit] at hOther
  exact absurd hOther (by decide)

theorem digitValue_le {c : Char} (h : isDigit c = true) : digitValue c ≤ 9 := by
  simp only [isDigit, Bool.and_eq_true, decide_eq_true_eq] at h
  have hNine : c.toNat ≤ '9'.toNat := h.2
  have hValue : '9'.toNat = 57 ∧ '0'.toNat = 48 := by decide
  rw [digitValue]
  omega

theorem digitsValue_cons (c : Char) (rest : List Char) :
    digitsValue (c :: rest) = digitValue c * tenTo rest.length + digitsValue rest := by
  have h := digitsValue_append [c] rest
  rw [List.singleton_append] at h
  rw [h]
  simp [digitsValue]

/-- A run of digits spells a number of at most that many digits. -/
theorem digitsValue_lt {digits : List Char} (h : digits.all isDigit = true) :
    digitsValue digits < tenTo digits.length := by
  induction digits with
  | nil => decide
  | cons c rest ih =>
      rw [List.all_cons, Bool.and_eq_true] at h
      have hDigit := digitValue_le h.1
      have hRest := ih h.2
      have hProduct := Nat.mul_le_mul_right (tenTo rest.length) hDigit
      rw [digitsValue_cons, List.length_cons, tenTo_succ]
      omega

/-- No number but zero is written with a zero in front. -/
theorem toDigits_ne_zero_cons {n : Nat} {rest : List Char} (hRest : rest ≠ []) :
    Nat.toDigits 10 n ≠ '0' :: rest := by
  intro hDigits
  have hAll := all_isDigit_toDigits n
  rw [hDigits, List.all_cons, Bool.and_eq_true] at hAll
  have hSmall := digitsValue_lt hAll.2
  have hValue : n = digitsValue rest := by
    have hWhole := digitsValue_toDigits n
    rw [hDigits, digitsValue_cons] at hWhole
    have hZero : digitValue '0' = 0 := by decide
    rw [hZero] at hWhole
    omega
  have hLength : (Nat.toDigits 10 n).length ≤ rest.length := by
    rw [Nat.length_toDigits_le_iff (by decide) (List.length_pos_iff.mpr hRest), hValue]
    show digitsValue rest < tenTo rest.length
    exact hSmall
  rw [hDigits, List.length_cons] at hLength
  omega

/-! ## Padded numbers -/

theorem all_isDigit_padded (width n : Nat) : (padded width n).all isDigit = true := by
  rw [padded, List.all_append, all_isDigit_toDigits, Bool.and_true, List.all_eq_true]
  intro c hc
  rw [List.eq_of_mem_replicate hc]
  decide

theorem digitsValue_replicate (count : Nat) : digitsValue (List.replicate count '0') = 0 := by
  induction count with
  | zero => rfl
  | succ count ih =>
      rw [List.replicate_succ, digitsValue_cons, ih]
      have hZero : digitValue '0' = 0 := by decide
      rw [hZero]
      omega

theorem digitsValue_padded (width n : Nat) : digitsValue (padded width n) = n := by
  rw [padded, digitsValue_append, digitsValue_replicate, digitsValue_toDigits]
  omega

theorem le_length_padded (width n : Nat) : width ≤ (padded width n).length := by
  rw [padded, List.length_append, List.length_replicate]
  omega

/-- A number that fits the width is written in exactly that width. -/
theorem length_padded {width n : Nat} (hWidth : 0 < width) (h : n < tenTo width) :
    (padded width n).length = width := by
  have hDigits : (Nat.toDigits 10 n).length ≤ width :=
    (Nat.length_toDigits_le_iff (by decide) hWidth).mpr h
  rw [padded, List.length_append, List.length_replicate]
  omega

theorem padded_ne_nil (width n : Nat) : padded width n ≠ [] :=
  List.append_ne_nil_of_right_ne_nil _ Nat.toDigits_ne_nil

theorem exists_cons_padded (width n : Nat) :
    ∃ c digits, padded width n = c :: digits ∧ isDigit c = true := by
  obtain ⟨c, digits, hDigits⟩ := List.exists_cons_of_ne_nil (padded_ne_nil width n)
  have hAll := all_isDigit_padded width n
  rw [hDigits, List.all_cons, Bool.and_eq_true] at hAll
  exact ⟨c, digits, hDigits, hAll.1⟩

/-! ## Runs of digits -/

/-- Characters that do not start with a digit. -/
def NoDigit (cs : List Char) : Prop := ∀ c ∈ cs.head?, isDigit c = false

instance (cs : List Char) : Decidable (NoDigit cs) :=
  match cs with
  | [] => isTrue fun _ h => absurd h (by simp)
  | c :: rest =>
      decidable_of_iff (isDigit c = false)
        ⟨fun h d hd => by simp at hd; exact hd ▸ h, fun h => h c (by simp)⟩

theorem noDigit_cons {c : Char} {rest : List Char} (h : isDigit c = false) :
    NoDigit (c :: rest) := by
  intro d hd
  rw [List.head?_cons, Option.mem_some_iff] at hd
  exact hd ▸ h

/-- A reader takes a run of digits as a whole. -/
theorem takeWhile_isDigit {digits rest : List Char} (hDigits : digits.all isDigit = true)
    (hRest : NoDigit rest) : (digits ++ rest).takeWhile isDigit = digits := by
  induction digits with
  | nil =>
      cases rest with
      | nil => rfl
      | cons c rest =>
          have hFirst : isDigit c = false := hRest c (by simp)
          simp [hFirst]
  | cons c digits ih =>
      rw [List.all_cons, Bool.and_eq_true] at hDigits
      rw [List.cons_append, List.takeWhile_cons, hDigits.1, if_pos rfl, ih hDigits.2]

theorem takeWhile_padded (width n : Nat) : (padded width n).takeWhile isDigit = padded width n := by
  have hRun := @takeWhile_isDigit _ [] (all_isDigit_padded width n) (by decide)
  rwa [List.append_nil] at hRun

end BoundQuery.Text
