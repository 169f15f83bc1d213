import BoundQuery.Json.Reader
import BoundQuery.Number.Numeral
import BoundQuery.Proofs.Text.Digits

/-!
# Strings and integers are read as they are written

A string is written with an escape for each character that needs one; reading gives the code of each
character and then the characters (`readCodes_escape`, `pairCodes_toNat`). An integer is written as
its digits behind its sign; reading takes this spelling, if what follows cannot belong to a number
(`readNumber_toString`), and the spelling names the integer (`integer?_toString`).
-/

namespace BoundQuery.Json

open Text (NoDigit digitsValue)

/-! ## Strings -/

theorem hexValue?_hexDigit (n : Nat) : hexValue? (hexDigit n) = some (n % 16) := by
  have hAll : ∀ d : Fin 16, hexValue? (Nat.digitChar d) = some d.val := by decide
  exact hAll ⟨n % 16, Nat.mod_lt n (by decide)⟩

theorem readCodes_short {c : Char} {code : Char} {rest : List Char} (hMark : c ≠ 'u')
    (h : shortEscape? c = some code) :
    readCodes ('\\' :: c :: rest) = (readCodes rest).map fun p => (code.toNat :: p.1, p.2) := by
  rw [readCodes.eq_def]
  split
  · next heq => simp at heq
  · next heq =>
      simp only [List.cons.injEq] at heq
      exact absurd heq.2.1 hMark
  · next heq =>
      simp only [List.cons.injEq] at heq
      obtain ⟨-, rfl, rfl⟩ := heq
      rw [h]
      simp only [Option.bind_eq_bind, Option.bind_some]
      cases readCodes rest <;> rfl
  · next hNotShort heq =>
      simp only [List.cons.injEq] at heq
      obtain ⟨rfl, rfl⟩ := heq
      exact absurd rfl (hNotShort c rest rfl)

theorem readCodes_plain {c : Char} {rest : List Char} (hQuote : c ≠ '"') (hSlash : c ≠ '\\')
    (hControl : ¬ c.toNat < 0x20) :
    readCodes (c :: rest) = (readCodes rest).map fun p => (c.toNat :: p.1, p.2) := by
  rw [readCodes.eq_def]
  split
  · next heq => simp at heq
  · next heq =>
      simp only [List.cons.injEq] at heq
      exact absurd heq.1 hSlash
  · next heq =>
      simp only [List.cons.injEq] at heq
      exact absurd heq.1 hSlash
  · next heq =>
      simp only [List.cons.injEq] at heq
      obtain ⟨rfl, rfl⟩ := heq
      simp only [hQuote, hSlash, hControl, decide_false, Bool.or_self, if_false,
        Bool.false_eq_true]
      cases readCodes _ <;> rfl

/-- A character is read from what `escape` writes for it. -/
theorem readCodes_escape_append (c : Char) (rest : List Char) :
    readCodes (escape c ++ rest) = (readCodes rest).map fun p => (c.toNat :: p.1, p.2) := by
  unfold escape
  split
  · next h =>
      subst h
      exact readCodes_short (by decide) (by decide)
  split
  · next h =>
      subst h
      exact readCodes_short (by decide) (by decide)
  split
  · next h =>
      subst h
      exact readCodes_short (by decide) (by decide)
  split
  · next h =>
      subst h
      exact readCodes_short (by decide) (by decide)
  split
  · next h =>
      subst h
      exact readCodes_short (by decide) (by decide)
  split
  · next h =>
      subst h
      exact readCodes_short (by decide) (by decide)
  split
  · next h =>
      subst h
      exact readCodes_short (by decide) (by decide)
  split
  · next h =>
      -- Four digits, of which the first two are zeros.
      have hZero : hexValue? '0' = some 0 := by decide
      have hHigh := hexValue?_hexDigit (c.toNat / 16)
      have hLow := hexValue?_hexDigit c.toNat
      have hCode : ((0 * 16 + 0) * 16 + c.toNat / 16 % 16) * 16 + c.toNat % 16 = c.toNat := by
        omega
      simp only [List.cons_append, List.nil_append, readCodes, hZero, hHigh, hLow,
        Option.bind_eq_bind, Option.bind_some, hCode]
      cases readCodes rest <;> rfl
  · next hQuote hSlash _ _ _ _ _ hControl => exact readCodes_plain hQuote hSlash hControl

/-- The inside of a string is read up to its closing quote. -/
theorem readCodes_escape (cs rest : List Char) :
    readCodes (cs.flatMap escape ++ '"' :: rest) = some (cs.map Char.toNat, rest) := by
  induction cs with
  | nil => simp [readCodes]
  | cons c cs ih =>
      rw [List.flatMap_cons, List.append_assoc, readCodes_escape_append, ih]
      rfl

/-- The code of a character is no half of a surrogate pair. -/
theorem not_surrogate (c : Char) : c.toNat < 0xD800 ∨ 0xE000 ≤ c.toNat := by
  have hValid := c.valid
  simp only [UInt32.isValidChar, Nat.isValidChar] at hValid
  rcases hValid with hLow | hHigh
  · exact .inl hLow
  · exact .inr (by have := hHigh.1; simp only [Char.toNat]; omega)

theorem pairCodes_toNat (cs : List Char) : pairCodes (cs.map Char.toNat) = some cs := by
  induction cs with
  | nil => rfl
  | cons c cs ih =>
      have hCode := not_surrogate c
      cases cs with
      | nil =>
          have hWhole : ¬ (0xD800 ≤ c.toNat ∧ c.toNat < 0xE000) := by omega
          simp [pairCodes, hWhole, Char.ofNat_toNat]
      | cons d cs =>
          have hHigh : ¬ (0xD800 ≤ c.toNat ∧ c.toNat < 0xDC00) := by omega
          have hLow : ¬ (0xDC00 ≤ c.toNat ∧ c.toNat < 0xE000) := by omega
          rw [List.map_cons] at ih
          rw [List.map_cons, List.map_cons, pairCodes]
          simp only [Bool.and_eq_true, decide_eq_true_eq, hHigh, hLow, if_false, ih,
            Option.map_some, Char.ofNat_toNat]

/-! ## Integers -/

/-- Characters that cannot belong to a number in front of them. -/
def EndsNumber (cs : List Char) : Prop :=
  ∀ c ∈ cs.head?, Text.isDigit c = false ∧ c ≠ '.' ∧ c ≠ 'e' ∧ c ≠ 'E'

theorem EndsNumber.noDigit {cs : List Char} (h : EndsNumber cs) : NoDigit cs :=
  fun c hc => (h c hc).1

theorem readDigits_append {digits rest : List Char} (hDigits : digits.all Text.isDigit = true)
    (hNonempty : digits ≠ []) (hRest : NoDigit rest) :
    readDigits (digits ++ rest) = some (digits, rest) := by
  rw [readDigits, Text.takeWhile_isDigit hDigits hRest]
  simp [hNonempty]

theorem readWhole_toDigits (n : Nat) {rest : List Char} (hRest : NoDigit rest) :
    readWhole (Nat.toDigits 10 n ++ rest) = some (Nat.toDigits 10 n, rest) := by
  have hRead := readDigits_append (Text.all_isDigit_toDigits n) Nat.toDigits_ne_nil hRest
  rw [readWhole, hRead]
  simp only [Option.bind_eq_bind, Option.bind_some]
  split
  · next c more heq => exact absurd heq (Text.toDigits_ne_zero_cons (List.cons_ne_nil c more))
  · rfl

theorem readFraction_ends {rest : List Char} (h : EndsNumber rest) :
    readFraction rest = some ([], rest) := by
  unfold readFraction
  split
  · next back => exact absurd rfl (h '.' rfl).2.1
  · rfl

theorem readExponent_ends {rest : List Char} (h : EndsNumber rest) :
    readExponent rest = some ([], rest) := by
  cases rest with
  | nil => rfl
  | cons c back =>
      have hMark := (h c rfl).2.2
      simp [readExponent, hMark]

/-- The characters of an integer: its digits, behind a sign if it is negative. -/
theorem toList_toString (n : Int) :
    (toString n).toList = (if 0 ≤ n then [] else ['-']) ++ Nat.toDigits 10 n.natAbs := by
  rw [Int.toString_eq_repr, Int.repr_eq_if]
  split
  · next h =>
      have hAbs : n.toNat = n.natAbs := by omega
      simp [Nat.repr, hAbs]
  · next h =>
      have hAbs : (-n).toNat = n.natAbs := by omega
      simp [Nat.repr, hAbs]

/-- A run of digits that is not empty starts with a digit. -/
theorem exists_digit (n : Nat) :
    ∃ c rest, Nat.toDigits 10 n = c :: rest ∧ Text.isDigit c = true := by
  obtain ⟨c, rest, hDigits⟩ := List.exists_cons_of_ne_nil (@Nat.toDigits_ne_nil n 10)
  have hAll := Text.all_isDigit_toDigits n
  rw [hDigits, List.all_cons, Bool.and_eq_true] at hAll
  exact ⟨c, rest, hDigits, hAll.1⟩

/-- An integer starts with a digit or with its sign. -/
theorem exists_first_toString (n : Int) :
    ∃ c rest, (toString n).toList = c :: rest ∧ (Text.isDigit c = true ∨ c = '-') := by
  rw [toList_toString]
  split
  · obtain ⟨c, rest, hDigits, hDigit⟩ := exists_digit n.natAbs
    exact ⟨c, rest, hDigits, .inl hDigit⟩
  · exact ⟨'-', _, rfl, .inr rfl⟩

theorem readNumber_toString (n : Int) {rest : List Char} (h : EndsNumber rest) :
    readNumber ((toString n).toList ++ rest) = some ((toString n).toList, rest) := by
  have hWhole := readWhole_toDigits n.natAbs h.noDigit
  have hFraction := readFraction_ends h
  have hExponent := readExponent_ends h
  rw [toList_toString]
  split
  · -- The first character is a digit, so there is no sign.
    obtain ⟨c, digits, hDigits, hDigit⟩ := exists_digit n.natAbs
    have hSign : c ≠ '-' := Text.ne_of_isDigit hDigit (by decide)
    rw [hDigits, List.cons_append] at hWhole
    rw [List.nil_append, hDigits, List.cons_append]
    simp [readNumber, hSign, hWhole, hFraction, hExponent]
  · simp [readNumber, hWhole, hFraction, hExponent]

theorem integer?_toString (n : Int) :
    (Numeral.ofSpelling (toString n).toList).integer? = some n := by
  have hDigits := Text.all_isDigit_toDigits n.natAbs
  have hRun : (Nat.toDigits 10 n.natAbs).takeWhile Text.isDigit = Nat.toDigits 10 n.natAbs := by
    have hTaken := @Text.takeWhile_isDigit _ [] hDigits (by decide)
    rwa [List.append_nil] at hTaken
  have hValue := Text.digitsValue_toDigits n.natAbs
  rw [toList_toString]
  split
  · next hSign =>
      obtain ⟨c, digits, hCons, hDigit⟩ := exists_digit n.natAbs
      have hNoSign : c ≠ '-' := Text.ne_of_isDigit hDigit (by decide)
      rw [hCons] at hRun hValue
      have hAbs : (n.natAbs : Int) = n := by omega
      generalize n.natAbs = size at hRun hValue hAbs hCons ⊢
      rw [List.nil_append, hCons]
      simp [Numeral.ofSpelling, Numeral.integer?, hNoSign, hRun, hValue, hAbs]
  · next hSign =>
      have hAbs : -(n.natAbs : Int) = n := by omega
      have hSize : n.natAbs ≠ 0 := by omega
      generalize n.natAbs = size at hRun hValue hAbs hSize ⊢
      simp [Numeral.ofSpelling, Numeral.integer?, hRun, hValue, hAbs, hSize]

end BoundQuery.Json
