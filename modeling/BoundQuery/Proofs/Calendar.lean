import BoundQuery.Calendar
import BoundQuery.Proofs.Text.Digits

/-!
# Dates and times are read as they are written

Every number of a date or a time but the year is written in a fixed width, which is just as wide as
the reader looks; a year outside 0 to 9999 has a sign, behind which the reader takes all digits. So
each date and each moment is read back from its text (`Date.ofText?_text`, `DateTime.ofText?_text`).
-/

namespace BoundQuery

open Text (NoDigit digitsValue padded)

/-! ## Numbers and marks -/

theorem Text.isBlank_of_isDigit {c : Char} (h : isDigit c = true) : isBlank c = false := by
  simp only [isDigit, Bool.and_eq_true, decide_eq_true_eq] at h
  have hLow : '0'.toNat ≤ c.toNat := h.1
  have hHigh : c.toNat ≤ '9'.toNat := h.2
  have hBounds : '0'.toNat = 48 ∧ '9'.toNat = 57 := by decide
  simp only [isBlank]
  simp
  omega

theorem Text.trimStart_cons {c : Char} (h : isBlank c = false) (rest : List Char) :
    trimStart (c :: rest) = c :: rest := by
  rw [trimStart, List.dropWhile_cons, h]
  rfl

/-- A padded number starts with no blank. -/
theorem Text.trimStart_padded (width n : Nat) (rest : List Char) :
    trimStart (padded width n ++ rest) = padded width n ++ rest := by
  obtain ⟨c, digits, hDigits, hFirst⟩ := exists_cons_padded width n
  rw [hDigits, List.cons_append]
  exact trimStart_cons (isBlank_of_isDigit hFirst) _

namespace Date

/-- A number is read from exactly the width that it is written in. -/
theorem readNumber_padded {width n : Nat} (hWidth : 0 < width) (h : n < tenTo width)
    (rest : List Char) : readNumber width (padded width n ++ rest) = some (n, rest) := by
  have hLength := Text.length_padded hWidth h
  have hTake : (padded width n ++ rest).take width = padded width n := List.take_left' hLength
  rw [readNumber, Text.trimStart_padded]
  simp only [hTake, Text.takeWhile_padded]
  simp [Text.padded_ne_nil, Text.digitsValue_padded]

theorem readMark_cons {mark : Char} (h : Text.isBlank mark = false) (rest : List Char) :
    readMark mark (mark :: rest) = some rest := by
  rw [readMark, Text.trimStart_cons h]
  simp

/-! ## Dates -/

/-- Behind a sign, all digits belong to the year. -/
theorem takeWhile_year (n : Nat) (rest : List Char) :
    (padded 4 n ++ '-' :: rest).takeWhile Text.isDigit = padded 4 n :=
  Text.takeWhile_isDigit (Text.all_isDigit_padded 4 n) (Text.noDigit_cons (by decide))

theorem readYear_yearText (year : Int) (rest : List Char) :
    readYear (yearText year ++ '-' :: rest) = some (year, '-' :: rest) := by
  have hRun := takeWhile_year year.natAbs rest
  have hValue := Text.digitsValue_padded 4 year.natAbs
  have hDigits := Text.padded_ne_nil 4 year.natAbs
  rw [yearText]
  split
  · next hRange =>
      simp only [Bool.and_eq_true, decide_eq_true_eq] at hRange
      have hNat : year.toNat < tenTo 4 := by
        have hPower : tenTo 4 = 10000 := by decide
        omega
      have hYear : (year.toNat : Int) = year := by omega
      have hRead := @readNumber_padded 4 year.toNat (by decide) hNat ('-' :: rest)
      obtain ⟨c, digits, hCons, hDigit⟩ := Text.exists_cons_padded 4 year.toNat
      have hMinus : c ≠ '-' := Text.ne_of_isDigit hDigit (by decide)
      have hPlus : c ≠ '+' := Text.ne_of_isDigit hDigit (by decide)
      rw [hCons, List.cons_append] at hRead ⊢
      rw [readYear, Text.trimStart_cons (Text.isBlank_of_isDigit hDigit)]
      simp [hMinus, hPlus, hRead, hYear]
  · next hRange =>
      simp only [Bool.and_eq_true, decide_eq_true_eq] at hRange
      split
      · next hNegative =>
          have hYear : -(year.natAbs : Int) = year := by omega
          have hBlank : Text.isBlank '-' = false := by decide
          generalize year.natAbs = size at hRun hValue hDigits hYear ⊢
          rw [readYear, List.cons_append, Text.trimStart_cons hBlank]
          simp [hRun, hDigits, hValue, hYear]
      · next hPositive =>
          have hYear : (year.natAbs : Int) = year := by omega
          have hBlank : Text.isBlank '+' = false := by decide
          generalize year.natAbs = size at hRun hValue hDigits hYear ⊢
          rw [readYear, List.cons_append, Text.trimStart_cons hBlank]
          simp [hRun, hDigits, hValue, hYear]

/-- The month and the day of a date have at most two digits. -/
theorem lt_of_valid (date : Date) : date.month < tenTo 2 ∧ date.day < tenTo 2 := by
  have hValid := date.valid
  have hPower : tenTo 2 = 100 := by decide
  have hDays : daysIn date.year date.month ≤ 31 := by
    rw [daysIn]
    split
    · split <;> omega
    · split <;> omega
  simp only [isValid, Bool.and_eq_true, decide_eq_true_eq] at hValid
  omega

theorem of?_parts (date : Date) : of? date.year date.month date.day = some date :=
  dif_pos date.valid

/-- A date is read from its characters, whatever follows. -/
theorem read_chars (date : Date) (rest : List Char) :
    read (date.chars ++ rest) = some (date, rest) := by
  obtain ⟨hMonth, hDay⟩ := date.lt_of_valid
  have hMark : Text.isBlank '-' = false := by decide
  have hChars : date.chars ++ rest =
      yearText date.year ++ '-' :: (padded 2 date.month ++ '-' :: (padded 2 date.day ++ rest)) := by
    simp [chars]
  rw [hChars, read, readYear_yearText]
  simp only [Option.bind_eq_bind, Option.bind_some, readMark_cons hMark,
    readNumber_padded (by decide) hMonth, readNumber_padded (by decide) hDay, of?_parts]
  rfl

/-- A date is read back from its text. -/
theorem ofText?_text (date : Date) : ofText? date.text = some date := by
  have hRead := date.read_chars []
  rw [List.append_nil] at hRead
  rw [ofText?, text, String.toList_ofList, hRead]
  rfl

end Date

namespace DateTime

/-! ## Moments -/

theorem of?_parts (moment : DateTime) :
    of? moment.date moment.hour moment.minute moment.second moment.nano = some moment :=
  dif_pos ⟨⟨moment.hour_lt, moment.minute_lt⟩, moment.second_le, moment.nano_lt⟩

/-- The digits behind the point of a second, as many as are written, stand for its nanoseconds. -/
theorem readNano_padded {width part : Nat} (hWidth : 0 < width) (hMost : width ≤ 9)
    (h : part < tenTo width) :
    readNano ('.' :: padded width part) = some (part * tenTo (9 - width), []) := by
  have hLength := Text.length_padded hWidth h
  have hKept : (padded width part).take 9 = padded width part := by
    apply List.take_of_length_le
    omega
  rw [readNano]
  simp only [Text.takeWhile_padded, hKept, hLength, Text.digitsValue_padded]
  simp [Text.padded_ne_nil, hLength]

theorem readNano_nanoText {nano : Nat} (h : nano < nanosPerSecond) :
    readNano (nanoText nano) = some (nano, []) := by
  rw [nanosPerSecond] at h
  have hThree : tenTo 3 = 1000 := by decide
  have hSix : tenTo 6 = 1000000 := by decide
  have hNine : tenTo 9 = 1000000000 := by decide
  have hZero : tenTo 0 = 1 := by decide
  rw [nanoText]
  split
  · next hNone =>
      rw [hNone]
      rfl
  split
  · next hMilli =>
      have hRead := @readNano_padded 3 (nano / 1000000) (by decide) (by decide) (by omega)
      have hNano : nano / 1000000 * tenTo (9 - 3) = nano := by
        rw [hSix]
        omega
      rw [hRead, hNano]
  split
  · next hMicro =>
      have hRead := @readNano_padded 6 (nano / 1000) (by decide) (by decide) (by omega)
      have hNano : nano / 1000 * tenTo (9 - 6) = nano := by
        rw [hThree]
        omega
      rw [hRead, hNano]
  · have hRead := @readNano_padded 9 nano (by decide) (by decide) (by omega)
    have hNano : nano * tenTo (9 - 9) = nano := by
      rw [hZero]
      omega
    rw [hRead, hNano]

/-- A moment is read back from its text. -/
theorem ofText?_text (moment : DateTime) : ofText? (moment.textWith 'T') = some moment := by
  have hPower : tenTo 2 = 100 := by decide
  have hHour : moment.hour < tenTo 2 := by have hLess := moment.hour_lt; omega
  have hMinute : moment.minute < tenTo 2 := by have hLess := moment.minute_lt; omega
  have hSecond : moment.second < tenTo 2 := by have hLess := moment.second_le; omega
  have hBetween : Text.isBlank 'T' = false := by decide
  have hColon : Text.isBlank ':' = false := by decide
  have hText : (moment.textWith 'T').toList = moment.date.chars ++ 'T' ::
      (padded 2 moment.hour ++ ':' :: (padded 2 moment.minute ++ ':' ::
        (padded 2 moment.second ++ nanoText moment.nano))) := by
    simp [textWith]
  rw [ofText?, hText, Date.read_chars]
  simp only [Option.bind_eq_bind, Option.bind_some, Date.readMark_cons hBetween,
    Date.readMark_cons hColon, Date.readNumber_padded (by decide) hHour,
    Date.readNumber_padded (by decide) hMinute, Date.readNumber_padded (by decide) hSecond,
    readNano_nanoText moment.nano_lt, of?_parts]
  rfl

end DateTime

end BoundQuery
