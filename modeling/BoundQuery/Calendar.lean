import BoundQuery.Text.Blank
import BoundQuery.Text.Digits

/-!
# Dates and times

Dates of the Gregorian calendar, extended backwards with a year zero, and times of day down to the
nanosecond, with a sixtieth second for leap seconds. A date is written `2024-01-31`, a year outside
0 to 9999 with its sign; a time is written `12:30:00` with no, three, six or nine digits after the
second. Readers accept blanks before numbers and signs, and numbers without leading zeros.
-/

namespace BoundQuery

/-- A year with a 29th of February. -/
def Date.isLeap (year : Int) : Bool := year % 4 = 0 && (year % 100 ≠ 0 || year % 400 = 0)

def Date.daysIn (year : Int) (month : Nat) : Nat :=
  if month = 2 then (if Date.isLeap year then 29 else 28)
  else if month = 4 || month = 6 || month = 9 || month = 11 then 30
  else 31

/-- Whether three numbers name a day of the calendar. -/
def Date.isValid (year : Int) (month day : Nat) : Bool :=
  -262143 ≤ year && year ≤ 262142 && 1 ≤ month && month ≤ 12 && 1 ≤ day &&
    day ≤ Date.daysIn year month

/-- A day of the calendar. -/
structure Date where
  year : Int
  month : Nat
  day : Nat
  valid : Date.isValid year month day = true
  deriving DecidableEq

def DateTime.nanosPerSecond : Nat := 1000000000

/-- A day and a time of day. -/
structure DateTime where
  date : Date
  hour : Nat
  minute : Nat
  second : Nat
  nano : Nat
  hour_lt : hour < 24
  minute_lt : minute < 60
  second_le : second ≤ 60
  nano_lt : nano < DateTime.nanosPerSecond
  deriving DecidableEq

namespace Date

def of? (year : Int) (month day : Nat) : Option Date :=
  if h : isValid year month day = true then some ⟨year, month, day, h⟩ else none

/-- A year with at least four digits, and with its sign outside 0 to 9999. -/
def yearText (year : Int) : List Char :=
  if 0 ≤ year && year ≤ 9999 then Text.padded 4 year.toNat
  else (if year < 0 then '-' else '+') :: Text.padded 4 year.natAbs

def chars (date : Date) : List Char :=
  yearText date.year ++ '-' :: Text.padded 2 date.month ++ '-' :: Text.padded 2 date.day

def text (date : Date) : String := String.ofList date.chars

/-- Reads one to `most` digits after blanks; also gives the characters after them. -/
def readNumber (most : Nat) (cs : List Char) : Option (Nat × List Char) :=
  let rest := Text.trimStart cs
  let digits := (rest.take most).takeWhile Text.isDigit
  if digits.isEmpty then none else some (Text.digitsValue digits, rest.drop digits.length)

/-- Reads a given character, after blanks. -/
def readMark (mark : Char) (cs : List Char) : Option (List Char) :=
  match Text.trimStart cs with
  | c :: rest => if c = mark then some rest else none
  | [] => none

/-- Reads a year: at most four digits, or a sign and any number of digits directly after it. -/
def readYear (cs : List Char) : Option (Int × List Char) :=
  let signed (sign : Int) (rest : List Char) : Option (Int × List Char) :=
    let digits := rest.takeWhile Text.isDigit
    if digits.isEmpty then none
    else some (sign * Text.digitsValue digits, rest.drop digits.length)
  match Text.trimStart cs with
  | '-' :: rest => signed (-1) rest
  | '+' :: rest => signed 1 rest
  | rest => (readNumber 4 rest).map fun (year, rest) => (year, rest)

/-- Reads a date; also gives the characters after it. -/
def read (cs : List Char) : Option (Date × List Char) := do
  let (year, cs) ← readYear cs
  let (month, cs) ← readNumber 2 (← readMark '-' cs)
  let (day, cs) ← readNumber 2 (← readMark '-' cs)
  return (← of? year month day, cs)

/-- The date that a text spells, blanks at its end allowed. -/
def ofText? (text : String) : Option Date := do
  let (date, rest) ← read text.toList
  if (Text.trimStart rest).isEmpty then some date else none

end Date

namespace DateTime

def of? (date : Date) (hour minute second nano : Nat) : Option DateTime :=
  if h : (hour < 24 ∧ minute < 60) ∧ second ≤ 60 ∧ nano < nanosPerSecond then
    some ⟨date, hour, minute, second, nano, h.1.1, h.1.2, h.2.1, h.2.2⟩
  else none

/-- The part of a second, in the fewest of no, three, six or nine digits that hold it. -/
def nanoText (nano : Nat) : List Char :=
  if nano = 0 then []
  else if nano % 1000000 = 0 then '.' :: Text.padded 3 (nano / 1000000)
  else if nano % 1000 = 0 then '.' :: Text.padded 6 (nano / 1000)
  else '.' :: Text.padded 9 nano

/-- The written form with a given character between the date and the time. -/
def textWith (between : Char) (moment : DateTime) : String :=
  String.ofList (moment.date.chars ++ between :: Text.padded 2 moment.hour ++
    ':' :: Text.padded 2 moment.minute ++ ':' :: Text.padded 2 moment.second ++
    nanoText moment.nano)

/-- Reads the digits after the second's point: nine count, further ones are dropped. -/
def readNano (cs : List Char) : Option (Nat × List Char) :=
  match cs with
  | '.' :: rest =>
      let digits := rest.takeWhile Text.isDigit
      let kept := digits.take 9
      if digits.isEmpty then none
      else some (Text.digitsValue kept * tenTo (9 - kept.length), rest.drop digits.length)
  | _ => some (0, cs)

/-- The moment that a text spells: a date, a `T` and a time, blanks at its end allowed. -/
def ofText? (text : String) : Option DateTime := do
  let (date, cs) ← Date.read text.toList
  let (hour, cs) ← Date.readNumber 2 (← Date.readMark 'T' cs)
  let (minute, cs) ← Date.readNumber 2 (← Date.readMark ':' cs)
  let (second, cs) ← Date.readNumber 2 (← Date.readMark ':' cs)
  let (nano, cs) ← readNano cs
  let moment ← of? date hour minute second nano
  if (Text.trimStart cs).isEmpty then some moment else none

end DateTime

end BoundQuery
