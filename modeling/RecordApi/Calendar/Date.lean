import RecordApi.Text.Blank
import RecordApi.Text.Digits

/-!
# Dates

Days of the proleptic Gregorian calendar, from year -262143 to year 262142. `Date.write` shows a
date as year, month and day, `Date.read?` reads one at the start of a text. Numbers that are read
may have fewer digits than are written and white space before them.
-/

namespace RecordApi

/-- Whether a year has 366 days. -/
def isLeapYear (year : Int) : Bool :=
  year % 4 == 0 && (year % 100 != 0 || year % 400 == 0)

/-- The number of days of a month, or zero if there is no such month. -/
def daysInMonth (year : Int) (month : Nat) : Nat :=
  match month with
  | 1 | 3 | 5 | 7 | 8 | 10 | 12 => 31
  | 4 | 6 | 9 | 11 => 30
  | 2 => if isLeapYear year then 29 else 28
  | _ => 0

/-- A day of the calendar. -/
structure Date where
  year : Int
  month : Nat
  day : Nat
  year_ge : -262143 ≤ year
  year_le : year ≤ 262142
  day_pos : 1 ≤ day
  day_le : day ≤ daysInMonth year month
  deriving DecidableEq

namespace Date

/-- The day with the given numbers, if there is one. -/
def of? (year : Int) (month day : Nat) : Option Date :=
  if h : -262143 ≤ year ∧ year ≤ 262142 ∧ 1 ≤ day ∧ day ≤ daysInMonth year month then
    some ⟨year, month, day, h.1, h.2.1, h.2.2.1, h.2.2.2⟩
  else
    none

/-- Earlier or later. -/
def compare (a b : Date) : Ordering :=
  (Ord.compare a.year b.year).then ((Ord.compare a.month b.month).then (Ord.compare a.day b.day))

/-- A year has four digits; outside 0 to 9999 it also has a sign. -/
def writeYear (year : Int) : List Char :=
  if 0 ≤ year ∧ year ≤ 9999 then Text.padded 4 year.natAbs
  else (if year < 0 then '-' else '+') :: Text.padded 4 year.natAbs

/-- Year, month and day with hyphens between them. -/
def writeChars (d : Date) : List Char :=
  writeYear d.year ++ '-' :: Text.padded 2 d.month ++ '-' :: Text.padded 2 d.day

/-- Year, month and day with hyphens between them, as a string. -/
def write (d : Date) : String :=
  String.ofList d.writeChars

end Date

namespace Calendar

/-- The digits at the start of a text, at most `width` of them, as a number; at least one. -/
def digits? (width : Nat) (s : List Char) : Option (Nat × List Char) :=
  let digits := (s.take width).takeWhile Text.isDigit
  if digits.isEmpty then none else some (Text.ofDigits digits, s.drop digits.length)

/-- The number that `digits?` reads behind optional white space. -/
def number? (width : Nat) (s : List Char) : Option (Nat × List Char) :=
  digits? width (Text.trimStart s)

/-- The year at the start of a text: at most four digits, or a sign and any number of them, behind
optional white space. -/
def year? (s : List Char) : Option (Int × List Char) :=
  match Text.trimStart s with
  | '-' :: rest => (digits? rest.length rest).map fun (n, r) => (-(n : Int), r)
  | '+' :: rest => (digits? rest.length rest).map fun (n, r) => ((n : Int), r)
  | rest => (digits? 4 rest).map fun (n, r) => ((n : Int), r)

/-- What follows the character `c` at the start of a text. -/
def mark? (c : Char) : List Char → Option (List Char)
  | [] => none
  | d :: rest => if d == c then some rest else none

end Calendar

open Calendar in
/-- The date at the start of a text, and what follows it. -/
def Date.read? (s : List Char) : Option (Date × List Char) := do
  let (year, s) ← year? s
  let s ← mark? '-' s
  let (month, s) ← number? 2 s
  let s ← mark? '-' s
  let (day, s) ← number? 2 s
  let date ← Date.of? year month day
  pure (date, s)

/-- The date that is the whole text. -/
def Date.ofText? (s : List Char) : Option Date :=
  match Date.read? s with
  | some (d, []) => some d
  | _ => none

/-! ## Day numbers -/

/-- The number of the day, counted from 1970-01-01. Years are taken to begin in March, so that the
leap day is the last of its year. -/
def Date.dayNumber (d : Date) : Int :=
  let year := if d.month ≤ 2 then d.year - 1 else d.year
  let era := Int.fdiv year 400
  let yearOfEra := year - era * 400
  let dayOfYear : Int := ((153 * ((d.month + 9) % 12) + 2) / 5 + d.day - 1 : Nat)
  let dayOfEra := yearOfEra * 365 + yearOfEra / 4 - yearOfEra / 100 + dayOfYear
  era * 146097 + dayOfEra - 719468

/-- The day with a number, if the calendar reaches it. -/
def Date.ofDayNumber? (n : Int) : Option Date :=
  let shifted := n + 719468
  let era := Int.fdiv shifted 146097
  let dayOfEra := shifted - era * 146097
  let yearOfEra := (dayOfEra - dayOfEra / 1460 + dayOfEra / 36524 - dayOfEra / 146096) / 365
  let dayOfYear := dayOfEra - (365 * yearOfEra + yearOfEra / 4 - yearOfEra / 100)
  let monthFromMarch := (5 * dayOfYear + 2) / 153
  let day := (dayOfYear - (153 * monthFromMarch + 2) / 5 + 1).toNat
  let month := (if monthFromMarch < 10 then monthFromMarch + 3 else monthFromMarch - 9).toNat
  let year := yearOfEra + era * 400 + if month ≤ 2 then 1 else 0
  Date.of? year month day

end RecordApi
