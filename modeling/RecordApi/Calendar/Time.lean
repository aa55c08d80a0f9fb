import RecordApi.Calendar.Date

/-!
# Times of day

A time of day to the nanosecond. Second 60 is a leap second, which any minute may have. A fraction
is shown with no, three, six or nine digits; when it is read, digits past the ninth are dropped.
-/

namespace RecordApi

/-- Hours, minutes, seconds and nanoseconds since midnight. -/
structure Time where
  hour : Nat
  minute : Nat
  second : Nat
  nano : Nat
  hour_lt : hour < 24
  minute_lt : minute < 60
  second_le : second ≤ 60
  nano_lt : nano < 10 ^ 9
  deriving DecidableEq

namespace Time

/-- The time with the given numbers, if there is one. -/
def of? (hour minute second nano : Nat) : Option Time :=
  if h : hour < 24 ∧ minute < 60 ∧ second ≤ 60 ∧ nano < 10 ^ 9 then
    some ⟨hour, minute, second, nano, h.1, h.2.1, h.2.2.1, h.2.2.2⟩
  else
    none

/-- Earlier or later. -/
def compare (a b : Time) : Ordering :=
  (Ord.compare a.hour b.hour).then ((Ord.compare a.minute b.minute).then
    ((Ord.compare a.second b.second).then (Ord.compare a.nano b.nano)))

/-- Hours, minutes and seconds with colons between them. -/
def writeSeconds (t : Time) : List Char :=
  Text.padded 2 t.hour ++ ':' :: Text.padded 2 t.minute ++ ':' :: Text.padded 2 t.second

/-- A point and three, six or nine digits, or nothing for a whole second. -/
def writeFraction (nano : Nat) : List Char :=
  if nano = 0 then []
  else if nano % 1000000 = 0 then '.' :: Text.padded 3 (nano / 1000000)
  else if nano % 1000 = 0 then '.' :: Text.padded 6 (nano / 1000)
  else '.' :: Text.padded 9 nano

/-- A time with its fraction. -/
def writeChars (t : Time) : List Char :=
  t.writeSeconds ++ writeFraction t.nano

/-- A time with its fraction, as a string. -/
def write (t : Time) : String :=
  String.ofList t.writeChars

end Time

namespace Calendar

/-- The fraction of a second at the start of a text, in nanoseconds: none if there is no point, and
at least one digit behind a point. -/
def fraction? (s : List Char) : Option (Nat × List Char) :=
  match s with
  | '.' :: rest =>
    (digits? 9 rest).map fun (n, after) =>
      (n * 10 ^ (9 - (rest.length - after.length)), after.dropWhile Text.isDigit)
  | _ => some (0, s)

/-- Hours, minutes and seconds with colons between them, at the start of a text. -/
def clock? (s : List Char) : Option ((Nat × Nat × Nat) × List Char) := do
  let (hour, s) ← number? 2 s
  let s ← mark? ':' s
  let (minute, s) ← number? 2 s
  let s ← mark? ':' s
  let (second, s) ← number? 2 s
  pure ((hour, minute, second), s)

end Calendar

open Calendar in
/-- The time at the start of a text, with a fraction if that is asked for, and what follows it. -/
def Time.read? (withFraction : Bool) (s : List Char) : Option (Time × List Char) := do
  let ((hour, minute, second), s) ← clock? s
  let (nano, s) ← if withFraction then fraction? s else some (0, s)
  let time ← Time.of? hour minute second nano
  pure (time, s)

/-- The time, with an optional fraction, that is the whole text. -/
def Time.ofText? (s : List Char) : Option Time :=
  match Time.read? true s with
  | some (t, []) => some t
  | _ => none

end RecordApi
