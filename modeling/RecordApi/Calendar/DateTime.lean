import RecordApi.Calendar.Time

/-!
# Dates with times of day

A point in time without a zone of its own. `DateTimeForm` says how one is written: with which
character between the parts, with or without fractions of a second, with or without the letter of
universal time. `ofOffsetText?` reads the form with an offset and moves the result to universal
time; `epochSeconds` and `ofEpochSeconds?` count seconds from 1970.
-/

namespace RecordApi

/-- A day and a time of day. -/
structure DateTime where
  date : Date
  time : Time
  deriving DecidableEq

/-- A way of writing a day with a time: the character between them, whether fractions of a second
are written, and whether the letter of universal time stands at the end. -/
structure DateTimeForm where
  separator : Char
  fraction : Bool
  universal : Bool
  deriving DecidableEq

namespace DateTime

/-- Earlier or later. -/
def compare (a b : DateTime) : Ordering :=
  (a.date.compare b.date).then (a.time.compare b.time)

/-- A date with a time in a form. -/
def writeIn (form : DateTimeForm) (d : DateTime) : String :=
  String.ofList (d.date.writeChars ++ form.separator :: d.time.writeSeconds ++
    (if form.fraction then Time.writeFraction d.time.nano else []) ++
    (if form.universal then ['Z'] else []))

/-- What follows the separator of a form. A space stands for any amount of white space. -/
def separator? (c : Char) (s : List Char) : Option (List Char) :=
  if c == ' ' then some (Text.trimStart s) else Calendar.mark? c s

/-- The date with a time that is the whole text, in a form. -/
def ofForm? (form : DateTimeForm) (s : List Char) : Option DateTime := do
  let (date, s) ← Date.read? s
  let s ← separator? form.separator s
  let (time, s) ← Time.read? form.fraction s
  let s ← if form.universal then Calendar.mark? 'Z' s else some s
  if s.isEmpty then pure ⟨date, time⟩ else none

/-- The form in which values are kept and shown. -/
def plainForm : DateTimeForm := ⟨'T', true, false⟩

/-- A date with a time in the form in which values are kept. -/
def write (d : DateTime) : String :=
  d.writeIn plainForm

/-! ## Seconds -/

/-- The seconds since the start of 1970. A leap second counts as the second before it. -/
def epochSeconds (d : DateTime) : Int :=
  d.date.dayNumber * 86400 + (d.time.hour * 3600 + d.time.minute * 60 + min d.time.second 59 : Nat)

/-- The point in time so many seconds after the start of 1970, if the calendar reaches it. -/
def ofEpochSeconds? (seconds : Int) : Option DateTime := do
  let date ← Date.ofDayNumber? (Int.fdiv seconds 86400)
  let second := (Int.fmod seconds 86400).toNat
  let time ← Time.of? (second / 3600) (second / 60 % 60) (second % 60) 0
  pure ⟨date, time⟩

/-- The point in time so many minutes earlier, if the calendar reaches it. Seconds stay as they
are. -/
def backMinutes? (d : DateTime) (minutes : Int) : Option DateTime := do
  let total := d.date.dayNumber * 1440 + (d.time.hour * 60 + d.time.minute : Nat) - minutes
  let date ← Date.ofDayNumber? (Int.fdiv total 1440)
  let minute := (Int.fmod total 1440).toNat
  let time ← Time.of? (minute / 60) (minute % 60) d.time.second d.time.nano
  pure ⟨date, time⟩

/-! ## Offsets -/

/-- Exactly `width` digits at the start of a text. -/
def fixedDigits? (width : Nat) (s : List Char) : Option (Nat × List Char) :=
  match Calendar.digits? width s with
  | some (n, rest) => if rest.length + width == s.length then some (n, rest) else none
  | none => none

/-- An offset from universal time in minutes: the letter of universal time, or a sign, two digits
of hours, a colon and two digits of minutes. -/
def offset? (s : List Char) : Option Int :=
  match s with
  | ['Z'] | ['z'] => some 0
  | c :: rest =>
    let sign? : Option Int :=
      if c == '+' then some 1 else if c == '-' || c.toNat == 0x2212 then some (-1) else none
    do
      let sign ← sign?
      let (hours, rest) ← fixedDigits? 2 rest
      let rest ← Calendar.mark? ':' rest
      let (minutes, rest) ← fixedDigits? 2 rest
      if rest.isEmpty && hours < 24 && minutes < 60 then
        pure (sign * (hours * 60 + minutes : Nat))
      else none
  | [] => none

/-- The point in universal time that a text with an offset denotes. All numbers have their full
count of digits, and the letter or a space stands between the parts. -/
def ofOffsetText? (s : List Char) : Option DateTime := do
  let (year, s) ← fixedDigits? 4 s
  let s ← Calendar.mark? '-' s
  let (month, s) ← fixedDigits? 2 s
  let s ← Calendar.mark? '-' s
  let (day, s) ← fixedDigits? 2 s
  let s ← match s with
    | c :: rest => if c == 'T' || c == 't' || c == ' ' then some rest else none
    | [] => none
  let (hour, s) ← fixedDigits? 2 s
  let s ← Calendar.mark? ':' s
  let (minute, s) ← fixedDigits? 2 s
  let s ← Calendar.mark? ':' s
  let (second, s) ← fixedDigits? 2 s
  let (nano, s) ← Calendar.fraction? s
  let minutes ← offset? s
  let date ← Date.of? year month day
  let time ← Time.of? hour minute second nano
  DateTime.backMinutes? ⟨date, time⟩ minutes

end DateTime

end RecordApi
