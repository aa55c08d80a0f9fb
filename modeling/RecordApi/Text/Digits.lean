import RecordApi.Instances

/-!
# Decimal digits

Whole numbers as texts of ASCII decimal digits. `unsigned?` and `signed?` read a number that is
the whole text, with an optional sign and any number of leading zeros; `padded` writes one with a
least width.
-/

namespace RecordApi.Text

/-- Whether a character is an ASCII decimal digit. -/
def isDigit (c : Char) : Bool :=
  '0' ≤ c && c ≤ '9'

/-- The value of a text of digits, most significant first. -/
def ofDigits (digits : List Char) : Nat :=
  Nat.ofDigitChars 10 digits 0

/-- The digits of a number without leading zeros. -/
def natDigits (n : Nat) : List Char :=
  Nat.toDigits 10 n

/-- The digits of a number, with zeros in front up to the given width. -/
def padded (width n : Nat) : List Char :=
  let digits := natDigits n
  List.replicate (width - digits.length) '0' ++ digits

/-- A number with a minus sign when it is negative. -/
def intDigits (n : Int) : List Char :=
  if n < 0 then '-' :: natDigits n.natAbs else natDigits n.natAbs

/-- The value of a text that is one or more digits and nothing else. -/
def digitsOnly? (s : List Char) : Option Nat :=
  if s.isEmpty || !s.all isDigit then none else some (ofDigits s)

/-- The number below `bound` that a text of digits, with an optional plus sign, denotes. -/
def unsigned? (bound : Nat) (s : List Char) : Option Nat :=
  let digits := match s with
    | '+' :: rest => rest
    | _ => s
  (digitsOnly? digits).filter (· < bound)

/-- The number from `-bound` up to, and without, `bound` that a text of digits with an optional
sign denotes. -/
def signed? (bound : Nat) (s : List Char) : Option Int :=
  let value : Option Int := match s with
    | '-' :: rest => (digitsOnly? rest).map fun n => -(n : Int)
    | '+' :: rest => (digitsOnly? rest).map fun n => (n : Int)
    | _ => (digitsOnly? s).map fun n => (n : Int)
  value.filter fun n => -(bound : Int) ≤ n && n < bound

/-- The value of a digit in base sixteen of either case. -/
def hexDigit? (c : Char) : Option Nat :=
  if '0' ≤ c && c ≤ '9' then some (c.toNat - 48)
  else if 'a' ≤ c && c ≤ 'f' then some (c.toNat - 87)
  else if 'A' ≤ c && c ≤ 'F' then some (c.toNat - 55)
  else none

theorem ofDigits_natDigits (n : Nat) : ofDigits (natDigits n) = n :=
  Nat.ofDigitChars_toDigits (by decide) (by decide)

/-- The 64-bit integer that a text of digits with an optional sign denotes. -/
def int64? (s : List Char) : Option Int64 :=
  (signed? (2 ^ 63) s).map Int64.ofInt

end RecordApi.Text
