import RecordApi.Json.Basic
import RecordApi.Text.Digits

/-!
# JSON numbers

Reading of a number at the start of a text. A whole number of 64 bits, with or without a sign, is
kept as it is; negative zero and every other number becomes a double-precision number. That number
is the product or quotient of the digits that fit 64 bits and a power of ten, rounded at each step,
and so may be a neighbour of the nearest one. A number beyond the format is refused.
-/

namespace RecordApi.Json

/-- The first number that does not fit 64 bits. -/
abbrev wordBound : Nat := 2 ^ 64

/-- The double-precision number for `10 ^ e`. -/
def tenTo (e : Nat) : Binary64 :=
  .ofDecimal false 1 e

/-- The number `x * 10 ^ e` by at most one product, or by quotients with `10 ^ 308` and one more. -/
def scaleByTen? : Nat → Binary64 → Int → Option Binary64
  | 0, x, _ => some x
  | fuel + 1, x, e =>
    if e.natAbs ≤ 308 then
      if 0 ≤ e then
        let y := x.mul (tenTo e.natAbs)
        if y.isInfinite then none else some y
      else some (x.div (tenTo e.natAbs))
    else if x.isZero then some x
    else if 0 ≤ e then none
    else scaleByTen? fuel (x.div (tenTo 308)) (e + 308)

/-- The number `±digits * 10 ^ e`, if it does not leave the format. Four quotients take every word
to zero. -/
def ofScientific? (negative : Bool) (digits : Nat) (e : Int) : Option Json :=
  (scaleByTen? 5 (.ofInt digits) e).bind fun x =>
    (if negative then x.neg else x).finite?.map .float

/-- Appends digits to a number as long as the result fits 64 bits. Gives the number, how many digits
were appended and what follows them. -/
def appendDigits (n count : Nat) : List Char → Nat × Nat × List Char
  | [] => (n, count, [])
  | c :: rest =>
    if Text.isDigit c then
      let m := n * 10 + (c.toNat - 48)
      if m < wordBound then appendDigits m (count + 1) rest else (n, count, c :: rest)
    else (n, count, c :: rest)

/-- The number of digits at the start of a text, and what follows them. -/
def skipDigits (s : List Char) : Nat × List Char :=
  ((s.takeWhile Text.isDigit).length, s.dropWhile Text.isDigit)

/-- Reads an exponent behind the letter e, and makes the number. An exponent beyond 31 bits gives
zero or is refused. -/
def exponent? (negative : Bool) (digits : Nat) (e : Int) (s : List Char) :
    Option (Json × List Char) :=
  let (down, s) := match s with
    | '-' :: rest => (true, rest)
    | '+' :: rest => (false, rest)
    | _ => (false, s)
  let power := s.takeWhile Text.isDigit
  let rest := s.dropWhile Text.isDigit
  if power.isEmpty then none
  else
    let p := Text.ofDigits power
    if p < 2 ^ 31 then
      (ofScientific? negative digits (if down then e - p else e + p)).map (·, rest)
    else if down || digits = 0 then (ofScientific? negative 0 0).map (·, rest)
    else none

/-- Reads an exponent, if there is one, and makes the number. -/
def optionalExponent? (negative : Bool) (digits : Nat) (e : Int) (s : List Char) :
    Option (Json × List Char) :=
  match s with
  | c :: rest =>
    if c == 'e' || c == 'E' then exponent? negative digits e rest
    else (ofScientific? negative digits e).map (·, s)
  | [] => (ofScientific? negative digits e).map (·, s)

/-- Reads the digits behind the point. Those that no longer fit 64 bits are passed over. -/
def fraction? (negative : Bool) (digits : Nat) (e : Int) (s : List Char) :
    Option (Json × List Char) :=
  let (n, count, rest) := appendDigits digits 0 s
  let (passed, rest) := skipDigits rest
  if count = 0 && passed = 0 then none
  else optionalExponent? negative n (e - count) rest

/-- Makes the number whose whole digits have been read, or reads on behind a point or the letter e.
`passed` digits did not fit 64 bits. -/
def afterWhole? (negative : Bool) (digits passed : Nat) (s : List Char) :
    Option (Json × List Char) :=
  match s with
  | '.' :: rest => fraction? negative digits passed rest
  | 'e' :: rest | 'E' :: rest => exponent? negative digits passed rest
  | _ =>
    if 0 < passed then (ofScientific? negative digits passed).map (·, s)
    else if !negative then some (.int digits, s)
    else if digits = 0 || 2 ^ 63 < digits then (ofScientific? true digits 0).map (·, s)
    else some (.int (-(digits : Int)), s)

/-- The number at the start of a text, and what follows it. Only zero itself begins with a zero. -/
def number? (s : List Char) : Option (Json × List Char) :=
  let (negative, s) := match s with
    | '-' :: rest => (true, rest)
    | _ => (false, s)
  match s with
  | '0' :: c :: rest => if Text.isDigit c then none else afterWhole? negative 0 0 (c :: rest)
  | _ =>
    let (n, count, rest) := appendDigits 0 0 s
    let (passed, rest) := skipDigits rest
    if count = 0 then none else afterWhole? negative n passed rest

end RecordApi.Json
