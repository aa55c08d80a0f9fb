import RecordApi.Number.Binary64
import RecordApi.Text.Digits

/-!
# Scaled decimals

A decimal is a sign, a whole number below `2 ^ 96` and a count of at most 28 fraction digits. The
count is part of the value that is kept and shown, not of its order: `1.5` and `1.50` compare as
equal. `ofText?` reads and `write` shows a decimal; `ofBinary64?` and `toBinary64` convert.
-/

namespace RecordApi

/-- A whole number of units of `10 ^ -scale`, with a sign. -/
structure Decimal where
  negative : Bool
  units : Nat
  scale : Nat
  units_lt : units < 2 ^ 96
  scale_le : scale ≤ 28
  deriving DecidableEq

namespace Decimal

/-- The decimal with the given parts, if they are in range. -/
def ofParts? (negative : Bool) (units scale : Nat) : Option Decimal :=
  if h : units < 2 ^ 96 ∧ scale ≤ 28 then some ⟨negative, units, scale, h.1, h.2⟩ else none

instance : Inhabited Decimal := ⟨⟨false, 0, 0, by decide, by decide⟩⟩

/-- A 64-bit integer as a decimal. -/
def ofInt64 (n : Int64) : Decimal :=
  ⟨n.toInt < 0, n.toInt.natAbs, 0, by
    have h₁ := n.le_toInt
    have h₂ := n.toInt_lt
    omega, by decide⟩

/-- The decimal's value in units of `10 ^ -28`. -/
def value (d : Decimal) : Int :=
  let magnitude : Int := (d.units * 10 ^ (28 - d.scale) : Nat)
  if d.negative then -magnitude else magnitude

/-- The order of the values. -/
def compare (a b : Decimal) : Ordering :=
  Ord.compare a.value b.value

/-- A decimal with all its fraction digits. -/
def write (d : Decimal) : String :=
  let digits := Text.padded (d.scale + 1) d.units
  let whole := digits.take (digits.length - d.scale)
  let fraction := digits.drop (digits.length - d.scale)
  let body := if d.scale = 0 then whole else whole ++ ['.'] ++ fraction
  String.ofList (if d.negative then '-' :: body else body)

/-! ## Reading -/

/-- What has been read of a decimal: its digits as a number, how many of them stand behind the
point, whether the point was met and whether a digit was. -/
structure Scan where
  units : Nat
  scale : Nat
  point : Bool
  digit : Bool

/-- The decimal that has been read, rounded up when the digit that no longer fits is at least
five. One that outgrows its range by rounding gives up a fraction digit. Nothing but digits and
underscores may follow in `rest`. -/
def Scan.round? (negative : Bool) (s : Scan) (next : Nat) (rest : List Char) : Option Decimal :=
  let units := if 5 ≤ next then s.units + 1 else s.units
  if !rest.all fun c => Text.isDigit c || c == '_' then none
  else if units < 2 ^ 96 then ofParts? (negative && units != 0) units s.scale
  else if s.scale = 0 then none
  else ofParts? negative ((units + 4) / 10) (s.scale - 1)

/-- Whether the number in front of the last digit stays below a tenth of a word of 64 bits, less a
margin. -/
def Scan.isShort (s : Scan) : Bool :=
  s.units / 10 < (2 ^ 64 - 1) / 10 - 255

/-- Reads digits, at most one point, and underscores behind the first digit. A digit that no longer
fits behind the point rounds what was read, and underscores in front of it are passed over. Where
the digits are few, though, such an underscore already stands for the digit that no longer fits,
and leaves what was read as it is. -/
def Scan.run? (negative : Bool) (s : Scan) : List Char → Option Decimal
  | [] => if s.digit then ofParts? (negative && s.units != 0) s.units s.scale else none
  | c :: rest =>
    if s.point && s.scale == 28 then
      if Text.isDigit c then s.round? negative (Text.ofDigits [c]) rest
      else if c == '_' then
        if s.isShort then s.round? negative 0 rest else Scan.run? negative s rest
      else none
    else if Text.isDigit c then
      let d := Text.ofDigits [c]
      let units := s.units * 10 + d
      if units < 2 ^ 96 then
        Scan.run? negative ⟨units, if s.point then s.scale + 1 else 0, s.point, true⟩ rest
      else if s.point then s.round? negative d rest
      else none
    else if c == '.' && !s.point then Scan.run? negative { s with point := true } rest
    else if c == '_' && s.digit then Scan.run? negative s rest
    else none

/-- A decimal without an exponent: an optional sign and what `Scan.run?` reads. -/
def ofPlainText? (s : List Char) : Option Decimal :=
  let start : Scan := ⟨0, 0, false, false⟩
  match s with
  | '-' :: rest => start.run? true rest
  | '+' :: rest => start.run? false rest
  | _ => start.run? false s

/-- The decimal with at most `scale` fraction digits, a half going away from zero. -/
def roundTo (d : Decimal) (scale : Nat) : Decimal :=
  if h : d.scale ≤ scale then d
  else
    let unit := 10 ^ (d.scale - scale)
    ⟨d.negative, (2 * d.units + unit) / (2 * unit), scale, by
      have hunit : 2 ≤ unit := Nat.le_trans (by decide : 2 ≤ 10 ^ 1)
        (Nat.pow_le_pow_right (by decide) (by omega))
      have hu := d.units_lt
      refine (Nat.div_lt_iff_lt_mul (by omega)).2 ?_
      have : 2 ^ 96 * 2 * 2 ≤ 2 ^ 96 * (2 * unit) := by
        rw [Nat.mul_assoc]; exact Nat.mul_le_mul_left _ (Nat.mul_le_mul_left _ hunit)
      have : 2 ^ 96 * 2 * unit ≥ 2 * unit := by
        exact Nat.mul_le_mul_right _ (by decide)
      omega, by have := d.scale_le; omega⟩

/-- The decimal moved by a power of ten. Fraction digits are used up first; a power beyond them
gives a whole number. A negative power takes the number down by at most 28 places, and what would
stand behind the 28th fraction digit is rounded off. -/
def shift? (d : Decimal) (e : Int) : Option Decimal :=
  if e < 0 then
    let down := (-e).toNat
    if down ≤ 28 then
      let kept := d.roundTo (28 - down)
      ofParts? kept.negative kept.units (kept.scale + down)
    else none
  else if e.toNat ≤ d.scale then ofParts? d.negative d.units (d.scale - e.toNat)
  else if e.toNat ≤ 28 then ofParts? d.negative (d.units * 10 ^ (e.toNat - d.scale)) 0
  else none

/-- The power of ten behind the letter e: digits below `2 ^ 32` with an optional plus sign, and
with an optional minus sign in front of that. -/
def powerText? (s : List Char) : Option Int :=
  match s with
  | '-' :: rest => (Text.unsigned? (2 ^ 32) rest).map fun n => -(n : Int)
  | _ => (Text.unsigned? (2 ^ 32) s).map fun n => (n : Int)

/-- The decimal that the whole text denotes, with an optional exponent. -/
def ofText? (s : List Char) : Option Decimal :=
  let isLetter (c : Char) : Bool := c == 'e' || c == 'E'
  match s.dropWhile fun c => !isLetter c with
  | [] => ofPlainText? s
  | _ :: power => do
    let d ← ofPlainText? (s.takeWhile fun c => !isLetter c)
    d.shift? (← powerText? power)

/-! ## Conversions -/

/-- Halves or multiplies `m` until `m * 2 ^ e` is a whole number of powers of ten: `five` powers of
five are still to be multiplied in, and `ten` is the power of ten reached. A multiplication that
would leave 96 bits is replaced by a halving, which loses a bit. -/
def clearTwos : Nat → Nat → Int → Nat × Int
  | 0, m, ten => (m, ten)
  | five + 1, m, ten =>
    if m % 2 == 0 then clearTwos five (m / 2) (ten + 1)
    else if m * 5 < 2 ^ 96 then clearTwos five (m * 5) ten
    else clearTwos five (m / 2) (ten + 1)

/-- Doubles `m` and divides by ten for each of `five` powers of five, or divides by five where
doubling would leave 96 bits. -/
def clearFives : Nat → Nat → Int → Nat × Int
  | 0, m, ten => (m, ten)
  | five + 1, m, ten =>
    if m < 2 ^ 95 then clearFives five (m * 2) (ten - 1) else clearFives five (m / 5) ten

/-- Removes one digit and rounds a five up. -/
def dropDigit (m : Nat) : Nat :=
  m / 10 + if 5 ≤ m % 10 then 1 else 0

/-- Drops digits until at most 28 stand behind the point; a number that becomes zero on the way is
zero without fraction digits. -/
def fitScale : Nat → Nat → Int → Nat × Int
  | 0, m, ten => (m, ten)
  | fuel + 1, m, ten =>
    if -28 ≤ ten then (m, ten)
    else if m / 10 == 0 then (0, 0)
    else fitScale fuel (dropDigit m) (ten + 1)

/-- Drops fraction digits until at most 52 bits are left. -/
def fitBits : Nat → Nat → Int → Nat × Int
  | 0, m, ten => (m, ten)
  | fuel + 1, m, ten =>
    if ten < 0 && 2 ^ 52 ≤ m then fitBits fuel (dropDigit m) (ten + 1) else (m, ten)

/-- Drops the zeros at the end of the fraction. -/
def dropZeros : Nat → Nat → Int → Nat × Int
  | 0, m, ten => (m, ten)
  | fuel + 1, m, ten =>
    if ten < 0 && m % 10 == 0 then dropZeros fuel (m / 10) (ten + 1) else (m, ten)

/-- The rank of `2 ^ 96`, the first magnitude beyond the decimals. -/
abbrev wholeLimit : Nat := (1023 + 96) * 2 ^ 52

/-- A double-precision number as a decimal of about its precision, if it is finite and in range.
One that is too small for 28 fraction digits becomes zero and keeps its sign. -/
def ofBinary64? (x : Binary64) : Option Decimal :=
  match x with
  | .nan => none
  | .signed negative rank _ =>
    if rank == 0 then ofParts? negative 0 0
    else if wholeLimit ≤ rank then none
    else
      let m := Binary64.significand rank
      let e := Binary64.exponent rank
      let (m, ten) :=
        if e < 0 then clearTwos (-e).toNat m e else clearFives e.toNat m e
      if 0 < ten then
        ofParts? negative (m * 10 ^ ten.toNat) 0
      else
        let (m, ten) := fitScale 1200 m ten
        let (m, ten) := fitBits 28 m ten
        let (m, ten) := dropZeros 28 m ten
        ofParts? negative m (-ten).toNat

/-- The double-precision number that a decimal becomes: whole and fraction part are rounded each
for itself, added, and rounded again to the fraction digits of the decimal. -/
def toBinary64 (d : Decimal) : Binary64 :=
  let signed (x : Binary64) : Binary64 := if d.negative then x.neg else x
  if d.scale = 0 then .ofInt (if d.negative then -(d.units : Int) else d.units)
  else
    let unit := 10 ^ d.scale
    let whole := Binary64.ofRatio false (d.units / unit) 1
    let tens := Binary64.ofRatio false unit 1
    let fraction := (Binary64.ofRatio false (d.units % unit) 1).div tens
    match whole, fraction with
    | .signed _ w _, .signed _ f _ =>
      if f == 0 then signed whole
      else
        match (Binary64.addMagnitudes w f).mul tens with
        | .signed _ r _ => signed ((Binary64.ofRatio false (Binary64.roundMagnitude r) 1).div tens)
        | .nan => .nan
    | _, _ => .nan

end Decimal

end RecordApi
