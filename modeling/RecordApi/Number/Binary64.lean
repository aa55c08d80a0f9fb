import RecordApi.Instances

/-!
# Double-precision numbers

A number of the binary64 format is `nan`, or a sign and a rank. Ranks count the magnitudes of the
format in increasing order from zero to infinity, so that the order of numbers is the order of
ranks and rounding to even is rounding to an even rank. Arithmetic takes exact quotients and
rounds once, by `rankOfRatio`.
-/

namespace RecordApi

/-- The rank of infinity, one above the rank of the greatest finite magnitude. -/
abbrev Binary64.infinityRank : Nat := 0x7FF0000000000000

/-- A double-precision number. All that is not a number is one value. -/
inductive Binary64 where
  | nan
  | signed (negative : Bool) (rank : Nat) (rank_le : rank ≤ Binary64.infinityRank)
  deriving DecidableEq

namespace Binary64

/-- The number of the given sign whose magnitude has the given rank, or infinity above that. -/
def ofRank (negative : Bool) (rank : Nat) : Binary64 :=
  .signed negative (min rank infinityRank) (Nat.min_le_right _ _)

/-- Zero, which has a sign. -/
def zero (negative : Bool) : Binary64 :=
  .ofRank negative 0

/-- Infinity of the given sign. -/
def infinity (negative : Bool) : Binary64 :=
  .ofRank negative infinityRank

instance : Inhabited Binary64 := ⟨zero false⟩

/-- Whether a number is neither infinite nor `nan`. -/
def isFinite : Binary64 → Bool
  | .nan => false
  | .signed _ rank _ => rank < infinityRank

/-- Whether a number is positive or negative infinity. -/
def isInfinite : Binary64 → Bool
  | .nan => false
  | .signed _ rank _ => rank == infinityRank

/-- Whether a number is zero of either sign. -/
def isZero : Binary64 → Bool
  | .nan => false
  | .signed _ rank _ => rank == 0

/-- The same magnitude with the other sign. -/
def neg : Binary64 → Binary64
  | .nan => .nan
  | .signed negative rank h => .signed (!negative) rank h

/-! ## Magnitudes

The magnitude of rank `r` is `significand r * 2 ^ exponent r`. -/

/-- The whole-number part of a magnitude. -/
def significand (rank : Nat) : Nat :=
  if rank < 2 ^ 52 then rank else 2 ^ 52 + rank % 2 ^ 52

/-- The power of two in a magnitude. -/
def exponent (rank : Nat) : Int :=
  if rank < 2 ^ 53 then -1074 else (rank / 2 ^ 52 : Nat) - 1075

/-- The quotient `num / den` rounded to the nearest whole number, a half to the even one. -/
def roundDiv (num den : Nat) : Nat :=
  let q := num / den
  let r := num % den
  if 2 * r < den then q else if den < 2 * r then q + 1 else q + q % 2

/-- The fraction `m * 2 ^ e` as numerator and denominator. -/
def scaleTwo (m : Nat) (e : Int) : Nat × Nat :=
  if 0 ≤ e then (m * 2 ^ e.toNat, 1) else (m, 2 ^ (-e).toNat)

/-- The exponent at which `num / den` has a significand of 53 bits, or the least exponent. -/
def exponentOfRatio (num den : Nat) : Int :=
  let gap : Int := (num.log2 : Int) - den.log2
  let (n, d) := scaleTwo num (-gap)
  max (-1074) (gap - if n < den * d then 53 else 52)

/-- The rank of the magnitude nearest to `num / den`, a half going to the even rank. -/
def rankOfRatio (num den : Nat) : Nat :=
  if num = 0 then 0
  else
    let e := exponentOfRatio num den
    let (n, d) := scaleTwo num (-e)
    (e + 1074).toNat * 2 ^ 52 + roundDiv n (den * d)

/-- The number nearest to `num / den`, with the given sign. -/
def ofRatio (negative : Bool) (num den : Nat) : Binary64 :=
  .ofRank negative (rankOfRatio num den)

/-- The number nearest to `m * 2 ^ e`, with the given sign. -/
def ofDyadic (negative : Bool) (m : Nat) (e : Int) : Binary64 :=
  let (n, d) := scaleTwo m e
  ofRatio negative n d

/-- The number nearest to a whole number. -/
def ofInt (n : Int) : Binary64 :=
  ofRatio (n < 0) n.natAbs 1

/-- The number nearest to `digits * 10 ^ e`, with the given sign. Powers beyond the format are cut
short: they give zero or infinity whatever the digits. -/
def ofDecimal (negative : Bool) (digits : Nat) (e : Int) : Binary64 :=
  if digits = 0 then zero negative
  else
    let order := (Nat.toDigits 10 digits).length + e
    if 400 < order then infinity negative
    else if order < -400 then zero negative
    else if 0 ≤ e then ofRatio negative (digits * 10 ^ e.toNat) 1
    else ofRatio negative digits (10 ^ (-e).toNat)

/-! ## Order -/

/-- Numbers other than `nan` are ordered by their keys; both zeros have the key `0`. -/
def key (negative : Bool) (rank : Nat) : Int :=
  if negative then -(rank : Int) else rank

/-- The order of two numbers, if both are numbers. -/
def compare : Binary64 → Binary64 → Option Ordering
  | .signed s r _, .signed t q _ => some (Ord.compare (key s r) (key t q))
  | _, _ => none

/-- Equality as numbers: zeros are equal and `nan` equals nothing. -/
def same (x y : Binary64) : Bool :=
  compare x y == some .eq

/-! ## Arithmetic -/

/-- The product, rounded. -/
def mul : Binary64 → Binary64 → Binary64
  | .signed s r _, .signed t q _ =>
    if r == infinityRank || q == infinityRank then
      if r == 0 || q == 0 then .nan else infinity (s != t)
    else ofDyadic (s != t) (significand r * significand q) (exponent r + exponent q)
  | _, _ => .nan

/-- The quotient, rounded. -/
def div : Binary64 → Binary64 → Binary64
  | .signed s r _, .signed t q _ =>
    if r == infinityRank then
      if q == infinityRank then .nan else infinity (s != t)
    else if q == infinityRank then zero (s != t)
    else if q == 0 then
      if r == 0 then .nan else infinity (s != t)
    else
      let (n, d) := scaleTwo (significand r) (exponent r - exponent q)
      ofRatio (s != t) n (d * significand q)
  | _, _ => .nan

/-- The sum of two finite magnitudes, rounded. -/
def addMagnitudes (r q : Nat) : Binary64 :=
  let e := min (exponent r) (exponent q)
  ofDyadic false
    (significand r * 2 ^ (exponent r - e).toNat + significand q * 2 ^ (exponent q - e).toNat) e

/-! ## Whole numbers -/

/-- The whole number next to a finite number in the direction of zero. -/
def truncate : Binary64 → Int
  | .nan => 0
  | .signed negative rank _ =>
    let (n, d) := scaleTwo (significand rank) (exponent rank)
    if negative then -((n / d : Nat) : Int) else (n / d : Nat)

/-- Whether a number is finite and whole. -/
def isWhole : Binary64 → Bool
  | .nan => false
  | .signed _ rank _ =>
    let (n, d) := scaleTwo (significand rank) (exponent rank)
    rank < infinityRank && n % d == 0

/-- The 64-bit integer next to a number in the direction of zero; numbers out of range give the
end of the range that is nearest to them, and `nan` gives zero. -/
def toInt64 (x : Binary64) : Int64 :=
  match x with
  | .nan => 0
  | .signed _ _ _ =>
    let n := truncate x
    if n < Int64.minValue.toInt then Int64.minValue
    else if Int64.maxValue.toInt < n then Int64.maxValue
    else Int64.ofInt n

/-- The nearest whole number to a magnitude, a half going away from zero. -/
def roundMagnitude (rank : Nat) : Nat :=
  let (n, d) := scaleTwo (significand rank) (exponent rank)
  (2 * n + d) / (2 * d)

/-! ## Bits -/

/-- The number whose format word is `bits`. -/
def ofBits (bits : Nat) : Binary64 :=
  let rank := bits % 2 ^ 63
  if h : rank ≤ infinityRank then .signed (bits / 2 ^ 63 % 2 == 1) rank h else .nan

/-- The format word of a number other than `nan`. -/
def bits? : Binary64 → Option Nat
  | .nan => none
  | .signed negative rank _ => some (if negative then 2 ^ 63 + rank else rank)

/-- A number that is neither infinite nor `nan`. -/
abbrev Finite := { x : Binary64 // x.isFinite = true }

/-- The number as a finite one, if it is. -/
def finite? (x : Binary64) : Option Finite :=
  if h : x.isFinite = true then some ⟨x, h⟩ else none

theorem isFinite_neg (x : Binary64) : x.neg.isFinite = x.isFinite := by
  cases x <;> rfl

end Binary64

end RecordApi
