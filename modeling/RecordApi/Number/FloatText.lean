import RecordApi.Number.Binary64
import RecordApi.Text.Digits

/-!
# Texts of double-precision numbers

`shortest` finds the fewest decimal digits that still denote a number, `FloatLayout.write` lays
them out, and `ofText?` reads a number. The three layouts differ in where the notation with a power
of ten begins, in whether a whole number keeps its point and a power its sign, and in which of two
texts that are equally near is taken.
-/

namespace RecordApi.Binary64

/-! ## The fewest digits -/

/-- The least and the greatest fraction that round to the magnitude of the given rank, over the
common denominator that comes third. They belong to the interval when the rank is even. -/
def interval (rank : Nat) : Nat × Nat × Nat :=
  let m := significand rank
  let e := exponent rank
  let below := if m == 2 ^ 52 && -1074 < e then 1 else 2
  let (lo, d) := scaleTwo (4 * m - below) (e - 2)
  let (hi, _) := scaleTwo (4 * m + 2) (e - 2)
  (lo, hi, d)

/-- The power of ten `k` with `10 ^ k ≤ num / den < 10 ^ (k + 1)`, for magnitudes of the format. -/
def decimalOrder (num den : Nat) : Int :=
  ((Nat.toDigits 10 (num * 10 ^ 400 / den)).length : Int) - 401

/-- The fraction `n * 10 ^ e` as numerator and denominator. -/
def scaleTen (n : Nat) (e : Int) : Nat × Nat :=
  if 0 ≤ e then (n * 10 ^ e.toNat, 1) else (n, 10 ^ (-e).toNat)

/-- Which of two numbers is taken that are equally near to a third: the even one or the greater. -/
inductive Tie where
  | toEven
  | up
  deriving DecidableEq

/-- The multiple of `10 ^ e` nearest to the magnitude among its two neighbours, given as the
factor, if one of them rounds to the magnitude. -/
def nearestOnGrid? (tie : Tie) (rank : Nat) (e : Int) : Option Nat :=
  let (n, d) := scaleTwo (significand rank) (exponent rank)
  let (tn, td) := scaleTen 1 e
  let low := n * td / (d * tn)
  let (lo, hi, w) := interval rank
  let inside (k : Nat) : Bool :=
    let (kn, kd) := scaleTen k e
    if rank % 2 == 0 then lo * kd ≤ kn * w && kn * w ≤ hi * kd
    else lo * kd < kn * w && kn * w < hi * kd
  -- twice the distance of the magnitude from `low`, in units of the grid
  let twice := 2 * (n * td - low * (d * tn))
  let lowFirst := twice < d * tn || (twice == d * tn && tie == .toEven && low % 2 == 0)
  if lowFirst && inside low then some low
  else if inside (low + 1) then some (low + 1)
  else if inside low then some low
  else none

/-- The fewest digits that denote the magnitude of a positive finite rank, as a whole number, and
the power of ten that it is multiplied by. -/
def shortest (tie : Tie) (rank : Nat) : Nat × Int :=
  let (n, d) := scaleTwo (significand rank) (exponent rank)
  let order := decimalOrder n d
  let found := (List.range 18).findSome? fun (k : Nat) =>
    (nearestOnGrid? tie rank (order - k)).map fun digits => (digits, order - k)
  found.getD (0, 0)

/-! ## Layouts -/

/-- How a number is laid out: the least and the greatest power of ten of its first digit at which
it is written without an exponent (no bound if none is given), whether a whole number keeps a
point and a zero, whether an exponent that is not negative has a plus sign, which digits are taken
where two texts are equally near, and the words for the rest. -/
structure FloatLayout where
  least : Option Int
  greatest : Option Int
  keepsPoint : Bool
  plusSign : Bool
  tie : Tie
  nan : String
  infinity : String

/-- Messages write every digit and no exponent. -/
def plainLayout : FloatLayout := ⟨none, none, false, false, .up, "NaN", "inf"⟩

/-- Values shown with their kind use an exponent below `1e-4` and from `1e16` on. -/
def inspectLayout : FloatLayout := ⟨some (-4), some 15, true, false, .up, "NaN", "inf"⟩

/-- JSON texts use an exponent below `1e-5` and from `1e+16` on. They hold finite numbers only. -/
def jsonLayout : FloatLayout := ⟨some (-5), some 15, true, true, .toEven, "null", "null"⟩

/-- Digits with the point placed so that the first digit stands for `10 ^ order`. -/
def positional (digits : List Char) (order : Int) (keepsPoint : Bool) : List Char :=
  if order < 0 then
    ['0', '.'] ++ List.replicate (-order - 1).toNat '0' ++ digits
  else
    let whole := order.toNat + 1
    if digits.length ≤ whole then
      digits ++ List.replicate (whole - digits.length) '0' ++
        (if keepsPoint then ['.', '0'] else [])
    else
      digits.take whole ++ ['.'] ++ digits.drop whole

/-- Digits with a point after the first and the power of ten behind the letter e. -/
def scientific (digits : List Char) (order : Int) (plusSign : Bool) : List Char :=
  let point := match digits with
    | [] => []
    | [d] => [d]
    | d :: rest => d :: '.' :: rest
  point ++ ['e'] ++ (if plusSign && 0 ≤ order then ['+'] else []) ++ Text.intDigits order

/-- The digits of a number without the zeros at its end, and how many zeros there were. -/
def stripZeros (digits : List Char) : List Char :=
  (digits.reverse.dropWhile (· == '0')).reverse

/-- A number in a layout. -/
def FloatLayout.write (layout : FloatLayout) (x : Binary64) : String :=
  match x with
  | .nan => layout.nan
  | .signed negative rank _ =>
    let body :=
      if rank == infinityRank then layout.infinity.toList
      else if rank == 0 then positional ['0'] 0 layout.keepsPoint
      else
        let (n, e) := shortest layout.tie rank
        let all := Text.natDigits n
        let order := e + all.length - 1
        let digits := stripZeros all
        let inRange := layout.least.all (· ≤ order) && layout.greatest.all (order ≤ ·)
        if inRange then positional digits order layout.keepsPoint
        else scientific digits order layout.plusSign
    String.ofList (if negative then '-' :: body else body)

/-! ## Reading -/

/-- The exponent part that may end a number: nothing, or the letter e, a sign and digits. -/
def exponentPart? (s : List Char) : Option Int :=
  match s with
  | [] => some 0
  | c :: rest =>
    if c == 'e' || c == 'E' then
      match rest with
      | '-' :: digits => (Text.digitsOnly? digits).map fun n => -(n : Int)
      | '+' :: digits => (Text.digitsOnly? digits).map fun n => (n : Int)
      | digits => (Text.digitsOnly? digits).map fun n => (n : Int)
    else none

/-- A number without its sign: a word for infinity or for no number, in any case, or digits with
an optional point, at least one digit beside it, and an optional exponent. -/
def unsignedText? (negative : Bool) (s : List Char) : Option Binary64 :=
  let word := s.map Char.toLower
  if word == "inf".toList || word == "infinity".toList then some (infinity negative)
  else if word == "nan".toList then some .nan
  else
    let whole := s.takeWhile Text.isDigit
    let rest := s.dropWhile Text.isDigit
    let (fraction, rest) := match rest with
      | '.' :: r => (r.takeWhile Text.isDigit, r.dropWhile Text.isDigit)
      | _ => ([], rest)
    if whole.isEmpty && fraction.isEmpty then none
    else (exponentPart? rest).map fun e =>
      ofDecimal negative (Text.ofDigits (whole ++ fraction)) (e - fraction.length)

/-- The number nearest to the one that the whole text denotes. -/
def ofText? (s : List Char) : Option Binary64 :=
  match s with
  | '-' :: rest => unsignedText? true rest
  | '+' :: rest => unsignedText? false rest
  | _ => unsignedText? false s

end RecordApi.Binary64
