import RecordApi.Text.Digits

/-!
# Universally unique identifiers

A UUID is a number below `2 ^ 128`. It is written with 32 digits in base sixteen, bare or with
hyphens, and read in both forms, the second also in braces or as a URN. Letters may be of either
case.
-/

namespace RecordApi

/-- A 128-bit identifier. -/
structure Uuid where
  value : Nat
  value_lt : value < 2 ^ 128
  deriving DecidableEq

namespace Uuid

instance : Inhabited Uuid := ⟨⟨0, by decide⟩⟩

/-- Earlier or later in the order of the written forms. -/
def compare (a b : Uuid) : Ordering :=
  Ord.compare a.value b.value

/-- The last `count` digits of a number in base sixteen. -/
def hexPadded : Nat → Nat → List Char
  | 0, _ => []
  | count + 1, n => hexPadded count (n / 16) ++ [Nat.digitChar (n % 16)]

/-- The 32 digits of an identifier. -/
def digits (u : Uuid) : List Char :=
  hexPadded 32 u.value

/-- The digits without anything between them. -/
def writeSimple (u : Uuid) : String :=
  String.ofList u.digits

/-- Digits in groups of 8, 4, 4, 4 and 12, with hyphens between the groups. -/
def hyphenated (digits : List Char) : List Char :=
  digits.take 8 ++ '-' :: (digits.drop 8).take 4 ++ '-' :: (digits.drop 12).take 4 ++
    '-' :: (digits.drop 16).take 4 ++ '-' :: digits.drop 20

/-- The digits in groups. -/
def write (u : Uuid) : String :=
  String.ofList (hyphenated u.digits)

/-- The number that a text of digits in base sixteen denotes, read behind the digits of `acc`. -/
def hexNumber? (acc : Nat) : List Char → Option Nat
  | [] => some acc
  | c :: rest => (Text.hexDigit? c).bind fun d => hexNumber? (acc * 16 + d) rest

/-- The identifier that 32 digits denote. -/
def ofDigits? (s : List Char) : Option Uuid :=
  if s.length = 32 then
    (hexNumber? 0 s).bind fun n => if h : n < 2 ^ 128 then some ⟨n, h⟩ else none
  else
    none

/-- The identifier that digits in groups denote. -/
def ofHyphenated? (s : List Char) : Option Uuid :=
  let digits := s.filter (· != '-')
  if s.length = 36 && hyphenated digits == s then ofDigits? digits else none

/-- The identifier that the whole text denotes: bare, in groups, in braces or as a URN. -/
def ofText? (s : List Char) : Option Uuid :=
  let urn := "urn:uuid:".toList
  if s.length = 32 then ofDigits? s
  else if s.length = 38 && s.head? == some '\x7b' && s.getLast? == some '\x7d' then
    ofHyphenated? ((s.drop 1).take 36)
  else if s.length = 45 && (s.take 9).map Char.toLower == urn then ofHyphenated? (s.drop 9)
  else ofHyphenated? s

end Uuid

end RecordApi
