import RecordApi.Json.Number

/-!
# How far a JSON value reaches

`Json.passValue?` gives what follows the value at the start of a text without reading the value.
Only its form counts: numbers may be of any size, arrays and objects may be nested to any depth, and
an escape in a string is four digits in base sixteen whether they denote a character or not.
-/

namespace RecordApi.Json

/-- A text without the white space at its start. -/
def skipBlank (s : List Char) : List Char :=
  s.dropWhile fun c => c == ' ' || c == '\t' || c == '\n' || c == '\r'

/-- The number of four digits in base sixteen. -/
def hexWord? (a b c d : Char) : Option Nat := do
  let a ← Text.hexDigit? a
  let b ← Text.hexDigit? b
  let c ← Text.hexDigit? c
  let d ← Text.hexDigit? d
  pure (((a * 16 + b) * 16 + c) * 16 + d)

/-- The character behind a backslash, for the escapes of one letter. -/
def shortEscape? (c : Char) : Option Char :=
  match c with
  | '\"' => some '\"'
  | '\\' => some '\\'
  | '/' => some '/'
  | 'b' => some '\x08'
  | 'f' => some '\x0c'
  | 'n' => some '\n'
  | 'r' => some '\r'
  | 't' => some '\t'
  | _ => none

/-- What follows a word at the start of a text. -/
def word? (word s : List Char) : Option (List Char) :=
  if s.take word.length == word then some (s.drop word.length) else none

/-- What follows a string, from behind its opening quote. -/
def passString? : List Char → Option (List Char)
  | [] => none
  | '\"' :: rest => some rest
  | '\\' :: 'u' :: a :: b :: c :: d :: rest =>
    (hexWord? a b c d).bind fun _ => passString? rest
  | '\\' :: c :: rest => (shortEscape? c).bind fun _ => passString? rest
  | c :: rest => if c.toNat < 0x20 || c == '\\' then none else passString? rest

/-- What follows one or more digits. -/
def passDigits? (s : List Char) : Option (List Char) :=
  let (count, rest) := skipDigits s
  if count = 0 then none else some rest

/-- What follows an exponent, if there is one. -/
def passExponent? (s : List Char) : Option (List Char) :=
  match s with
  | 'e' :: sign :: rest | 'E' :: sign :: rest =>
    passDigits? (if sign == '+' || sign == '-' then rest else sign :: rest)
  | 'e' :: [] | 'E' :: [] => none
  | _ => some s

/-- What follows the fraction and the exponent of a number, of which both may be missing. -/
def passFraction? (s : List Char) : Option (List Char) :=
  match s with
  | '.' :: rest => (passDigits? rest).bind passExponent?
  | _ => passExponent? s

/-- What follows a number. Only zero itself begins with a zero. -/
def passNumber? (s : List Char) : Option (List Char) :=
  let s := match s with
    | '-' :: rest => rest
    | _ => s
  match s with
  | '0' :: c :: rest => if Text.isDigit c then none else passFraction? (c :: rest)
  | _ => (passDigits? s).bind passFraction?

/-- What follows a value that is neither an array nor an object. -/
def passScalar? (s : List Char) : Option (List Char) :=
  match s with
  | 'n' :: _ => word? "null".toList s
  | 't' :: _ => word? "true".toList s
  | 'f' :: _ => word? "false".toList s
  | '\"' :: rest => passString? rest
  | _ => passNumber? s

/-- What may be open around a value. -/
inductive Bracket where
  | array
  | object
  deriving DecidableEq

mutual

/-- Passes over a value and all that is open around it, innermost first. `fuel` bounds the number of
steps, and the length of the text is enough. -/
def passFrom? (fuel : Nat) (around : List Bracket) (s : List Char) : Option (List Char) :=
  match fuel with
  | 0 => none
  | fuel + 1 =>
    match s with
    | '[' :: rest =>
      match skipBlank rest with
      | ']' :: after => passBehind? fuel around after
      | start => passFrom? fuel (.array :: around) start
    | '\x7b' :: rest =>
      match skipBlank rest with
      | '\x7d' :: after => passBehind? fuel around after
      | start => passName? fuel around start
    | _ => (passScalar? s).bind (passBehind? fuel around)

/-- Passes on from behind a value. -/
def passBehind? (fuel : Nat) (around : List Bracket) (s : List Char) : Option (List Char) :=
  match fuel with
  | 0 => none
  | fuel + 1 =>
    match around with
    | [] => some s
    | .array :: outer =>
      match skipBlank s with
      | ',' :: more => passFrom? fuel around (skipBlank more)
      | ']' :: after => passBehind? fuel outer after
      | _ => none
    | .object :: outer =>
      match skipBlank s with
      | ',' :: more => passName? fuel outer (skipBlank more)
      | '\x7d' :: after => passBehind? fuel outer after
      | _ => none

/-- Passes on from the name of a member of an object that is open inside of `around`. -/
def passName? (fuel : Nat) (around : List Bracket) (s : List Char) : Option (List Char) :=
  match fuel with
  | 0 => none
  | fuel + 1 =>
    match s with
    | '\"' :: rest =>
      match (passString? rest).map skipBlank with
      | some (':' :: start) => passFrom? fuel (.object :: around) (skipBlank start)
      | _ => none
    | _ => none

end

/-- What follows the value at the start of a text. -/
def passValue? (s : List Char) : Option (List Char) :=
  passFrom? (s.length + 2) [] s

end RecordApi.Json
