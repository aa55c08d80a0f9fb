import RecordApi.Text.Case
import RecordApi.Text.Quoted.Table

/-!
# Quoted texts in messages

A text in double quotes with everything that could not be read off the screen spelled out:
quotes and backslashes behind a backslash, the usual short forms for tab, line feed, carriage
return and the null character, and all other hidden characters by their code point.
-/

namespace RecordApi.Text

/-- Whether a character is never shown as itself. -/
def isHidden (c : Char) : Bool :=
  let n := c.toNat
  if n < 0x7F then n < 0x20 else inRanges hiddenRanges n

/-- The digits of a number in base sixteen, lower case, without leading zeros. -/
def hexDigits (n : Nat) : List Char :=
  Nat.toDigits 16 n

/-- One character inside quotes. -/
def quotedChar (c : Char) : List Char :=
  if c == '\x00' then ['\\', '0']
  else if c == '\t' then ['\\', 't']
  else if c == '\n' then ['\\', 'n']
  else if c == '\r' then ['\\', 'r']
  else if c == '\\' || c == '\"' then ['\\', c]
  else if isHidden c then ['\\', 'u', '\x7b'] ++ hexDigits c.toNat ++ ['\x7d']
  else [c]

/-- A text in double quotes. -/
def quoted (s : String) : String :=
  String.ofList ('\"' :: (s.toList.flatMap quotedChar ++ ['\"']))

end RecordApi.Text
