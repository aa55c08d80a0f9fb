/-!
# UTF-8

Bytes as characters. A byte begins a character of one to four bytes, and says between which bounds
the next one lies. Where the bytes of a character break off, they are one error together, and the
byte that does not belong to them begins anew.
-/

namespace RecordApi.Text.Utf8

/-- The start of a character: its bits so far, how many bytes are to come after the next one, and
between which bounds that one lies. -/
structure Pending where
  bits : Nat
  more : Nat
  low : UInt8
  high : UInt8

/-- What a byte at the start of a character amounts to. -/
inductive Start where
  | done (result : Option Char)
  | pending (p : Pending)

/-- What a byte at the start of a character amounts to: the character, an error, or the start of a
longer one. The bounds leave out forms that are too long, halves of pairs, and what is too large. -/
def start (b : UInt8) : Start :=
  if b < 0x80 then .done (some (Char.ofNat b.toNat))
  else if b < 0xC2 then .done none
  else if b < 0xE0 then .pending ⟨b.toNat - 0xC0, 0, 0x80, 0xBF⟩
  else if b < 0xF0 then
    .pending ⟨b.toNat - 0xE0, 1, if b = 0xE0 then 0xA0 else 0x80, if b = 0xED then 0x9F else 0xBF⟩
  else if b < 0xF5 then
    .pending ⟨b.toNat - 0xF0, 2, if b = 0xF0 then 0x90 else 0x80, if b = 0xF4 then 0x8F else 0xBF⟩
  else .done none

/-- The characters of some bytes behind the start of one, an error where there is none. -/
def decodeFrom (p? : Option Pending) : List UInt8 → List (Option Char)
  | [] => if p?.isSome then [none] else []
  | b :: rest =>
    match p? with
    | some p =>
      if p.low ≤ b ∧ b ≤ p.high then
        let bits := p.bits * 64 + (b.toNat - 0x80)
        if p.more = 0 then some (Char.ofNat bits) :: decodeFrom none rest
        else decodeFrom (some ⟨bits, p.more - 1, 0x80, 0xBF⟩) rest
      else
        match start b with
        | .done result => none :: result :: decodeFrom none rest
        | .pending q => none :: decodeFrom (some q) rest
    | none =>
      match start b with
      | .done result => result :: decodeFrom none rest
      | .pending q => decodeFrom (some q) rest

/-- The characters of some bytes, if they are nothing else. -/
def decode? (bytes : List UInt8) : Option (List Char) :=
  (decodeFrom none bytes).mapM id

/-- The characters of some bytes, with the replacement character for every error. -/
def decodeLossy (bytes : List UInt8) : List Char :=
  (decodeFrom none bytes).map (·.getD '\uFFFD')

end RecordApi.Text.Utf8
