import RecordApi.Json.Extent
import RecordApi.Json.Shape

/-!
# Reading JSON

`Json.document?` reads a text that is one value with white space around it, as far as a shape finds
it of interest, and keeps the members of objects as they are written; `Json.read?` reads all of it
and puts members in order, the last of each name. Nesting is limited to 127 arrays and objects.
Strings hold no raw control characters, and escapes of half a pair are refused. What is not of
interest is passed over, without these limits.
-/

namespace RecordApi.Json

/-- The rest of a string behind its opening quote; `acc` holds the characters read so far, last
first. -/
def stringBody? (acc : List Char) : List Char → Option (String × List Char)
  | [] => none
  | '\"' :: rest => some (String.ofList acc.reverse, rest)
  | '\\' :: 'u' :: a :: b :: c :: d :: rest =>
    match hexWord? a b c d with
    | none => none
    | some n =>
      if n < 0xD800 || 0xE000 ≤ n then stringBody? (Char.ofNat n :: acc) rest
      else if 0xDC00 ≤ n then none
      else match rest with
        | '\\' :: 'u' :: e :: f :: g :: h :: after =>
          match hexWord? e f g h with
          | none => none
          | some m =>
            if 0xDC00 ≤ m && m < 0xE000 then
              stringBody? (Char.ofNat (0x10000 + (n - 0xD800) * 0x400 + (m - 0xDC00)) :: acc) after
            else none
        | _ => none
  | '\\' :: c :: rest =>
    match shortEscape? c with
    | some e => stringBody? (e :: acc) rest
    | none => none
  | c :: rest => if c.toNat < 0x20 || c == '\\' then none else stringBody? (c :: acc) rest

/-- The string at the start of a text. -/
def string? : List Char → Option (String × List Char)
  | '\"' :: rest => stringBody? [] rest
  | _ => none

mutual

/-- The value at the start of a text. `depth` more arrays and objects may be opened; `fuel` bounds
the number of steps, and the length of the text is enough. -/
def value? (fuel depth : Nat) (shape : Shape) (s : List Char) : Option (Json × List Char) :=
  match fuel with
  | 0 => none
  | fuel + 1 =>
    match s with
    | 'n' :: _ => (word? "null".toList s).map (.null, ·)
    | 't' :: _ => (word? "true".toList s).map (.bool true, ·)
    | 'f' :: _ => (word? "false".toList s).map (.bool false, ·)
    | '\"' :: rest => (stringBody? [] rest).map fun (t, after) => (.string t, after)
    | '[' :: rest =>
      match depth with
      | 0 => none
      | depth + 1 =>
        match skipBlank rest with
        | ']' :: after => some (.array [], after)
        | start => items? fuel depth shape [] start
    | '\x7b' :: rest =>
      match depth with
      | 0 => none
      | depth + 1 =>
        match skipBlank rest with
        | '\x7d' :: after => some (.object [], after)
        | start => members? fuel depth shape [] start
    | _ => number? s

/-- The rest of an array from the start of an item; `acc` holds the items before it, last first. -/
def items? (fuel depth : Nat) (shape : Shape) (acc : List Json) (s : List Char) :
    Option (Json × List Char) :=
  match fuel with
  | 0 => none
  | fuel + 1 =>
    match value? fuel depth shape.head s with
    | none => none
    | some (item, rest) =>
      match skipBlank rest with
      | ']' :: after => some (.array (item :: acc).reverse, after)
      | ',' :: more => items? fuel depth shape.tail (item :: acc) (skipBlank more)
      | _ => none

/-- The rest of an object from the start of a member; `acc` holds the members before it that are of
interest, last first. -/
def members? (fuel depth : Nat) (shape : Shape) (acc : List (String × Json)) (s : List Char) :
    Option (Json × List Char) :=
  match fuel with
  | 0 => none
  | fuel + 1 =>
    match string? s with
    | none => none
    | some (name, rest) =>
      match skipBlank rest with
      | ':' :: start =>
        let read : Option (List (String × Json) × List Char) :=
          match shape.member? name with
          | some inner =>
            (value? fuel depth inner (skipBlank start)).map fun r => ((name, r.1) :: acc, r.2)
          | none => (passValue? (skipBlank start)).map (acc, ·)
        match read with
        | none => none
        | some (acc, rest) =>
          match skipBlank rest with
          | '\x7d' :: after => some (.object acc.reverse, after)
          | ',' :: more => members? fuel depth shape acc (skipBlank more)
          | _ => none
      | _ => none

end

/-- The number of arrays and objects that may be open at once. -/
abbrev depthLimit : Nat := 127

/-- The value that is the whole text, with the members of objects as they are written and without
those that the shape finds of no interest. -/
def document? (shape : Shape) (s : List Char) : Option Json :=
  match value? (s.length + 1) depthLimit shape (skipBlank s) with
  | some (v, rest) => if (skipBlank rest).isEmpty then some v else none
  | none => none

/-- The value that is the whole text. -/
def read? (s : String) : Option Json :=
  (document? .any s.toList).map normalize

end RecordApi.Json
