import RecordApi.Text.Case.Table

/-!
# Case

Full Unicode case mapping: `lowercase` and `uppercase` of a text. A capital sigma becomes a final
sigma at the end of a word; every other character is mapped by itself.
-/

namespace RecordApi.Text

/-- Whether `n` lies in one of the inclusive ranges. -/
def inRanges (ranges : List (Nat × Nat)) (n : Nat) : Bool :=
  ranges.any fun r => r.1 ≤ n && n ≤ r.2

/-- The image of `n` under the run that holds it, if one does. -/
def CaseRun.image? (run : CaseRun) (n : Nat) : Option Nat :=
  if run.first ≤ n && n ≤ run.last && (n - run.first) % run.stride == 0 then
    some ((n : Int) + run.shift).toNat
  else
    none

/-- Lower case of one character, outside the rule for the final sigma. -/
def lowerChar (c : Char) : List Char :=
  let n := c.toNat
  if n < 0x80 then [c.toLower]
  else if n == 0x130 then [Char.ofNat 0x69, Char.ofNat 0x307]
  else match lowerRuns.findSome? (·.image? n) with
    | some m => [Char.ofNat m]
    | none => [c]

/-- Upper case of one character. -/
def upperChar (c : Char) : List Char :=
  let n := c.toNat
  if n < 0x80 then [c.toUpper]
  else match upperSpecials.lookup n with
    | some ms => ms.map Char.ofNat
    | none => match upperRuns.findSome? (·.image? n) with
      | some m => [Char.ofNat m]
      | none => [c]

/-- Whether the first character that is not skipped is cased. -/
def casedFollows (s : List Char) : Bool :=
  match s.dropWhile fun c => inRanges caseIgnorableRanges c.toNat with
  | [] => false
  | c :: _ => inRanges casedRanges c.toNat

/-- Lower case of the text `s`, where `before` holds the characters before it, last first. -/
def lowerFrom (before : List Char) : List Char → List Char
  | [] => []
  | c :: s =>
    let here :=
      if c.toNat == 0x3A3 && casedFollows before && !casedFollows s then [Char.ofNat 0x3C2]
      else lowerChar c
    here ++ lowerFrom (c :: before) s

/-- Lower case of a text. -/
def lowercase (s : List Char) : List Char :=
  lowerFrom [] s

/-- Upper case of a text. -/
def uppercase (s : List Char) : List Char :=
  s.flatMap upperChar

/-- A string in upper case. -/
def uppercased (s : String) : String :=
  String.ofList (uppercase s.toList)

end RecordApi.Text
