/-!
# Cutting texts

Texts cut at every occurrence of a mark. The parts with the mark between them are the text again
(`joinWith_splitOn`).
-/

namespace RecordApi.Text

/-- The parts of a text between the occurrences of a character; there is always one part. -/
def splitOn (mark : Char) : List Char → List (List Char)
  | [] => [[]]
  | c :: rest =>
    if c = mark then [] :: splitOn mark rest
    else
      match splitOn mark rest with
      | part :: parts => (c :: part) :: parts
      | [] => [[c]]

/-- The parts of a text between the occurrences of a character twice in a row. The leftmost pairs
count, and no character belongs to two of them. -/
def splitOnPair (mark : Char) : List Char → List (List Char)
  | [] => [[]]
  | [c] => [[c]]
  | c :: d :: rest =>
    if c = mark ∧ d = mark then [] :: splitOnPair mark rest
    else
      match splitOnPair mark (d :: rest) with
      | part :: parts => (c :: part) :: parts
      | [] => [[c]]

/-- The parts with a character between them. -/
def joinWith (mark : Char) : List (List Char) → List Char
  | [] => []
  | [part] => part
  | part :: parts => part ++ mark :: joinWith mark parts

theorem splitOn_ne_nil (mark : Char) (s : List Char) : splitOn mark s ≠ [] := by
  cases s with
  | nil => simp [splitOn]
  | cons c rest => unfold splitOn; split <;> (try split) <;> simp

theorem splitOnPair_ne_nil (mark : Char) (s : List Char) : splitOnPair mark s ≠ [] := by
  match s with
  | [] => simp [splitOnPair]
  | [c] => simp [splitOnPair]
  | c :: d :: rest => unfold splitOnPair; split <;> (try split) <;> simp

theorem joinWith_splitOn (mark : Char) (s : List Char) : joinWith mark (splitOn mark s) = s := by
  induction s with
  | nil => rfl
  | cons c rest ih =>
    unfold splitOn
    split
    · next h =>
      subst h
      obtain ⟨part, parts, e⟩ := List.exists_cons_of_ne_nil (splitOn_ne_nil c rest)
      rw [e] at ih ⊢
      simp [joinWith, ih]
    · split
      · next part parts e =>
        rw [e] at ih
        cases parts with
        | nil => simpa [joinWith] using ih
        | cons p ps => simpa [joinWith] using ih
      · next e => exact absurd e (splitOn_ne_nil mark rest)

end RecordApi.Text
