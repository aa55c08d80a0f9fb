import RecordApi.Text.Case

/-!
# Patterns

A pattern is matched character by character: `_` takes any character, `%` any run of characters,
and every other character itself. A `%` of the text is first taken as the character that it is, and
once a `%` of the pattern is met no earlier one is tried again.
-/

namespace RecordApi.Like

/-- How far a pattern goes along a text without `%` as a wildcard: to the end of the text, where the
rest of the pattern decides, to a place where they differ, or to a `%` in front of the rest of
both. -/
inductive Progress where
  | finished (matched : Bool)
  | stuck
  | wildcard (pattern text : List Char)

/-- Whether a pattern matches the end of a text: nothing but `%` is left. -/
def matchesEnd (pattern : List Char) : Bool :=
  pattern.all (· == '%')

/-- Goes along a text with a pattern. -/
def advance : List Char → List Char → Progress
  | [], pattern => .finished (matchesEnd pattern)
  | _ :: _, [] => .stuck
  | c :: text, p :: pattern =>
    if p = '_' ∨ p = c then advance text pattern
    else if p = '%' then .wildcard pattern (c :: text)
    else .stuck

theorem length_lt_of_advance_eq_wildcard {text pattern after rest : List Char}
    (h : advance text pattern = .wildcard after rest) : after.length < pattern.length := by
  induction text generalizing pattern with
  | nil => simp [advance] at h
  | cons c text ih =>
    cases pattern with
    | nil => simp [advance] at h
    | cons p pattern =>
      unfold advance at h
      split at h
      · exact Nat.lt_succ_of_lt (ih h)
      · split at h
        · cases h; exact Nat.lt_succ_self _
        · cases h

/-- Whether the pattern behind a `%` matches from some place of a text on. The places are tried from
the left until the pattern gets to its next `%`. -/
def matchesLater (pattern text : List Char) : Bool :=
  match h : advance text pattern with
  | .finished matched => matched
  | .wildcard after rest =>
    have := length_lt_of_advance_eq_wildcard h
    matchesLater after rest
  | .stuck =>
    match text with
    | [] => false
    | _ :: text => matchesLater pattern text
termination_by (pattern.length, text.length)

/-- Whether a text matches a pattern. -/
def matchesChars (pattern text : List Char) : Bool :=
  match advance text pattern with
  | .finished matched => matched
  | .wildcard after rest => matchesLater after rest
  | .stuck => false

end RecordApi.Like

namespace RecordApi

/-- Whether a text matches a pattern; both are put into lower case first where case is ignored. -/
def like (ignoresCase : Bool) (pattern text : String) : Bool :=
  if ignoresCase then
    Like.matchesChars (Text.lowercase pattern.toList) (Text.lowercase text.toList)
  else Like.matchesChars pattern.toList text.toList

end RecordApi
