import Mathlib.Data.List.Forall2
import RecordApi.Query.Like

/-!
# What patterns match

A pattern matches a text if the text can be cut into pieces that the characters of the pattern take,
one each (`Like.Matches`): `%` takes any run, `_` one character, and every other character itself.
`Like.advance` pairs characters as far as it can and stops for one of four reasons (`Like.Stops`).

On a text without `%` the matcher decides `Matches` (`matchesChars_iff`). It never goes back to a
`%` before the last one that it met, and loses nothing by that: of the places where the pattern gets
to its next `%`, the first leaves the longest rest, and a `%` takes whatever a later place would
have left out.
-/

namespace RecordApi.Like

/-! ## The pattern language -/

/-- A character of a pattern takes a piece of a text. -/
def Takes (p : Char) (piece : List Char) : Prop :=
  if p = '%' then True else if p = '_' then piece.length = 1 else piece = [p]

/-- A text can be cut into pieces that the characters of a pattern take, in order. -/
def Matches (pattern text : List Char) : Prop :=
  ∃ pieces : List (List Char), pieces.flatten = text ∧ List.Forall₂ Takes pattern pieces

/-- A character of a pattern takes a character of a text, a `%` only as itself. -/
def Pairs (p c : Char) : Prop :=
  p = '_' ∨ p = c

instance (p c : Char) : Decidable (Pairs p c) :=
  inferInstanceAs (Decidable (p = '_' ∨ p = c))

variable {p c : Char} {pattern text front taken after rest : List Char}

theorem takes_iff_of_ne {piece : List Char} (hp : p ≠ '%') :
    Takes p piece ↔ ∃ c, piece = [c] ∧ Pairs p c := by
  unfold Takes Pairs
  rw [if_neg hp]
  split
  · next h => simp [h, List.length_eq_one_iff]
  · next h => simp [h]

theorem matches_nil : Matches [] text ↔ text = [] := by
  constructor
  · rintro ⟨pieces, rfl, hpieces⟩
    cases hpieces
    rfl
  · rintro rfl
    exact ⟨[], rfl, .nil⟩

theorem matches_cons : Matches (p :: pattern) text ↔
    ∃ piece rest, text = piece ++ rest ∧ Takes p piece ∧ Matches pattern rest := by
  constructor
  · rintro ⟨pieces, rfl, hpieces⟩
    cases hpieces with
    | @cons _ piece _ pieces hpiece hpieces =>
        exact ⟨piece, pieces.flatten, rfl, hpiece, pieces, rfl, hpieces⟩
  · rintro ⟨piece, rest, rfl, hpiece, pieces, rfl, hpieces⟩
    exact ⟨piece :: pieces, rfl, .cons hpiece hpieces⟩

theorem matches_run :
    Matches ('%' :: pattern) text ↔ ∃ rest, rest <:+ text ∧ Matches pattern rest := by
  rw [matches_cons]
  constructor
  · rintro ⟨run, rest, rfl, -, h⟩
    exact ⟨rest, List.suffix_append _ _, h⟩
  · rintro ⟨rest, ⟨run, rfl⟩, h⟩
    exact ⟨run, rest, rfl, by simp [Takes], h⟩

theorem matches_run_cons : Matches ('%' :: pattern) (c :: text) ↔
    Matches pattern (c :: text) ∨ Matches ('%' :: pattern) text := by
  simp only [matches_run, List.suffix_cons_iff, or_and_right, exists_or, exists_eq_left]

theorem Matches.run_of_suffix (h : Matches ('%' :: pattern) rest) (hsuffix : rest <:+ text) :
    Matches ('%' :: pattern) text := by
  obtain ⟨last, hlast, h⟩ := matches_run.1 h
  exact matches_run.2 ⟨last, hlast.trans hsuffix, h⟩

theorem matches_single (hp : p ≠ '%') : Matches (p :: pattern) text ↔
    ∃ c rest, text = c :: rest ∧ Pairs p c ∧ Matches pattern rest := by
  rw [matches_cons]
  constructor
  · rintro ⟨piece, rest, rfl, hpiece, h⟩
    obtain ⟨c, rfl, hc⟩ := (takes_iff_of_ne hp).1 hpiece
    exact ⟨c, rest, rfl, hc, h⟩
  · rintro ⟨c, rest, rfl, hc, h⟩
    exact ⟨[c], rest, rfl, (takes_iff_of_ne hp).2 ⟨c, rfl, hc⟩, h⟩

/-- Nothing but `%` is left if the pattern matches the empty text. -/
theorem matchesEnd_iff : matchesEnd pattern = true ↔ Matches pattern [] := by
  induction pattern with
  | nil => simp [matchesEnd, matches_nil]
  | cons p pattern ih =>
      rw [matchesEnd, List.all_cons, Bool.and_eq_true, ← matchesEnd, ih, beq_iff_eq]
      by_cases hp : p = '%'
      · subst hp
        simp [matches_run]
      · simp [hp, matches_single hp]

/-- What is no `%` takes one character each. -/
theorem Matches.countP_le (h : Matches pattern text) :
    pattern.countP (· != '%') ≤ text.length := by
  induction pattern generalizing text with
  | nil => exact Nat.zero_le _
  | cons p pattern ih =>
      by_cases hp : p = '%'
      · subst hp
        obtain ⟨rest, hrest, h⟩ := matches_run.1 h
        rw [List.countP_cons_of_neg (by simp)]
        exact Nat.le_trans (ih h) hrest.length_le
      · obtain ⟨c, rest, rfl, -, h⟩ := (matches_single hp).1 h
        rw [List.countP_cons_of_pos (by simpa using hp), List.length_cons]
        exact Nat.succ_le_succ (ih h)

theorem countP_eq_length (h : '%' ∉ pattern) :
    pattern.countP (· != '%') = pattern.length := by
  rw [List.countP_eq_length]
  intro q hq
  have hne : q ≠ '%' := fun heq => h (heq ▸ hq)
  simpa using hne

/-! ## Characters that are paired -/

theorem not_mem_of_pairs (h : List.Forall₂ Pairs front taken) (htaken : '%' ∉ taken) :
    '%' ∉ front := by
  induction h with
  | nil => simp
  | @cons p c _ _ hp _ ih =>
      rw [List.mem_cons, not_or] at htaken ⊢
      refine ⟨?_, ih htaken.2⟩
      rintro rfl
      rcases hp with hp | rfl
      · exact absurd hp (by decide)
      · exact htaken.1 rfl

/-- Paired characters can be left out on both sides. -/
theorem matches_append (h : List.Forall₂ Pairs front taken) (hfront : '%' ∉ front) :
    Matches (front ++ pattern) (taken ++ text) ↔ Matches pattern text := by
  induction h with
  | nil => rfl
  | @cons p c _ _ hp _ ih =>
      rw [List.mem_cons, not_or] at hfront
      rw [List.cons_append, List.cons_append, matches_single (Ne.symm hfront.1), ← ih hfront.2]
      simp [hp]

/-- What a pattern without `%` takes has its length, and the rest is matched by what follows. -/
theorem Matches.split (h : Matches (front ++ pattern) text) (hfront : '%' ∉ front) :
    ∃ taken rest, text = taken ++ rest ∧ taken.length = front.length ∧ Matches pattern rest := by
  induction front generalizing text with
  | nil => exact ⟨[], text, rfl, rfl, h⟩
  | cons p front ih =>
      rw [List.mem_cons, not_or] at hfront
      obtain ⟨c, rest, rfl, -, h⟩ := (matches_single (Ne.symm hfront.1)).1 h
      obtain ⟨taken, last, rfl, hlength, h⟩ := ih h hfront.2
      exact ⟨c :: taken, last, rfl, congrArg (· + 1) hlength, h⟩

/-- Where a pattern and a text cannot be paired any further, and why. -/
inductive Stops : List Char → List Char → Progress → Prop
  | finished (pattern : List Char) : Stops pattern [] (.finished (matchesEnd pattern))
  | wildcard (after : List Char) {c : Char} (text : List Char) (hc : c ≠ '%') :
      Stops ('%' :: after) (c :: text) (.wildcard after (c :: text))
  | exhausted (c : Char) (text : List Char) : Stops [] (c :: text) .stuck
  | differ {p c : Char} (pattern text : List Char) (hp : p ≠ '%') (hpair : ¬Pairs p c) :
      Stops (p :: pattern) (c :: text) .stuck

/-- A pattern and a text are paired up to where they stop. -/
theorem exists_stops (pattern text : List Char) : ∃ front taken p t,
    pattern = front ++ p ∧ text = taken ++ t ∧ List.Forall₂ Pairs front taken ∧
      Stops p t (advance text pattern) := by
  induction text generalizing pattern with
  | nil => exact ⟨[], [], pattern, [], rfl, rfl, .nil, .finished pattern⟩
  | cons c text ih =>
      cases pattern with
      | nil => exact ⟨[], [], [], c :: text, rfl, rfl, .nil, .exhausted c text⟩
      | cons p pattern =>
          unfold advance
          split
          · next hpair =>
            obtain ⟨front, taken, p', t, rfl, rfl, h, hstops⟩ := ih pattern
            exact ⟨p :: front, c :: taken, p', t, rfl, rfl, .cons hpair h, hstops⟩
          · next hpair =>
            refine ⟨[], [], p :: pattern, c :: text, rfl, rfl, .nil, ?_⟩
            split
            · next hp =>
              subst hp
              exact .wildcard pattern text fun hc => hpair (.inr hc.symm)
            · next hp => exact .differ pattern text hp hpair

/-- A pattern that is stuck in front of a text does not match it. -/
theorem not_matches_of_stuck (h : Stops pattern text .stuck) : ¬Matches pattern text := by
  cases h with
  | exhausted => simp [matches_nil]
  | differ _ _ hp hpair => simp [matches_single hp, hpair]

/-! ## The matcher -/

theorem matchesLater_of_finished {matched : Bool} (h : advance text pattern = .finished matched) :
    matchesLater pattern text = matched := by
  rw [matchesLater]
  split <;> simp_all

theorem matchesLater_of_wildcard (h : advance text pattern = .wildcard after rest) :
    matchesLater pattern text = matchesLater after rest := by
  rw [matchesLater]
  split <;> simp_all

theorem matchesLater_of_stuck (h : advance (c :: text) pattern = .stuck) :
    matchesLater pattern (c :: text) = matchesLater pattern text := by
  rw [matchesLater]
  split <;> simp_all

/-- The matcher behind a `%` decides what a `%` with that pattern behind it matches. -/
theorem matchesLater_iff (htext : '%' ∉ text) :
    matchesLater pattern text = true ↔ Matches ('%' :: pattern) text := by
  induction pattern, text using matchesLater.induct with
  | case1 pattern text matched hadvance =>
      obtain ⟨front, taken, p, t, rfl, rfl, hpairs, hstops⟩ := exists_stops pattern text
      rw [hadvance] at hstops
      cases hstops
      have hfront := not_mem_of_pairs hpairs fun h => htext (List.mem_append_left _ h)
      rw [matchesLater_of_finished hadvance]
      constructor
      · intro h
        have hend := (matches_append hpairs hfront).2 (matchesEnd_iff.1 h)
        exact matches_run.2 ⟨_, List.suffix_rfl, hend⟩
      · -- the text is as long as what is paired with it, so nothing is left for the rest
        intro h
        obtain ⟨rest, hrest, h⟩ := matches_run.1 h
        have hcount := Nat.le_trans h.countP_le hrest.length_le
        rw [List.countP_append, countP_eq_length hfront, List.append_nil,
          ← hpairs.length_eq] at hcount
        have hzero : p.countP (· != '%') = 0 := by omega
        simpa [matchesEnd, List.countP_eq_zero] using hzero
  | case2 pattern text after rest hadvance _ ih =>
      obtain ⟨front, taken, p, t, rfl, rfl, hpairs, hstops⟩ := exists_stops pattern text
      rw [hadvance] at hstops
      have hfront := not_mem_of_pairs hpairs fun h => htext (List.mem_append_left _ h)
      rw [matchesLater_of_wildcard hadvance]
      cases hstops with
      | wildcard _ text hc =>
          rw [ih fun h => htext (List.mem_append_right _ h)]
          constructor
          · intro h
            exact matches_run.2 ⟨_, List.suffix_rfl, (matches_append hpairs hfront).2 h⟩
          · -- what a later place leaves is a part of what this one leaves
            intro h
            obtain ⟨last, hlast, h⟩ := matches_run.1 h
            obtain ⟨skipped, left, rfl, hlength, h⟩ := h.split hfront
            refine h.run_of_suffix (List.suffix_of_suffix_length_le
              ((List.suffix_append _ _).trans hlast) (List.suffix_append _ _) ?_)
            have hle := hlast.length_le
            rw [List.length_append, List.length_append, hlength, hpairs.length_eq] at hle
            omega
  | case3 pattern hadvance => cases pattern <;> cases hadvance
  | case4 pattern c text hadvance ih =>
      obtain ⟨front, taken, p, t, hpattern, hsplit, hpairs, hstops⟩ :=
        exists_stops pattern (c :: text)
      rw [hadvance] at hstops
      rw [matchesLater_of_stuck hadvance, ih fun h => htext (List.mem_cons_of_mem _ h),
        matches_run_cons]
      have hfront := not_mem_of_pairs hpairs fun h =>
        htext (hsplit ▸ List.mem_append_left _ h)
      have hno : ¬Matches pattern (c :: text) := by
        rw [hpattern, hsplit, matches_append hpairs hfront]
        exact not_matches_of_stuck hstops
      simp [hno]

/-- On a text without `%` the matcher decides whether the text can be cut as the pattern says. -/
theorem matchesChars_iff (htext : '%' ∉ text) :
    matchesChars pattern text = true ↔ Matches pattern text := by
  obtain ⟨front, taken, p, t, rfl, rfl, hpairs, hstops⟩ := exists_stops pattern text
  have hfront := not_mem_of_pairs hpairs fun h => htext (List.mem_append_left _ h)
  rw [matches_append hpairs hfront, matchesChars]
  generalize advance (taken ++ t) (front ++ p) = progress at hstops ⊢
  cases hstops with
  | finished => exact matchesEnd_iff
  | wildcard after text hc => exact matchesLater_iff fun h => htext (List.mem_append_right _ h)
  | exhausted => simp [not_matches_of_stuck (.exhausted _ _)]
  | differ pattern text hp hpair => simp [not_matches_of_stuck (.differ pattern text hp hpair)]

end RecordApi.Like
