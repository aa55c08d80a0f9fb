import RecordApi.Proofs.Query.Filtered
import RecordApi.Proofs.Query.Pattern
import RecordApi.Proofs.Schema.Resolved

/-!
# Filters by a part of a text

`startswith`, `endswith` and `contains` put a `%` behind a text, in front of it, or on both sides,
and match the pattern with the text of a column. As a `%` of the text is first taken for the
character that it is, the run that a `%` of the pattern takes cannot be any: one that begins with
`%` has to be that `%` alone (`Like.Absorbed`).

What the filters accept is said by `Model.substring_filters`. A text without `%` is accepted as the
names of the operators say.
-/

namespace RecordApi

namespace Like

/-- A run that a `%` around a text takes: it does not begin with `%`, or is that `%` alone. -/
def Absorbed (run : List Char) : Prop :=
  ∀ rest, run = '%' :: rest → rest = []

/-- A text of characters that take themselves alone. -/
def Literal (raw : List Char) : Prop :=
  '%' ∉ raw ∧ '_' ∉ raw

instance (raw : List Char) : Decidable (Literal raw) :=
  inferInstanceAs (Decidable ('%' ∉ raw ∧ '_' ∉ raw))

/-- The end of a pattern decides by one look whether it takes a rest. -/
structure Closes (pattern : List Char) (P : List Char → Prop) : Prop where
  takes : ∀ rest, P rest →
    advance rest pattern = .finished true ∨ ∃ left, advance rest pattern = .wildcard [] left
  refuses : ∀ rest, ¬P rest → advance rest pattern = .stuck
  absorbed : ∀ rest, P rest → Absorbed rest

variable {pattern raw text : List Char} {P : List Char → Prop} {c : Char}

theorem literal_cons : Literal (c :: raw) ↔ (c ≠ '%' ∧ c ≠ '_') ∧ Literal raw := by
  unfold Literal
  rw [List.mem_cons, List.mem_cons, not_or, not_or, ne_comm (a := c), ne_comm (a := c)]
  tauto

theorem Absorbed.of_not_mem (h : '%' ∉ text) : Absorbed text := by
  rintro rest rfl
  simp at h

/-- Behind a text that takes itself alone, the end of the pattern is tried once. -/
theorem advance_append (hraw : Literal raw) (rest : List Char) :
    advance (raw ++ rest) (raw ++ pattern) = advance rest pattern := by
  induction raw with
  | nil => rfl
  | cons c raw ih =>
      rw [List.cons_append, List.cons_append, advance, if_pos (.inr rfl)]
      exact ih (literal_cons.1 hraw).2

/-- Where the text is not found, the matcher is stuck, or at the end of a shorter one. -/
theorem advance_of_not_prefix (hraw : Literal raw) (h : ¬raw <+: text) :
    advance text (raw ++ pattern) = .stuck ∨
      (advance text (raw ++ pattern) = .finished false ∧ text.length < raw.length) := by
  induction raw generalizing text with
  | nil => exact absurd List.nil_prefix h
  | cons q raw ih =>
      obtain ⟨⟨hq, hone⟩, hraw⟩ := literal_cons.1 hraw
      cases text with
      | nil => exact .inr ⟨by simp [advance, matchesEnd, hq], Nat.succ_pos _⟩
      | cons c text =>
          by_cases hc : q = c
          · subst hc
            rw [List.cons_append, advance, if_pos (.inr rfl), List.length_cons, List.length_cons,
              Nat.succ_lt_succ_iff]
            exact ih hraw fun hprefix => h (List.cons_prefix_cons.2 ⟨rfl, hprefix⟩)
          · exact .inl (by simp [advance, hone, hc, hq])

theorem matchesLater_nil_left (text : List Char) : matchesLater [] text = true := by
  induction text with
  | nil => exact matchesLater_of_finished rfl
  | cons c text ih => rw [matchesLater_of_stuck rfl, ih]

theorem matchesLater_nil_right (pattern : List Char) :
    matchesLater pattern [] = matchesEnd pattern :=
  matchesLater_of_finished (by cases pattern <;> rfl)

theorem matchesChars_run (htext : ∀ rest, text ≠ '%' :: rest) (pattern : List Char) :
    matchesChars ('%' :: pattern) text = matchesLater pattern text := by
  cases text with
  | nil => rw [matchesLater_nil_right]; rfl
  | cons c text =>
      have hc : c ≠ '%' := by
        rintro rfl
        exact htext text rfl
      simp [matchesChars, advance, Ne.symm hc]

theorem closes_nil : Closes [] (· = []) where
  takes := by
    rintro rest rfl
    exact .inl rfl
  refuses rest h := by
    cases rest with
    | nil => exact absurd rfl h
    | cons c rest => rfl
  absorbed := by
    rintro rest rfl left heq
    cases heq

theorem closes_run : Closes ['%'] Absorbed where
  takes rest h := by
    cases rest with
    | nil => exact .inl rfl
    | cons c rest =>
        by_cases hc : c = '%'
        · subst hc
          obtain rfl := h rest rfl
          exact .inl rfl
        · exact .inr ⟨c :: rest, by simp [advance, Ne.symm hc]⟩
  refuses rest h := by
    cases rest with
    | nil => exact absurd (fun _ heq => by cases heq) h
    | cons c rest =>
        by_cases hc : c = '%'
        · subst hc
          cases rest with
          | nil => exact absurd (fun _ heq => (List.cons.inj heq).2.symm) h
          | cons d rest => rfl
        · exact absurd (fun _ heq => absurd (List.cons.inj heq).1 hc) h
  absorbed _ h := h

namespace Closes

theorem nil (h : Closes pattern P) : P [] := by
  by_contra hno
  cases h.refuses [] hno

/-- A text in front of the end of a pattern is found at the beginning of another one and the rest is
taken, or the matcher is stuck, or the other text is too short. -/
theorem advance_cases (h : Closes pattern P) (hraw : Literal raw) (text : List Char) :
    ((∃ rest, text = raw ++ rest ∧ P rest) ∧ (advance text (raw ++ pattern) = .finished true ∨
      ∃ left, advance text (raw ++ pattern) = .wildcard [] left)) ∨
    ((¬∃ rest, text = raw ++ rest ∧ P rest) ∧ (advance text (raw ++ pattern) = .stuck ∨
      (advance text (raw ++ pattern) = .finished false ∧ text.length < raw.length))) := by
  by_cases hprefix : raw <+: text
  · obtain ⟨rest, rfl⟩ := hprefix
    rw [advance_append hraw]
    by_cases hP : P rest
    · exact .inl ⟨⟨rest, rfl, hP⟩, h.takes rest hP⟩
    · refine .inr ⟨?_, .inl (h.refuses rest hP)⟩
      rintro ⟨other, heq, hother⟩
      exact hP (List.append_cancel_left heq ▸ hother)
  · refine .inr ⟨?_, advance_of_not_prefix hraw hprefix⟩
    rintro ⟨rest, rfl, -⟩
    exact hprefix (List.prefix_append _ _)

/-- A text in front of the end of a pattern is found at the beginning. -/
theorem matchesChars_iff (h : Closes pattern P) (hraw : Literal raw) :
    matchesChars (raw ++ pattern) text = true ↔ ∃ rest, text = raw ++ rest ∧ P rest := by
  rw [matchesChars]
  rcases h.advance_cases hraw text with
    ⟨hfound, heq | ⟨left, heq⟩⟩ | ⟨hnot, heq | ⟨heq, -⟩⟩
  · simp [heq, hfound]
  · simp [heq, hfound, matchesLater_nil_left]
  · simp [heq, hnot]
  · simp [heq, hnot]

/-- Behind a `%` it is found at some place. -/
theorem matchesLater_iff (h : Closes pattern P) (hraw : Literal raw) :
    matchesLater (raw ++ pattern) text = true ↔
      ∃ run rest, text = run ++ (raw ++ rest) ∧ P rest := by
  induction text with
  | nil =>
      have hend : matchesLater (raw ++ pattern) [] = matchesChars (raw ++ pattern) [] :=
        matchesLater_nil_right _
      rw [hend, h.matchesChars_iff hraw]
      simp [eq_comm, List.append_eq_nil_iff]
  | cons c text ih =>
      have hplaces : (∃ run rest, c :: text = run ++ (raw ++ rest) ∧ P rest) ↔
          (∃ rest, c :: text = raw ++ rest ∧ P rest) ∨
            ∃ run rest, text = run ++ (raw ++ rest) ∧ P rest := by
        constructor
        · rintro ⟨_ | ⟨d, run⟩, rest, heq, hP⟩
          · exact .inl ⟨rest, heq, hP⟩
          · exact .inr ⟨run, rest, (List.cons.inj heq).2, hP⟩
        · rintro (⟨rest, heq, hP⟩ | ⟨run, rest, rfl, hP⟩)
          · exact ⟨[], rest, heq, hP⟩
          · exact ⟨c :: run, rest, rfl, hP⟩
      rw [hplaces]
      rcases h.advance_cases hraw (c :: text) with
        ⟨hfound, heq | ⟨left, heq⟩⟩ | ⟨hnot, heq | ⟨heq, hshort⟩⟩
      · simp [matchesLater_of_finished heq, hfound]
      · simp [matchesLater_of_wildcard heq, hfound, matchesLater_nil_left]
      · simp [matchesLater_of_stuck heq, hnot, ih]
      · -- what is too short for the text is so at every later place
        have hlater : ¬∃ run rest, text = run ++ (raw ++ rest) ∧ P rest := by
          rintro ⟨run, rest, rfl, -⟩
          simp only [List.length_cons, List.length_append] at hshort
          omega
        simp [matchesLater_of_finished heq, hnot, hlater]

/-- Behind a `%` at the beginning of a pattern it is found at some place, but if the other text
begins with `%` only behind that. -/
theorem matchesChars_run_iff (h : Closes pattern P) (hraw : Literal raw) :
    matchesChars ('%' :: (raw ++ pattern)) text = true ↔
      ∃ run rest, text = run ++ (raw ++ rest) ∧ Absorbed run ∧ P rest := by
  by_cases hpercent : ∃ rest, text = '%' :: rest
  · obtain ⟨text, rfl⟩ := hpercent
    have hsame : matchesChars ('%' :: (raw ++ pattern)) ('%' :: text) =
        matchesChars (raw ++ pattern) text := rfl
    rw [hsame, h.matchesChars_iff hraw]
    constructor
    · rintro ⟨rest, rfl, hP⟩
      exact ⟨['%'], rest, rfl, fun _ heq => (List.cons.inj heq).2.symm, hP⟩
    · rintro ⟨_ | ⟨d, run⟩, rest, heq, habsorbed, hP⟩
      · -- the `%` is not one of the characters that take themselves, so nothing is before the rest
        cases raw with
        | nil =>
            obtain rfl := h.absorbed rest hP text heq.symm
            exact ⟨[], rfl, h.nil⟩
        | cons q raw => exact absurd (List.cons.inj heq).1.symm (literal_cons.1 hraw).1.1
      · obtain ⟨rfl, rfl⟩ := List.cons.inj heq
        obtain rfl := habsorbed run rfl
        exact ⟨rest, rfl, hP⟩
  · have hne : ∀ rest, text ≠ '%' :: rest := fun rest heq => hpercent ⟨rest, heq⟩
    rw [matchesChars_run hne, h.matchesLater_iff hraw]
    constructor
    · rintro ⟨run, rest, rfl, hP⟩
      refine ⟨run, rest, rfl, ?_, hP⟩
      rintro left rfl
      exact absurd rfl (hne _)
    · rintro ⟨run, rest, heq, -, hP⟩
      exact ⟨run, rest, heq, hP⟩

end Closes

end Like

namespace Predicate

open Like

variable (links : Links) {r : Record} {column raw text : String}

theorem holds_like_text (hr : r.get column = .text text) (pattern : String) :
    (like column pattern false).holds links r = matchesChars pattern.toList text.toList := by
  simp [holds, hr, Value.isNull, Value.likeText, Value.plain, RecordApi.like]

theorem holds_startsWith_iff (hraw : Literal raw.toList) (hr : r.get column = .text text) :
    (like column ("" ++ raw ++ "%") false).holds links r = true ↔
      ∃ rest, text.toList = raw.toList ++ rest ∧ Absorbed rest := by
  have hpattern : ("" ++ raw ++ "%").toList = raw.toList ++ ['%'] := by simp
  rw [holds_like_text links hr, hpattern, closes_run.matchesChars_iff hraw]

theorem holds_endsWith_iff (hraw : Literal raw.toList) (hr : r.get column = .text text) :
    (like column ("%" ++ raw ++ "") false).holds links r = true ↔
      ∃ run, text.toList = run ++ raw.toList ∧ Absorbed run := by
  have hpattern : ("%" ++ raw ++ "").toList = '%' :: (raw.toList ++ []) := by simp
  rw [holds_like_text links hr, hpattern, closes_nil.matchesChars_run_iff hraw]
  simp

theorem holds_contains_iff (hraw : Literal raw.toList) (hr : r.get column = .text text) :
    (like column ("%" ++ raw ++ "%") false).holds links r = true ↔
      ∃ run rest, text.toList = run ++ (raw.toList ++ rest) ∧ Absorbed run ∧ Absorbed rest := by
  have hpattern : ("%" ++ raw ++ "%").toList = '%' :: (raw.toList ++ ['%']) := by simp
  rw [holds_like_text links hr, hpattern, closes_run.matchesChars_run_iff hraw]

end Predicate

open Like

/-- Each filter by a part of a text is compiled. It accepts a record with a text in the column if
that begins with the given text, ends with it or has it in it, and what is around it is absorbed, as
everything is in a text without `%`. -/
theorem Model.substring_filters {m : Model} {column raw : String} {c : Column}
    (hc : m.column? column = some c) (hraw : Literal raw.toList) :
    ∃ starts ends within, m.Filters column "startswith" raw starts ∧
      m.Filters column "endswith" raw ends ∧ m.Filters column "contains" raw within ∧
      ∀ (links : Links) (r : Record) (text : String), r.get column = .text text →
        (starts.holds links r = true ↔
          ∃ rest, text.toList = raw.toList ++ rest ∧ Absorbed rest) ∧
        (ends.holds links r = true ↔ ∃ run, text.toList = run ++ raw.toList ∧ Absorbed run) ∧
        (within.holds links r = true ↔ ∃ run rest, text.toList = run ++ (raw.toList ++ rest) ∧
          Absorbed run ∧ Absorbed rest) ∧
        ('%' ∉ text.toList →
          (starts.holds links r = true ↔ raw.toList <+: text.toList) ∧
          (ends.holds links r = true ↔ raw.toList <:+ text.toList) ∧
          (within.holds links r = true ↔ raw.toList <:+: text.toList)) := by
  obtain rfl : c.name = column := Model.name_of_column? hc
  refine ⟨_, _, _, .of_operator hc rfl (by decide) rfl, .of_operator hc rfl (by decide) rfl,
    .of_operator hc rfl (by decide) rfl, ?_⟩
  intro links r text hr
  have hstarts := Predicate.holds_startsWith_iff links hraw hr
  have hends := Predicate.holds_endsWith_iff links hraw hr
  have hwithin := Predicate.holds_contains_iff links hraw hr
  refine ⟨hstarts, hends, hwithin, fun htext => ?_⟩
  have habsorbed : ∀ part, part <:+: text.toList → Absorbed part := fun part h =>
    .of_not_mem fun hmem => htext (h.subset hmem)
  refine ⟨hstarts.trans ⟨?_, ?_⟩, hends.trans ⟨?_, ?_⟩, hwithin.trans ⟨?_, ?_⟩⟩
  · rintro ⟨rest, heq, -⟩
    exact ⟨rest, heq.symm⟩
  · rintro ⟨rest, heq⟩
    exact ⟨rest, heq.symm, habsorbed rest (heq ▸ (List.suffix_append _ _).isInfix)⟩
  · rintro ⟨run, heq, -⟩
    exact ⟨run, heq.symm⟩
  · rintro ⟨run, heq⟩
    exact ⟨run, heq.symm, habsorbed run (heq ▸ (List.prefix_append _ _).isInfix)⟩
  · rintro ⟨run, rest, heq, -, -⟩
    exact ⟨run, rest, by rw [heq, List.append_assoc]⟩
  · rintro ⟨run, rest, heq⟩
    rw [List.append_assoc] at heq
    refine ⟨run, rest, heq.symm, habsorbed run (heq ▸ (List.prefix_append _ _).isInfix), ?_⟩
    refine habsorbed rest ?_
    rw [← heq, ← List.append_assoc]
    exact (List.suffix_append _ _).isInfix

/-- A note that begins with a `%` is not found by the character behind the next one. -/
theorem Model.substring_filters_percent :
    Model.note.column? "text" = some ⟨"text", .string, "text", true, false, false⟩ ∧
    Literal "b".toList ∧ "b".toList <:+: "%ab".toList ∧
    ∃ within, Model.note.Filters "text" "contains" "b" within ∧
      within.holds Links.none (Record.empty.insert "text" (.text "%ab")) = false := by
  have hcolumn : Model.note.column? "text" = some ⟨"text", .string, "text", true, false, false⟩ :=
    rfl
  have hraw : Literal "b".toList := by decide
  obtain ⟨_, _, within, -, -, hfilters, hholds⟩ := Model.substring_filters hcolumn hraw
  have htext : (Record.empty.insert "text" (.text "%ab")).get "text" = .text "%ab" := by
    rw [Record.get_insert, if_pos rfl]
  obtain ⟨-, -, hwithin, -⟩ := hholds Links.none _ _ htext
  refine ⟨hcolumn, hraw, by decide, within, hfilters, Bool.eq_false_iff.2 fun h => ?_⟩
  obtain ⟨run, rest, heq, habsorbed, -⟩ := hwithin.1 h
  -- the run in front of `b` begins with `%` and has an `a` behind it
  rcases run with _ | ⟨c, _ | ⟨d, run⟩⟩
  · exact absurd heq (by simp)
  · exact absurd heq (by simp)
  · obtain ⟨rfl, heq⟩ := List.cons.inj heq
    cases habsorbed _ rfl

end RecordApi
