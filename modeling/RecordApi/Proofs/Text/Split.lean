import Mathlib.Data.List.Chain
import RecordApi.Text.Split

/-!
# Texts that are cut where they were joined

Parts without the mark are cut out again of the text in which they were joined (`splitOn_joinWith`).
A mark that has to stand twice cuts behind a part that has no two marks in a row and does not end in
one (`splitOnPair_append`), and such a part alone is not cut (`splitOnPair_eq_singleton`). So a text
that is cut into one part or into two is known by its parts (`splitOnPair_eq_singleton_iff`,
`splitOnPair_eq_pair_iff`).
-/

namespace RecordApi.Text

variable {mark : Char} {s : List Char}

theorem splitOn_of_not_mem (h : mark ∉ s) : splitOn mark s = [s] := by
  induction s with
  | nil => rfl
  | cons c s ih =>
      rw [List.mem_cons, not_or] at h
      rw [splitOn, if_neg (Ne.symm h.1), ih h.2]

theorem splitOn_append (h : mark ∉ s) (rest : List Char) :
    splitOn mark (s ++ mark :: rest) = s :: splitOn mark rest := by
  induction s with
  | nil => simp [splitOn]
  | cons c s ih =>
      rw [List.mem_cons, not_or] at h
      rw [List.cons_append, splitOn, if_neg (Ne.symm h.1), ih h.2]

/-- Parts without the mark are the parts of the text that they make. -/
theorem splitOn_joinWith {parts : List (List Char)} (hne : parts ≠ [])
    (h : ∀ part ∈ parts, mark ∉ part) : splitOn mark (joinWith mark parts) = parts := by
  induction parts with
  | nil => exact absurd rfl hne
  | cons part parts ih =>
      obtain ⟨hpart, hparts⟩ := List.forall_mem_cons.1 h
      cases parts with
      | nil => exact splitOn_of_not_mem hpart
      | cons next parts =>
          rw [joinWith, splitOn_append hpart, ih (List.cons_ne_nil _ _) hparts]
          exact List.cons_ne_nil _ _

theorem mem_joinWith {parts : List (List Char)} {c : Char} (h : c ∈ joinWith mark parts) :
    c = mark ∨ ∃ part ∈ parts, c ∈ part := by
  induction parts with
  | nil => cases h
  | cons part parts ih =>
      cases parts with
      | nil => exact .inr ⟨part, List.mem_cons_self, h⟩
      | cons next parts =>
          rw [joinWith, List.mem_append, List.mem_cons] at h
          · rcases h with h | h | h
            · exact .inr ⟨part, List.mem_cons_self, h⟩
            · exact .inl h
            · rcases ih h with heq | ⟨other, hother, hc⟩
              · exact .inl heq
              · exact .inr ⟨other, List.mem_cons_of_mem _ hother, hc⟩
          · exact List.cons_ne_nil _ _

theorem joinWith_eq_intercalate (parts : List (List Char)) :
    joinWith mark parts = [mark].intercalate parts := by
  induction parts with
  | nil => rfl
  | cons part parts ih =>
      cases parts with
      | nil => exact List.intercalate_singleton.symm
      | cons next parts =>
          rw [joinWith, ih, List.intercalate_cons_cons, List.append_assoc]
          · rfl
          · exact List.cons_ne_nil _ _

/-! ## Pairs of marks -/

/-- A text has no two marks in a row. -/
def Unpaired (mark : Char) (s : List Char) : Prop :=
  s.IsChain fun c d => ¬(c = mark ∧ d = mark)

instance (mark : Char) (s : List Char) : Decidable (Unpaired mark s) :=
  inferInstanceAs (Decidable (s.IsChain fun c d => ¬(c = mark ∧ d = mark)))

theorem unpaired_cons_cons {c d : Char} : Unpaired mark (c :: d :: s) ↔
    ¬(c = mark ∧ d = mark) ∧ Unpaired mark (d :: s) :=
  List.isChain_cons_cons

/-- Two marks in a row are what a text must not have anywhere. -/
theorem unpaired_iff : Unpaired mark s ↔ ¬[mark, mark] <:+: s := by
  constructor
  · intro h hinside
    have hpair : Unpaired mark [mark, mark] := List.IsChain.infix h hinside
    exact (unpaired_cons_cons.1 hpair).1 ⟨rfl, rfl⟩
  · intro h
    induction s with
    | nil => exact .nil
    | cons c s ih =>
        have hrest : Unpaired mark s :=
          ih fun hinside => h (hinside.trans (List.infix_cons s.infix_rfl))
        cases s with
        | nil => exact .singleton c
        | cons d s =>
            refine unpaired_cons_cons.2 ⟨?_, hrest⟩
            rintro ⟨rfl, rfl⟩
            exact h ⟨[], s, rfl⟩

theorem Unpaired.not_begins_paired (h : Unpaired mark s) : ¬[mark, mark] <+: s :=
  fun hprefix => unpaired_iff.1 h hprefix.isInfix

theorem splitOnPair_cons_cons {c d : Char} {rest part : List Char} {parts : List (List Char)}
    (h : ¬(c = mark ∧ d = mark)) (hrest : splitOnPair mark (d :: rest) = part :: parts) :
    splitOnPair mark (c :: d :: rest) = (c :: part) :: parts := by
  rw [splitOnPair, if_neg h, hrest]

theorem splitOnPair_eq_singleton (h : Unpaired mark s) : splitOnPair mark s = [s] := by
  induction s with
  | nil => rfl
  | cons c s ih =>
      cases s with
      | nil => rfl
      | cons d s =>
          obtain ⟨hpair, hrest⟩ := unpaired_cons_cons.1 h
          exact splitOnPair_cons_cons hpair (ih hrest)

/-- The first two marks in a row cut a text. -/
theorem splitOnPair_append (h : Unpaired mark (s ++ [mark])) (rest : List Char) :
    splitOnPair mark (s ++ mark :: mark :: rest) = s :: splitOnPair mark rest := by
  induction s with
  | nil => simp [splitOnPair]
  | cons c s ih =>
      cases s with
      | nil =>
          obtain ⟨hpair, -⟩ := unpaired_cons_cons.1 h
          exact splitOnPair_cons_cons hpair (by simp [splitOnPair])
      | cons d s =>
          obtain ⟨hpair, hrest⟩ := unpaired_cons_cons.1 h
          exact splitOnPair_cons_cons hpair (ih hrest)

/-- A mark can be put behind a text without two marks in a row that does not end in one. -/
theorem unpaired_concat_iff :
    Unpaired mark (s ++ [mark]) ↔ Unpaired mark s ∧ s.getLast? ≠ some mark := by
  unfold Unpaired
  rw [List.isChain_append]
  constructor
  · rintro ⟨h, -, hend⟩
    exact ⟨h, fun hlast => hend mark hlast mark rfl ⟨rfl, rfl⟩⟩
  · rintro ⟨h, hlast⟩
    refine ⟨h, .singleton mark, fun c hc d hd => ?_⟩
    rintro ⟨rfl, -⟩
    exact hlast hc

/-- What stands in front of the first two marks in a row does not end in a mark. -/
theorem exists_first_pair (h : ¬Unpaired mark s) :
    ∃ front rest, s = front ++ mark :: mark :: rest ∧ Unpaired mark (front ++ [mark]) := by
  induction s with
  | nil => exact absurd .nil h
  | cons c s ih =>
      cases s with
      | nil => exact absurd (.singleton c) h
      | cons d s =>
          by_cases hpair : c = mark ∧ d = mark
          · obtain ⟨rfl, rfl⟩ := hpair
            exact ⟨[], s, rfl, .singleton _⟩
          · obtain ⟨front, rest, heq, hfront⟩ := ih fun hs => h (unpaired_cons_cons.2 ⟨hpair, hs⟩)
            refine ⟨c :: front, rest, by rw [heq, List.cons_append], ?_⟩
            -- the next character is the first one of the front, or the mark behind it
            cases front with
            | nil =>
                obtain ⟨rfl, -⟩ := List.cons.inj heq
                exact unpaired_cons_cons.2 ⟨hpair, hfront⟩
            | cons e front =>
                obtain ⟨rfl, -⟩ := List.cons.inj heq
                exact unpaired_cons_cons.2 ⟨hpair, hfront⟩

theorem splitOnPair_eq_singleton_iff {part : List Char} :
    splitOnPair mark s = [part] ↔ s = part ∧ Unpaired mark s := by
  constructor
  · intro h
    by_cases hs : Unpaired mark s
    · rw [splitOnPair_eq_singleton hs] at h
      exact ⟨(List.cons.inj h).1, hs⟩
    · obtain ⟨front, rest, rfl, hfront⟩ := exists_first_pair hs
      rw [splitOnPair_append hfront] at h
      exact absurd (List.cons.inj h).2 (splitOnPair_ne_nil mark rest)
  · rintro ⟨rfl, hs⟩
    exact splitOnPair_eq_singleton hs

theorem splitOnPair_eq_pair_iff {front back : List Char} :
    splitOnPair mark s = [front, back] ↔
      s = front ++ mark :: mark :: back ∧ Unpaired mark (front ++ [mark]) ∧ Unpaired mark back := by
  constructor
  · intro h
    by_cases hs : Unpaired mark s
    · rw [splitOnPair_eq_singleton hs] at h
      cases h
    · obtain ⟨front', rest, rfl, hfront⟩ := exists_first_pair hs
      rw [splitOnPair_append hfront] at h
      obtain ⟨rfl, hrest⟩ := List.cons.inj h
      obtain ⟨rfl, hback⟩ := splitOnPair_eq_singleton_iff.1 hrest
      exact ⟨rfl, hfront, hback⟩
  · rintro ⟨rfl, hfront, hback⟩
    rw [splitOnPair_append hfront, splitOnPair_eq_singleton hback]

end RecordApi.Text
