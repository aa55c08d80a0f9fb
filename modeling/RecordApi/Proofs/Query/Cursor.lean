import RecordApi.Proofs.Query.Pattern
import RecordApi.Proofs.Text.Case

/-!
# Matching with two places

A matcher can go through a pattern and a text with a place in each (`Like.Cursor`). A turn looks at
the characters in both places and moves on. Where they differ it goes back behind the last `%` of
the pattern, which then takes one more character (`Like.back`). A turn that would look behind the
end of either is `outside`.

From the start this comes to an answer, which is that of `like` (`ends_start`), so no turn is ever
`outside` (`Ends.turn_ne_outside`). For a text without `%` the answer is whether the text can be cut
as the pattern says (`decides_pattern`). Where case is ignored both are put into lower case first,
which brings no `%` into a text.
-/

namespace RecordApi.Like

/-- Places in a text and in a pattern, and where to go back to: the place of the last `%` that was
met, and the end of the run that it takes. -/
structure Cursor where
  text : Nat
  pattern : Nat
  retry : Option (Nat × Nat)

/-- Both places at the beginning. -/
def Cursor.start : Cursor := ⟨0, 0, none⟩

/-- What a turn leads to: other places, an answer, or a look behind an end. -/
inductive Turn where
  | onward (next : Cursor)
  | answer (matched : Bool)
  | outside

/-- Behind the last `%`, which takes one more character. There is no match if none was met. -/
def back : Option (Nat × Nat) → Turn
  | some (p, v) => .onward ⟨v + 1, p + 1, some (p, v + 1)⟩
  | none => .answer false

/-- One turn. At the end of the text, nothing but `%` may be left of the pattern. -/
def turn (pattern text : List Char) (c : Cursor) : Turn :=
  if c.text < text.length then
    if c.pattern < pattern.length then
      match pattern[c.pattern]?, text[c.text]? with
      | some p, some x =>
        if Pairs p x then .onward ⟨c.text + 1, c.pattern + 1, c.retry⟩
        else if p = '%' then .onward ⟨c.text, c.pattern + 1, some (c.pattern, c.text)⟩
        else back c.retry
      | _, _ => .outside
    else back c.retry
  else if c.pattern ≤ pattern.length then .answer (matchesEnd (pattern.drop c.pattern))
  else .outside

/-- Turns lead from some places to others. -/
inductive Reaches (pattern text : List Char) : Cursor → Cursor → Prop
  | here (c : Cursor) : Reaches pattern text c c
  | onward {c next last : Cursor} (h : turn pattern text c = .onward next)
      (hlast : Reaches pattern text next last) : Reaches pattern text c last

/-- What a turn leads to comes to an answer in the end. -/
inductive Ends (pattern text : List Char) : Turn → Bool → Prop
  | answer (matched : Bool) : Ends pattern text (.answer matched) matched
  | onward {next : Cursor} {matched : Bool}
      (h : Ends pattern text (turn pattern text next) matched) :
      Ends pattern text (.onward next) matched

section

variable {pattern text after rest : List Char} {matched : Bool} {p v : Nat}
  {retry : Option (Nat × Nat)}

theorem Ends.of_onward {next : Cursor} (h : Ends pattern text (.onward next) matched) :
    Ends pattern text (turn pattern text next) matched := by
  cases h
  assumption

/-- Where an answer is reached, no turn on the way looks behind an end. -/
theorem Ends.turn_ne_outside {c d : Cursor} (h : Ends pattern text (turn pattern text c) matched)
    (hreach : Reaches pattern text c d) : turn pattern text d ≠ .outside := by
  induction hreach with
  | here c =>
      intro houtside
      rw [houtside] at h
      cases h
  | onward hturn _ ih => exact ih (hturn ▸ h).of_onward

/-! ## Single turns -/

theorem getElem?_of_drop {xs ys : List Char} {n : Nat} {x : Char} (h : xs.drop n = x :: ys) :
    n < xs.length ∧ xs[n]? = some x := by
  have hx : xs[n]? = some x := by rw [← List.head?_drop, h, List.head?_cons]
  exact ⟨(List.getElem?_eq_some_iff.1 hx).1, hx⟩

theorem drop_succ_of_drop {xs ys : List Char} {n : Nat} {x : Char} (h : xs.drop n = x :: ys) :
    xs.drop (n + 1) = ys := by
  rw [← List.tail_drop, h, List.tail_cons]

theorem turn_of_drop {q x : Char} {qs xs : List Char} (hp : pattern.drop p = q :: qs)
    (hv : text.drop v = x :: xs) : turn pattern text ⟨v, p, retry⟩ =
      if Pairs q x then .onward ⟨v + 1, p + 1, retry⟩
      else if q = '%' then .onward ⟨v, p + 1, some (p, v)⟩
      else back retry := by
  obtain ⟨hplt, hq⟩ := getElem?_of_drop hp
  obtain ⟨hvlt, hx⟩ := getElem?_of_drop hv
  simp only [turn, hplt, hvlt, hq, hx, if_true]

theorem turn_of_exhausted {x : Char} {xs : List Char} (hp : pattern.drop p = [])
    (hv : text.drop v = x :: xs) : turn pattern text ⟨v, p, retry⟩ = back retry := by
  have hple := List.drop_eq_nil_iff.1 hp
  simp only [turn, (getElem?_of_drop hv).1, Nat.not_lt.2 hple, if_true, if_false]

theorem turn_at_end (hp : p ≤ pattern.length) (hv : text.drop v = []) :
    turn pattern text ⟨v, p, retry⟩ = .answer (matchesEnd (pattern.drop p)) := by
  have hvle := List.drop_eq_nil_iff.1 hv
  simp only [turn, Nat.not_lt.2 hvle, hp, if_true, if_false]

/-! ## Turns up to where pattern and text stop -/

/-- Characters that are paired are gone past, one turn for each pair. -/
theorem Ends.of_pairs {front taken : List Char} (hpairs : List.Forall₂ Pairs front taken)
    (hp : pattern.drop p = front ++ after) (hv : text.drop v = taken ++ rest)
    (h : Ends pattern text (turn pattern text ⟨v + taken.length, p + front.length, retry⟩)
      matched) :
    Ends pattern text (turn pattern text ⟨v, p, retry⟩) matched := by
  induction hpairs generalizing p v with
  | nil => exact h
  | @cons q x front taken hpair _ ih =>
      rw [turn_of_drop hp hv, if_pos hpair]
      refine .onward (ih (drop_succ_of_drop hp) (drop_succ_of_drop hv) ?_)
      rwa [Nat.add_right_comm v 1, Nat.add_right_comm p 1]

/-- The turns from some places on, said by how far the pattern goes along the text. -/
theorem ends_of_advance (hp : p ≤ pattern.length)
    (h : match advance (text.drop v) (pattern.drop p) with
      | .finished result => result = matched
      | .wildcard after rest => ∀ p' v', pattern.drop p' = '%' :: after → text.drop v' = rest →
          Ends pattern text (turn pattern text ⟨v', p' + 1, some (p', v')⟩) matched
      | .stuck => Ends pattern text (back retry) matched) :
    Ends pattern text (turn pattern text ⟨v, p, retry⟩) matched := by
  obtain ⟨front, taken, p', t, hpattern, htext, hpairs, hstops⟩ :=
    exists_stops (pattern.drop p) (text.drop v)
  refine .of_pairs hpairs hpattern htext ?_
  have hpdrop : pattern.drop (p + front.length) = p' := by
    rw [← List.drop_drop, hpattern, List.drop_left]
  have hvdrop : text.drop (v + taken.length) = t := by
    rw [← List.drop_drop, htext, List.drop_left]
  have hple : p + front.length ≤ pattern.length := by
    have := congrArg List.length hpattern
    rw [List.length_drop, List.length_append] at this
    omega
  generalize advance (text.drop v) (pattern.drop p) = progress at h hstops
  cases hstops with
  | finished =>
      obtain rfl : matchesEnd p' = matched := h
      rw [turn_at_end hple hvdrop, hpdrop]
      exact .answer _
  | wildcard after text' hc =>
      rw [turn_of_drop hpdrop hvdrop, if_neg (by simp [Pairs, Ne.symm hc]), if_pos rfl]
      exact .onward (h _ _ hpdrop hvdrop)
  | exhausted => exact turn_of_exhausted hpdrop hvdrop ▸ h
  | differ ps ts hne hpair =>
      rw [turn_of_drop hpdrop hvdrop, if_neg hpair, if_neg hne]
      exact h

/-- Behind a `%` the turns come to the answer of `matchesLater`. -/
theorem ends_later (hp : p < pattern.length) (hpdrop : pattern.drop (p + 1) = after)
    (hvdrop : text.drop v = rest) :
    Ends pattern text (turn pattern text ⟨v, p + 1, some (p, v)⟩) (matchesLater after rest) := by
  induction after, rest using matchesLater.induct generalizing p v with
  | case1 after rest result hadvance =>
      refine ends_of_advance hp ?_
      rw [hpdrop, hvdrop, hadvance]
      exact (matchesLater_of_finished hadvance).symm
  | case2 after rest later left hadvance _ ih =>
      refine ends_of_advance hp ?_
      rw [hpdrop, hvdrop, hadvance, matchesLater_of_wildcard hadvance]
      exact fun p' v' hp' hv' => ih (getElem?_of_drop hp').1 (drop_succ_of_drop hp') hv'
  | case3 after hadvance => cases after <;> cases hadvance
  | case4 after x rest hadvance ih =>
      refine ends_of_advance hp ?_
      rw [hpdrop, hvdrop, hadvance, matchesLater_of_stuck hadvance]
      exact .onward (ih hp hpdrop (drop_succ_of_drop hvdrop))

/-- From the start the turns come to the answer of the matcher. -/
theorem ends_start (pattern text : List Char) :
    Ends pattern text (.onward .start) (matchesChars pattern text) := by
  refine .onward (ends_of_advance (Nat.zero_le _) ?_)
  rw [List.drop_zero, List.drop_zero, matchesChars]
  cases advance text pattern with
  | finished result => rfl
  | wildcard after rest =>
      exact fun p' v' hp' hv' => ends_later (getElem?_of_drop hp').1 (drop_succ_of_drop hp') hv'
  | stuck => exact .answer false

end

/-! ## The answer -/

/-- The characters of a string that are matched: in lower case where case is ignored. -/
def folded (ignoresCase : Bool) (s : String) : List Char :=
  if ignoresCase then Text.lowercase s.toList else s.toList

theorem like_eq (ignoresCase : Bool) (pattern text : String) :
    like ignoresCase pattern text =
      matchesChars (folded ignoresCase pattern) (folded ignoresCase text) := by
  cases ignoresCase <;> rfl

/-- Lower case brings no `%` into a text. -/
theorem not_mem_folded {text : String} (htext : '%' ∉ text.toList) (ignoresCase : Bool) :
    '%' ∉ folded ignoresCase text := by
  cases ignoresCase with
  | false => exact htext
  | true => exact fun h => htext ((Text.mem_lowercase_iff (by decide)).1 h)

/-- A pattern and a text without `%` are gone through in finitely many turns, none of which looks
behind the end of either, and the answer is whether the text can be cut as the pattern says. -/
theorem decides_pattern (ignoresCase : Bool) (pattern text : String) (htext : '%' ∉ text.toList) :
    let p := folded ignoresCase pattern
    let t := folded ignoresCase text
    Ends p t (.onward .start) (like ignoresCase pattern text) ∧
      (∀ c, Reaches p t .start c → turn p t c ≠ .outside) ∧
      (like ignoresCase pattern text = true ↔ Matches p t) := by
  intro p t
  have hends : Ends p t (.onward .start) (matchesChars p t) := ends_start p t
  rw [like_eq]
  exact ⟨hends, fun c hreach => hends.of_onward.turn_ne_outside hreach,
    matchesChars_iff (not_mem_folded htext ignoresCase)⟩

/-- Behind the first `ab` too much is left, and the `%` goes on to the second one. -/
theorem decides_pattern_secondPlace : '%' ∉ "xabab!".toList ∧ like true "%AB_" "xabab!" = true ∧
    Ends (folded true "%AB_") (folded true "xabab!") (.onward .start) true := by
  have htext : '%' ∉ "xabab!".toList := by decide
  obtain ⟨hends, -, hiff⟩ := decides_pattern true "%AB_" "xabab!" htext
  have hpattern : folded true "%AB_" = ['%', 'a', 'b', '_'] := by decide
  have hpieces :
      List.Forall₂ Takes ['%', 'a', 'b', '_'] [['x', 'a', 'b'], ['a'], ['b'], ['!']] := by
    simp [Takes]
  have hlike : like true "%AB_" "xabab!" = true := hiff.2 ⟨_, by decide, hpattern ▸ hpieces⟩
  rw [hlike] at hends
  exact ⟨htext, hlike, hends⟩

end RecordApi.Like
