import Mathlib.Data.List.TakeWhile
import RecordApi.Text.Blank
import RecordApi.Text.Digits

/-!
# Digits that are read again

The digits of a number are digits, have no white space around them, and denote the number, with
zeros in front as without.
-/

namespace RecordApi.Text

/-! ## White space -/

theorem trimStart_cons {c : Char} (h : isBlank c = false) (s : List Char) :
    trimStart (c :: s) = c :: s :=
  List.dropWhile_cons_of_neg (by simp [h])

/-- A text without white space has none at its ends. -/
theorem trim_eq_self {s : List Char} (h : ∀ c ∈ s, isBlank c = false) : trim s = s := by
  have hkept : ∀ s : List Char, (∀ c ∈ s, isBlank c = false) → s.dropWhile isBlank = s := by
    intro s hs
    cases s with
    | nil => rfl
    | cons c s => exact trimStart_cons (hs c List.mem_cons_self) s
  have hback : s.reverse.dropWhile isBlank = s.reverse :=
    hkept _ fun c hc => h c (List.mem_reverse.1 hc)
  unfold trim trimStart trimEnd
  rw [hkept s h, hback, List.reverse_reverse]

/-- White space around a text without white space is all that is cut off. -/
theorem trim_append {before s after : List Char} (hbefore : ∀ c ∈ before, isBlank c = true)
    (hs : ∀ c ∈ s, isBlank c = false) (hafter : ∀ c ∈ after, isBlank c = true) :
    trim (before ++ s ++ after) = s := by
  have hall : ∀ {blanks : List Char}, (∀ c ∈ blanks, isBlank c = true) →
      blanks.dropWhile isBlank = [] := fun h => List.dropWhile_eq_nil_iff.2 h
  have hstart : trimStart (before ++ s ++ after) = if s = [] then [] else s ++ after := by
    unfold trimStart
    rw [List.append_assoc, List.dropWhile_append_of_pos hbefore]
    cases s with
    | nil => exact hall hafter
    | cons c s => exact trimStart_cons (hs c List.mem_cons_self) _
  rw [trim, hstart]
  cases hrev : s.reverse with
  | nil =>
      rw [if_pos (List.reverse_eq_nil_iff.1 hrev), List.reverse_eq_nil_iff.1 hrev]
      rfl
  | cons c rest =>
      have hne : s ≠ [] := fun h => by simp [h] at hrev
      have hc : isBlank c = false := hs c (List.mem_reverse.1 (hrev ▸ List.mem_cons_self))
      have hback : ∀ c ∈ after.reverse, isBlank c = true :=
        fun c h => hafter c (List.mem_reverse.1 h)
      rw [if_neg hne, trimEnd, List.reverse_append, List.dropWhile_append_of_pos hback, hrev]
      rw [List.dropWhile_cons_of_neg (by simp [hc]), ← hrev, List.reverse_reverse]

/-- A mark between two texts without white space brings none in. -/
theorem isBlank_of_mem_append_cons {mark : Char} {s rest : List Char} (hmark : isBlank mark = false)
    (hs : ∀ c ∈ s, isBlank c = false) (hrest : ∀ c ∈ rest, isBlank c = false) :
    ∀ c ∈ s ++ mark :: rest, isBlank c = false := by
  intro c hc
  rcases List.mem_append.1 hc with hc | hc
  · exact hs c hc
  · rcases List.mem_cons.1 hc with rfl | hc
    · exact hmark
    · exact hrest c hc

theorem isBlank_of_isDigit {c : Char} (h : isDigit c = true) : isBlank c = false := by
  simp only [isDigit, Bool.and_eq_true, decide_eq_true_eq] at h
  have hl : 48 ≤ c.toNat := h.1
  have hu : c.toNat ≤ 57 := h.2
  simp [isBlank]
  omega

/-! ## Digits of a number -/

theorem isDigit_of_mem_natDigits {n : Nat} {c : Char} (h : c ∈ natDigits n) :
    isDigit c = true := by
  have hdigit : c.isDigit = true := Nat.isDigit_of_mem_toDigits (by decide) (by decide) h
  have hval : 48 ≤ c.val ∧ c.val ≤ 57 := by simpa [Char.isDigit] using hdigit
  have hends : '0' ≤ c ∧ c ≤ '9' := hval
  simpa [isDigit] using hends

/-- Digits have no white space around them. -/
theorem trim_natDigits (n : Nat) : trim (natDigits n) = natDigits n :=
  trim_eq_self fun _ hc => isBlank_of_isDigit (isDigit_of_mem_natDigits hc)

theorem natDigits_ne_nil (n : Nat) : natDigits n ≠ [] :=
  Nat.toDigits_ne_nil

theorem digitsOnly?_eq_some {digits : List Char} (hne : digits ≠ [])
    (hall : ∀ c ∈ digits, isDigit c = true) : digitsOnly? digits = some (ofDigits digits) := by
  unfold digitsOnly?
  rw [List.all_eq_true.2 hall]
  simp [hne]

/-- A text of digits is read as the number that it denotes. -/
theorem unsigned?_digits {digits : List Char} {bound : Nat} (hne : digits ≠ [])
    (hall : ∀ c ∈ digits, isDigit c = true) (h : ofDigits digits < bound) :
    unsigned? bound digits = some (ofDigits digits) := by
  have hdigits := digitsOnly?_eq_some hne hall
  unfold unsigned?
  split
  · next rest =>
    exact absurd (hall '+' List.mem_cons_self) (by decide)
  · change (digitsOnly? digits).filter (· < bound) = some (ofDigits digits)
    rw [hdigits, Option.filter_some, if_pos (by simpa using h)]

/-- A number that is written in digits is read again. -/
theorem unsigned?_natDigits {n bound : Nat} (h : n < bound) :
    unsigned? bound (natDigits n) = some n := by
  rw [unsigned?_digits (natDigits_ne_nil n) (fun _ => isDigit_of_mem_natDigits)
    ((ofDigits_natDigits n).symm ▸ h), ofDigits_natDigits]

/-- A text with a character that is neither a digit nor a sign is no number. -/
theorem unsigned?_eq_none {s : List Char} {bound : Nat} {c : Char} (h : c ∈ s)
    (hdigit : isDigit c = false) (hplus : c ≠ '+') : unsigned? bound s = none := by
  have hnone : ∀ digits : List Char, c ∈ digits → digitsOnly? digits = none := by
    intro digits hc
    have hall : digits.all isDigit = false :=
      List.all_eq_false.2 ⟨c, hc, by simp [hdigit]⟩
    simp [digitsOnly?, hall]
  unfold unsigned?
  split
  · next rest =>
    simp [hnone rest ((List.mem_cons.1 h).resolve_left hplus)]
  · exact congrArg (Option.filter _) (hnone s h)

/-! ## Signs -/

theorem isBlank_of_mem_intDigits {n : Int} {c : Char} (h : c ∈ intDigits n) :
    isBlank c = false := by
  have hdigit : c ∈ natDigits n.natAbs → isBlank c = false :=
    fun h => isBlank_of_isDigit (isDigit_of_mem_natDigits h)
  unfold intDigits at h
  split at h
  · rcases List.mem_cons.1 h with rfl | h
    · decide
    · exact hdigit h
  · exact hdigit h

/-- A whole number that is written in digits, with a sign if need be, is read again. -/
theorem signed?_intDigits {n : Int} {bound : Nat} (hl : -(bound : Int) ≤ n)
    (hu : n < (bound : Int)) : signed? bound (intDigits n) = some n := by
  have hdigits : digitsOnly? (natDigits n.natAbs) = some n.natAbs := by
    rw [digitsOnly?_eq_some (natDigits_ne_nil _) fun _ => isDigit_of_mem_natDigits,
      ofDigits_natDigits]
  have hkept : (some n).filter (fun n => -(bound : Int) ≤ n && n < bound) = some n := by
    rw [Option.filter_some, if_pos (by simp [hl, hu])]
  unfold intDigits
  split
  · next hneg =>
    have habs : -(n.natAbs : Int) = n := by omega
    simp only [signed?, hdigits]
    change (some (-(n.natAbs : Int))).filter _ = some n
    rw [habs]
    exact hkept
  · next hneg =>
    have habs : (n.natAbs : Int) = n := by omega
    -- a digit is neither of the two signs
    have hsign : ∀ {c : Char} {rest : List Char}, natDigits n.natAbs = c :: rest →
        isDigit c = true := fun h => isDigit_of_mem_natDigits (h ▸ List.mem_cons_self)
    unfold signed?
    split
    · next heq => exact absurd (hsign heq) (by decide)
    · next heq => exact absurd (hsign heq) (by decide)
    · simp only [hdigits]
      change (some (n.natAbs : Int)).filter _ = some n
      rw [habs]
      exact hkept

theorem int64?_intDigits (n : Int64) : int64? (intDigits n.toInt) = some n := by
  have hl : -2 ^ 63 ≤ n.toInt := n.le_toInt
  have hu : n.toInt < 2 ^ 63 := n.toInt_lt
  rw [int64?, signed?_intDigits (by exact_mod_cast hl) (by exact_mod_cast hu)]
  exact congrArg some n.ofInt_toInt

/-! ## Zeros in front -/

theorem isDigit_of_mem_padded {width n : Nat} {c : Char} (h : c ∈ padded width n) :
    isDigit c = true := by
  rcases List.mem_append.1 h with h | h
  · rw [List.eq_of_mem_replicate h]
    rfl
  · exact isDigit_of_mem_natDigits h

theorem isBlank_of_mem_padded {width n : Nat} {c : Char} (h : c ∈ padded width n) :
    isBlank c = false :=
  isBlank_of_isDigit (isDigit_of_mem_padded h)

theorem padded_ne_nil (width n : Nat) : padded width n ≠ [] := by
  simp [padded, natDigits_ne_nil]

theorem ofDigits_padded (width n : Nat) : ofDigits (padded width n) = n := by
  have hzeros : ∀ k, Nat.ofDigitChars 10 (List.replicate k '0') 0 = 0 := by
    intro k
    induction k with
    | zero => rfl
    | succ k ih => simp [List.replicate_succ, Nat.ofDigitChars_cons, ih]
  unfold padded ofDigits
  rw [Nat.ofDigitChars_append, hzeros]
  exact ofDigits_natDigits n

theorem length_padded {width n : Nat} (hwidth : 0 < width) (h : n < 10 ^ width) :
    (padded width n).length = width := by
  have hle : (natDigits n).length ≤ width :=
    (Nat.length_toDigits_le_iff (by decide) hwidth).2 h
  simp only [padded, List.length_append, List.length_replicate]
  omega

theorem unsigned?_padded {width n bound : Nat} (h : n < bound) :
    unsigned? bound (padded width n) = some n := by
  rw [unsigned?_digits (padded_ne_nil width n) (fun _ => isDigit_of_mem_padded)
    ((ofDigits_padded width n).symm ▸ h), ofDigits_padded]

end RecordApi.Text
