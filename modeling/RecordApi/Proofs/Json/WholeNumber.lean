import RecordApi.Proofs.Number.Rounding
import RecordApi.Json.Number
import RecordApi.Proofs.Text.Digits

/-!
# Whole numbers that are read

The digits of a whole number are read up to the last that fits 64 bits, and the others are counted
(`number?_wholeLiteral`), which leaves three ways of reading it (`ReadsWhole`). What is read beyond
64 bits is a double-precision number that is no less than `2 ^ 63`, or nothing where the format ends
(`ofScientific?_eq_some`).
-/

namespace RecordApi

/-! ## Digits -/

namespace Text

theorem digit_le {c : Char} (h : isDigit c = true) : c.toNat - 48 ≤ 9 := by
  simp only [isDigit, Bool.and_eq_true, decide_eq_true_eq] at h
  have hu : c.toNat ≤ 57 := h.2
  omega

theorem ofDigits_lt {s : List Char} (h : ∀ c ∈ s, isDigit c = true) :
    ofDigits s < 10 ^ s.length := by
  induction s with
  | nil => decide
  | cons c s ih =>
      obtain ⟨hc, hs⟩ := List.forall_mem_cons.1 h
      have hdigit := digit_le hc
      have htail : Nat.ofDigitChars 10 s 0 < 10 ^ s.length := ih hs
      unfold ofDigits
      rw [Nat.ofDigitChars_cons, Nat.ofDigitChars_eq_ofDigitChars_zero, Nat.mul_zero, Nat.zero_add,
        List.length_cons, Nat.pow_succ]
      change 10 ^ s.length * (c.toNat - 48) + _ < _
      have hhead : 10 ^ s.length * (c.toNat - 48) ≤ 10 ^ s.length * 9 :=
        Nat.mul_le_mul_left _ hdigit
      omega

/-- Only zero begins with a zero. -/
theorem natDigits_cases (n : Nat) :
    n = 0 ∧ natDigits n = ['0'] ∨ ∃ c rest, natDigits n = c :: rest ∧ c ≠ '0' := by
  obtain ⟨c, rest, hdigits⟩ := List.exists_cons_of_ne_nil (natDigits_ne_nil n)
  have hall : ∀ d ∈ c :: rest, isDigit d = true :=
    fun d hd => isDigit_of_mem_natDigits (hdigits ▸ hd)
  by_cases hc : c = '0'
  · subst hc
    have hvalue : ofDigits rest = n := by
      rw [← ofDigits_natDigits n, hdigits]
      rfl
    have hlt := ofDigits_lt (List.forall_mem_cons.1 hall).2
    rw [hvalue] at hlt
    cases rest with
    | nil => exact .inl ⟨Nat.lt_one_iff.1 hlt, hdigits⟩
    | cons d rest =>
        -- there would be fewer digits
        have hlength := (Nat.length_toDigits_le_iff (by decide)
          (Nat.succ_pos rest.length)).2 hlt
        rw [show Nat.toDigits 10 n = _ from hdigits] at hlength
        simp at hlength
  · exact .inr ⟨c, rest, hdigits, hc⟩

end Text

namespace Json

open Text

/-! ## Scanning -/

/-- The text of a whole number. -/
def wholeLiteral (negative : Bool) (k : Nat) : List Char :=
  if negative then '-' :: natDigits k else natDigits k

/-- The number that digits with a sign denote. -/
def wholeValue (negative : Bool) (k : Nat) : Int :=
  if negative then -(k : Int) else k

/-- What follows does not belong to a whole number. -/
def EndsNumber (rest : List Char) : Prop :=
  ∀ c ∈ rest.head?, isDigit c = false ∧ c ≠ '.' ∧ c ≠ 'e' ∧ c ≠ 'E'

/-- What is kept of the digits of a number: the number of those that fit 64 bits, and how many were
passed over. -/
structure Scanned (k n passed : Nat) : Prop where
  lt : n < wordBound
  le : n * 10 ^ passed ≤ k
  all : passed = 0 → n = k
  full : 0 < passed → wordBound ≤ 10 * n + 9

theorem EndsNumber.takeWhile_eq_nil {rest : List Char} (h : EndsNumber rest) :
    rest.takeWhile isDigit = [] := by
  cases rest with
  | nil => rfl
  | cons c rest => exact List.takeWhile_cons_of_neg (by simp [(h c rfl).1])

theorem EndsNumber.dropWhile_eq_self {rest : List Char} (h : EndsNumber rest) :
    rest.dropWhile isDigit = rest := by
  cases rest with
  | nil => rfl
  | cons c rest => exact List.dropWhile_cons_of_neg (by simp [(h c rfl).1])

theorem EndsNumber.appendDigits {rest : List Char} (h : EndsNumber rest) (n count : Nat) :
    appendDigits n count rest = (n, count, rest) := by
  cases rest with
  | nil => rfl
  | cons c rest => simp [Json.appendDigits, (h c rfl).1]

theorem skipDigits_append {digits rest : List Char} (hall : ∀ c ∈ digits, isDigit c = true)
    (hrest : EndsNumber rest) : skipDigits (digits ++ rest) = (digits.length, rest) := by
  unfold skipDigits
  rw [List.takeWhile_append_of_pos hall, List.dropWhile_append_of_pos hall,
    hrest.takeWhile_eq_nil, hrest.dropWhile_eq_self, List.append_nil]

/-- Digits are appended up to the first that does not fit. -/
theorem appendDigits_append {digits rest : List Char} (hall : ∀ c ∈ digits, isDigit c = true)
    (hrest : EndsNumber rest) {n : Nat} (count : Nat) (hn : n < wordBound) :
    ∃ front back, digits = front ++ back ∧
      Json.appendDigits n count (digits ++ rest) =
        (Nat.ofDigitChars 10 front n, count + front.length, back ++ rest) ∧
      Nat.ofDigitChars 10 front n < wordBound ∧
      (back ≠ [] → wordBound ≤ 10 * Nat.ofDigitChars 10 front n + 9) := by
  induction digits generalizing n count with
  | nil => exact ⟨[], [], rfl, hrest.appendDigits n count, hn, fun h => absurd rfl h⟩
  | cons c digits ih =>
      obtain ⟨hc, hdigits⟩ := List.forall_mem_cons.1 hall
      by_cases hm : n * 10 + (c.toNat - 48) < wordBound
      · obtain ⟨front, back, rfl, happend, hlt, hfull⟩ := ih hdigits (count + 1) hm
        have hvalue : Nat.ofDigitChars 10 (c :: front) n =
            Nat.ofDigitChars 10 front (n * 10 + (c.toNat - 48)) := by
          rw [Nat.ofDigitChars_cons, Nat.mul_comm]
          rfl
        refine ⟨c :: front, back, rfl, ?_, hvalue ▸ hlt, hvalue ▸ hfull⟩
        rw [hvalue, List.length_cons, List.cons_append, Json.appendDigits, if_pos hc, if_pos hm,
          happend]
        rw [Nat.add_right_comm, Nat.add_assoc]
      · refine ⟨[], c :: digits, rfl, ?_, hn, fun _ => ?_⟩
        · rw [List.cons_append, Json.appendDigits, if_pos hc, if_neg hm]
          rfl
        · have hdigit := digit_le hc
          rw [Nat.ofDigitChars_nil]
          omega

/-- The number at the start of a text without its sign. -/
def magnitude? (negative : Bool) (s : List Char) : Option (Json × List Char) :=
  match s with
  | '0' :: c :: rest => if isDigit c then none else afterWhole? negative 0 0 (c :: rest)
  | _ =>
    let (n, count, rest) := Json.appendDigits 0 0 s
    let (passed, rest) := skipDigits rest
    if count = 0 then none else afterWhole? negative n passed rest

theorem number?_minus (s : List Char) : number? ('-' :: s) = magnitude? true s :=
  rfl

theorem number?_of_ne {c : Char} (h : c ≠ '-') (s : List Char) :
    number? (c :: s) = magnitude? false (c :: s) := by
  unfold number?
  split
  next heq =>
    split at heq
    · next hs => cases hs; exact absurd rfl h
    · cases heq
      rfl

theorem magnitude?_of_ne {c : Char} (h : c ≠ '0') (negative : Bool) (s : List Char) :
    magnitude? negative (c :: s) =
      (let (n, count, rest) := Json.appendDigits 0 0 (c :: s)
        let (passed, rest) := skipDigits rest
        if count = 0 then none else afterWhole? negative n passed rest) := by
  unfold magnitude?
  split
  · next heq => exact absurd (List.cons.inj heq).1 h
  · rfl

/-- The digits of a number are read, and none of what follows them. -/
theorem magnitude?_natDigits (negative : Bool) (k : Nat) {rest : List Char}
    (hrest : EndsNumber rest) : ∃ n passed, Scanned k n passed ∧
      magnitude? negative (natDigits k ++ rest) = afterWhole? negative n passed rest := by
  rcases natDigits_cases k with ⟨rfl, hzero⟩ | ⟨c, digits, hdigits, hc⟩
  · refine ⟨0, 0, ⟨by decide, Nat.le_refl _, fun _ => rfl, fun h => absurd h (by decide)⟩, ?_⟩
    rw [hzero]
    cases rest with
    | nil => rfl
    | cons d rest =>
        change (if isDigit d then none else afterWhole? negative 0 0 (d :: rest)) = _
        rw [if_neg (by simp [(hrest d rfl).1])]
  · have hall : ∀ d ∈ natDigits k, isDigit d = true := fun _ => isDigit_of_mem_natDigits
    obtain ⟨front, back, hsplit, happend, hlt, hfull⟩ :=
      appendDigits_append hall hrest 0 (show 0 < wordBound by decide)
    have hback : ∀ d ∈ back, isDigit d = true :=
      fun d hd => hall d (hsplit ▸ List.mem_append_right _ hd)
    have hvalue : k = 10 ^ back.length * Nat.ofDigitChars 10 front 0 +
        Nat.ofDigitChars 10 back 0 := by
      rw [← Nat.ofDigitChars_eq_ofDigitChars_zero, ← Nat.ofDigitChars_append, ← hsplit]
      exact (ofDigits_natDigits k).symm
    refine ⟨Nat.ofDigitChars 10 front 0, back.length, ⟨hlt, ?_, ?_, ?_⟩, ?_⟩
    · rw [Nat.mul_comm]
      omega
    · intro hnone
      obtain rfl := List.length_eq_zero_iff.1 hnone
      rw [hvalue, List.length_nil, Nat.pow_zero, Nat.one_mul]
      rfl
    · exact fun hpos => hfull (List.ne_nil_of_length_pos hpos)
    · have hcount : 0 + front.length ≠ 0 := by
        intro hnone
        obtain rfl := List.length_eq_zero_iff.1 ((Nat.zero_add _).symm.trans hnone)
        rw [List.nil_append] at hsplit
        have hle := hfull (hsplit ▸ natDigits_ne_nil k)
        exact absurd hle (by decide)
      rw [hdigits, List.cons_append, magnitude?_of_ne hc, ← List.cons_append, ← hdigits, happend]
      dsimp only
      rw [skipDigits_append hback hrest]
      exact if_neg hcount

theorem number?_wholeLiteral (negative : Bool) (k : Nat) {rest : List Char}
    (hrest : EndsNumber rest) : ∃ n passed, Scanned k n passed ∧
      number? (wholeLiteral negative k ++ rest) = afterWhole? negative n passed rest := by
  obtain ⟨n, passed, hscanned, hread⟩ := magnitude?_natDigits negative k hrest
  refine ⟨n, passed, hscanned, ?_⟩
  rw [← hread]
  cases negative with
  | true => exact number?_minus _
  | false =>
      obtain ⟨c, digits, hdigits⟩ := List.exists_cons_of_ne_nil (natDigits_ne_nil k)
      have hc : c ≠ '-' := by
        rintro rfl
        have hminus : '-' ∈ natDigits k := hdigits ▸ List.mem_cons_self
        exact absurd (isDigit_of_mem_natDigits hminus) (by decide)
      change number? (natDigits k ++ rest) = _
      rw [hdigits]
      exact number?_of_ne hc _

/-- What is made of the digits where no point and no exponent follows. -/
theorem EndsNumber.afterWhole? {rest : List Char} (h : EndsNumber rest) (negative : Bool)
    (digits passed : Nat) :
    Json.afterWhole? negative digits passed rest =
      if 0 < passed then (ofScientific? negative digits passed).map (·, rest)
      else if !negative then some (.int digits, rest)
      else if digits = 0 || 2 ^ 63 < digits then (ofScientific? true digits 0).map (·, rest)
      else some (.int (-(digits : Int)), rest) := by
  unfold Json.afterWhole?
  split
  · exact absurd rfl (h '.' rfl).2.1
  · exact absurd rfl (h 'e' rfl).2.2.1
  · exact absurd rfl (h 'E' rfl).2.2.2
  · rfl

/-- How the text of a whole number is read: as it is, or as a double-precision number of its first
digits where it is beyond 64 bits. Zero with a sign is such a number too. -/
inductive ReadsWhole (negative : Bool) (k : Nat) : Option Json → Prop
  | kept (least : -2 ^ 63 ≤ wholeValue negative k) (word : k < wordBound) :
      ReadsWhole negative k (some (.int (wholeValue negative k)))
  | negativeZero (sign : negative = true) (zero : k = 0) :
      ReadsWhole negative k (ofScientific? true 0 0)
  | beyond {n passed a b : Nat} (scanned : Scanned k n passed) (digits : 2 ^ a ≤ n)
      (power : 2 ^ b ≤ 10 ^ passed) (bits : a + b = 63) :
      ReadsWhole negative k (ofScientific? negative n passed)

theorem exists_readsWhole (negative : Bool) (k : Nat) {rest : List Char}
    (hrest : EndsNumber rest) : ∃ read, ReadsWhole negative k read ∧
      number? (wholeLiteral negative k ++ rest) = read.map (·, rest) := by
  obtain ⟨n, passed, hscanned, hread⟩ := number?_wholeLiteral negative k hrest
  rw [hread, hrest.afterWhole?]
  split
  · next hpassed =>
    have hfull : 2 ^ 64 ≤ 10 * n + 9 := hscanned.full hpassed
    have hten : 10 ^ 1 ≤ 10 ^ passed := Nat.pow_le_pow_right (by decide) hpassed
    exact ⟨_, .beyond (a := 60) (b := 3) hscanned (by omega) (by omega) rfl, rfl⟩
  · next hpassed =>
    obtain rfl : passed = 0 := Nat.eq_zero_of_not_pos hpassed
    obtain rfl := hscanned.all rfl
    cases negative with
    | false =>
        have hleast : -2 ^ 63 ≤ wholeValue false n := (by decide : -2 ^ 63 ≤ (0 : Int)).trans
          (Int.natCast_nonneg n)
        exact ⟨_, .kept hleast hscanned.lt, rfl⟩
    | true =>
        rw [if_neg (by decide)]
        split
        · next hends =>
          rcases Nat.eq_zero_or_pos n with rfl | hpos
          · exact ⟨_, .negativeZero rfl rfl, rfl⟩
          · have hlt : 2 ^ 63 < n := by simpa [hpos.ne'] using hends
            exact ⟨_, .beyond (a := 63) (b := 0) hscanned hlt.le (Nat.le_refl 1) rfl, rfl⟩
        · next hends =>
          have hle : n ≤ 2 ^ 63 := by simp at hends; omega
          have hleast : -2 ^ 63 ≤ wholeValue true n := by
            change -2 ^ 63 ≤ -(n : Int)
            omega
          exact ⟨_, .kept hleast hscanned.lt, rfl⟩

/-! ## Powers of ten -/

theorem tenTo_eq {p : Nat} (hp : p ≤ 308) : tenTo p = .ofRatio false (10 ^ p) 1 := by
  unfold tenTo Binary64.ofDecimal
  have horder : ((Nat.toDigits 10 1).length : Int) + p = 1 + p := rfl
  rw [if_neg Nat.one_ne_zero, horder]
  dsimp only
  rw [if_neg (by omega), if_neg (by omega), if_pos (by omega), Nat.one_mul, Int.toNat_natCast]

theorem atLeast_tenTo {p b : Nat} (hp : p ≤ 308) (hb : b ≤ 1024) (h : 2 ^ b ≤ 10 ^ p) :
    (tenTo p).AtLeast false b := by
  rw [tenTo_eq hp]
  exact Binary64.atLeast_ofNat false hb h

theorem scaleByTen?_natCast {x : Binary64} (hx : x.isZero = false) (fuel p : Nat) :
    scaleByTen? (fuel + 1) x p =
      if p ≤ 308 ∧ (x.mul (tenTo p)).isInfinite = false then some (x.mul (tenTo p)) else none := by
  have hnonneg : (0 : Int) ≤ p := Int.natCast_nonneg p
  rw [scaleByTen?, Int.natAbs_natCast]
  by_cases hp : p ≤ 308
  · rw [if_pos hp, if_pos hnonneg]
    cases hy : (x.mul (tenTo p)).isInfinite with
    | false => simp [hp, hy]
    | true => simp [hy]
  · rw [if_neg hp, hx, if_neg Bool.false_ne_true, if_pos hnonneg, if_neg (fun h => hp h.1)]

theorem finite?_map {x : Binary64} (h : x.isFinite = true) :
    x.finite?.map Json.float = some (.float ⟨x, h⟩) := by
  rw [Binary64.finite?, dif_pos h]
  rfl

/-- What is made of digits that passed over others is no less than the product of powers of two that
are no greater than they are. -/
theorem ofScientific?_eq_some {negative : Bool} {n p a b : Nat} {j : Json} (hn : 2 ^ a ≤ n)
    (hp : 2 ^ b ≤ 10 ^ p) (hab : a + b ≤ 1024) (h : ofScientific? negative n p = some j) :
    ∃ y : Binary64.Finite, j = .float y ∧ y.val.AtLeast negative (a + b) := by
  have hx : (Binary64.ofInt n).AtLeast false a := by
    rw [Binary64.ofInt_natCast]
    exact Binary64.atLeast_ofNat false (by omega) hn
  rw [ofScientific?, scaleByTen?_natCast hx.isZero_eq_false] at h
  split at h
  · next hfits =>
    obtain ⟨hp308, hfinite⟩ := hfits
    have hy : ((Binary64.ofInt n).mul (tenTo p)).AtLeast false (a + b) :=
      hx.mul (atLeast_tenTo hp308 (by omega) hp) hab
    have hfinite := Binary64.isFinite_of_isInfinite_eq_false hfinite hy.ne_nan
    generalize (Binary64.ofInt n).mul (tenTo p) = y at h hy hfinite
    rw [Option.bind_some] at h
    cases negative with
    | false =>
        rw [if_neg Bool.false_ne_true, finite?_map hfinite] at h
        exact ⟨_, (Option.some.inj h).symm, hy⟩
    | true =>
        rw [if_pos rfl, finite?_map (y.isFinite_neg.trans hfinite)] at h
        exact ⟨_, (Option.some.inj h).symm, hy.neg⟩
  · cases h

/-- Digits and a power of ten that stay away from the end of the format are read. -/
theorem exists_ofScientific? (negative : Bool) {n p a b : Nat} (hpos : 0 < n) (hn : n < 2 ^ a)
    (hp : 10 ^ p < 2 ^ b) (hp308 : p ≤ 308) (hab : a + b + 3 ≤ 1024) :
    ∃ j, ofScientific? negative n p = some j := by
  have hx : (Binary64.ofInt n).AtLeast false 0 := by
    rw [Binary64.ofInt_natCast]
    exact Binary64.atLeast_ofNat false (by decide) hpos
  have hten := atLeast_tenTo hp308 (Nat.zero_le 1024) (Nat.one_le_pow p 10 (by decide))
  have hbelow : ((Binary64.ofInt n).mul (tenTo p)).Below (a + 1 + (b + 1) + 1) := by
    refine Binary64.Below.mul ?_ ?_ (by omega) (by omega)
    · rw [Binary64.ofInt_natCast]
      exact Binary64.below_ofNat false hn
    · rw [tenTo_eq hp308]
      exact Binary64.below_ofNat false hp
  have hfinite := hbelow.isInfinite_eq_false (by omega)
  have hy := hx.mul hten (by decide)
  rw [ofScientific?, scaleByTen?_natCast hx.isZero_eq_false, if_pos ⟨hp308, hfinite⟩,
    Option.bind_some]
  have hfinite := Binary64.isFinite_of_isInfinite_eq_false hfinite hy.ne_nan
  generalize (Binary64.ofInt n).mul (tenTo p) = y at hfinite
  cases negative with
  | false => exact ⟨_, finite?_map hfinite⟩
  | true => exact ⟨_, finite?_map (y.isFinite_neg.trans hfinite)⟩

end Json

end RecordApi
