import Mathlib.Algebra.Order.Field.Power
import Mathlib.Data.Rat.Cast.Order
import Mathlib.Tactic.FieldSimp
import Mathlib.Tactic.Linarith
import Mathlib.Tactic.Positivity
import Mathlib.Tactic.Ring
import RecordApi.Number.Binary64

/-!
# Rounding between powers of two

The rank of a power of two is known (`rankOfPower`). A quotient that is no less than a power of two
is not rounded below it (`rankOfPower_le_rankOfRatio`), and one that is less is not rounded above it
(`rankOfRatio_le_rankOfPower`). So products are bounded by the powers of two around their factors,
and a number that is no less than `2 ^ 63` is the greatest or least one of 64 bits
(`AtLeast.toInt64_eq`).
-/

namespace RecordApi.Binary64

/-! ## Fractions with a power of two -/

theorem scaleTwo_den_pos (m : Nat) (e : Int) : 0 < (scaleTwo m e).2 := by
  unfold scaleTwo
  split
  · exact Nat.one_pos
  · exact Nat.two_pow_pos _

/-- The numerator and denominator of `m * 2 ^ e` are those of `m * 2 ^ e`. -/
theorem scaleTwo_div (m : Nat) (e : Int) :
    ((scaleTwo m e).1 : ℚ) / (scaleTwo m e).2 = m * 2 ^ e := by
  unfold scaleTwo
  split
  · next h =>
    obtain ⟨k, rfl⟩ := Int.eq_ofNat_of_zero_le h
    simp
  · next h =>
    obtain ⟨k, hk⟩ := Int.eq_ofNat_of_zero_le (show 0 ≤ -e by omega)
    obtain rfl : e = -(k : Int) := by omega
    simp [div_eq_mul_inv]

theorem two_zpow_pos (e : Int) : (0 : ℚ) < 2 ^ e :=
  zpow_pos two_pos e

theorem two_zpow_le {e f : Int} (h : e ≤ f) : (2 : ℚ) ^ e ≤ 2 ^ f :=
  zpow_le_zpow_right₀ one_le_two h

/-! ## The exponent of a quotient -/

/-- A quotient of positive numbers lies between the powers of two next to those of its parts. -/
theorem div_bounds {num den : Nat} (hnum : num ≠ 0) (hden : den ≠ 0) :
    (2 : ℚ) ^ ((num.log2 : Int) - den.log2 - 1) ≤ num / den ∧
      (num : ℚ) / den < 2 ^ ((num.log2 : Int) - den.log2 + 1) := by
  have hpos : (0 : ℚ) < den := by exact_mod_cast Nat.pos_of_ne_zero hden
  have hnumL : (2 : ℚ) ^ num.log2 ≤ num := by exact_mod_cast Nat.log2_self_le hnum
  have hnumU : (num : ℚ) < 2 ^ (num.log2 + 1) := by exact_mod_cast Nat.lt_log2_self
  have hdenL : (2 : ℚ) ^ den.log2 ≤ den := by exact_mod_cast Nat.log2_self_le hden
  have hdenU : (den : ℚ) < 2 ^ (den.log2 + 1) := by exact_mod_cast Nat.lt_log2_self
  constructor
  · rw [le_div_iff₀ hpos]
    calc (2 : ℚ) ^ ((num.log2 : Int) - den.log2 - 1) * den
        ≤ 2 ^ ((num.log2 : Int) - den.log2 - 1) * 2 ^ (den.log2 + 1) := by gcongr
      _ = 2 ^ num.log2 := by
          rw [← zpow_natCast, ← zpow_natCast, ← zpow_add₀ two_ne_zero]
          congr 1
          push_cast
          omega
      _ ≤ num := hnumL
  · rw [div_lt_iff₀ hpos]
    calc (num : ℚ) < 2 ^ (num.log2 + 1) := hnumU
      _ = 2 ^ ((num.log2 : Int) - den.log2 + 1) * 2 ^ den.log2 := by
          rw [← zpow_natCast, ← zpow_natCast, ← zpow_add₀ two_ne_zero]
          congr 1
          push_cast
          omega
      _ ≤ 2 ^ ((num.log2 : Int) - den.log2 + 1) * den := by gcongr

theorem exponentOfRatio_eq (num den : Nat) {gap : Int} (hgap : (num.log2 : Int) - den.log2 = gap) :
    exponentOfRatio num den = max (-1074)
      (gap - if (scaleTwo num (-gap)).1 < den * (scaleTwo num (-gap)).2 then 53 else 52) := by
  subst hgap
  rfl

/-- Whether a quotient is less than a power of two is told by whole numbers. -/
theorem scaleTwo_lt_iff {num den : Nat} (hden : den ≠ 0) (e : Int) :
    (scaleTwo num (-e)).1 < den * (scaleTwo num (-e)).2 ↔ (num : ℚ) / den < 2 ^ e := by
  have hpos : (0 : ℚ) < den := by exact_mod_cast Nat.pos_of_ne_zero hden
  have hd : (0 : ℚ) < (scaleTwo num (-e)).2 := by exact_mod_cast scaleTwo_den_pos num (-e)
  have hdiv := scaleTwo_div num (-e)
  rw [← @Nat.cast_lt ℚ, Nat.cast_mul, ← div_lt_iff₀ hd, hdiv, div_lt_iff₀ hpos, zpow_neg,
    ← div_eq_mul_inv, div_lt_iff₀ (two_zpow_pos e), mul_comm]

/-- At its exponent a quotient has 53 bits, or fewer at the least exponent. -/
theorem exponentOfRatio_spec {num den : Nat} (hnum : num ≠ 0) (hden : den ≠ 0) :
    (num : ℚ) / den < 2 ^ (exponentOfRatio num den + 53) ∧
      (exponentOfRatio num den = -1074 ∨ 2 ^ (exponentOfRatio num den + 52) ≤ (num : ℚ) / den) := by
  obtain ⟨hl, hu⟩ := div_bounds hnum hden
  generalize hgap : (num.log2 : Int) - den.log2 = gap at hl hu
  -- the exponent without the bound from below
  obtain ⟨e, he, hlower, hupper⟩ : ∃ e : Int,
      (gap - if (scaleTwo num (-gap)).1 < den * (scaleTwo num (-gap)).2 then 53 else 52) = e ∧
        2 ^ (e + 52) ≤ (num : ℚ) / den ∧ (num : ℚ) / den < 2 ^ (e + 53) := by
    by_cases h : (num : ℚ) / den < 2 ^ gap
    · refine ⟨gap - 53, by rw [if_pos ((scaleTwo_lt_iff hden gap).2 h)], ?_, ?_⟩
      · rwa [show gap - 53 + 52 = gap - 1 by omega]
      · rwa [show gap - 53 + 53 = gap by omega]
    · refine ⟨gap - 52, by rw [if_neg (mt (scaleTwo_lt_iff hden gap).1 h)], ?_, ?_⟩
      · rw [show gap - 52 + 52 = gap by omega]
        exact not_lt.1 h
      · rwa [show gap - 52 + 53 = gap + 1 by omega]
  rw [exponentOfRatio_eq num den hgap, he]
  rcases le_total e (-1074) with hle | hle
  · rw [max_eq_left hle]
    exact ⟨hupper.trans_le (two_zpow_le (by omega)), .inl rfl⟩
  · rw [max_eq_right hle]
    exact ⟨hupper, .inr hlower⟩

/-! ## The rank of a quotient -/

theorem div_le_roundDiv (num den : Nat) : num / den ≤ roundDiv num den := by
  unfold roundDiv
  dsimp only
  split
  · exact Nat.le_refl _
  · split
    · exact Nat.le_succ _
    · exact Nat.le_add_right _ _

theorem roundDiv_le (num den : Nat) : roundDiv num den ≤ num / den + 1 := by
  unfold roundDiv
  dsimp only
  split
  · exact Nat.le_succ _
  · split
    · exact Nat.le_refl _
    · omega

/-- The rank of `2 ^ a`. -/
def rankOfPower (a : Nat) : Nat :=
  (a + 1023) * 2 ^ 52

/-- How many bits the significand of a quotient has at an exponent, before it is rounded. -/
theorem two_pow_le_significand_iff {num den : Nat} (hden : den ≠ 0) (e : Int) (k : Nat) :
    2 ^ k ≤ (scaleTwo num (-e)).1 / (den * (scaleTwo num (-e)).2) ↔
      (2 : ℚ) ^ (e + k) ≤ num / den := by
  have hd := scaleTwo_den_pos num (-e)
  have hden' : 0 < den * (scaleTwo num (-e)).2 := Nat.mul_pos (Nat.pos_of_ne_zero hden) hd
  have hvalue : ((scaleTwo num (-e)).1 : ℚ) / (den * (scaleTwo num (-e)).2 : Nat) =
      num / den / 2 ^ e := by
    rw [Nat.cast_mul, mul_comm, ← div_div, scaleTwo_div, zpow_neg]
    field_simp
  rw [Nat.le_div_iff_mul_le hden', add_comm, zpow_add₀ two_ne_zero, zpow_natCast,
    ← le_div_iff₀ (two_zpow_pos e), ← hvalue, le_div_iff₀ (by exact_mod_cast hden')]
  exact_mod_cast Iff.rfl

/-- The rank of a quotient, by its exponent and its rounded significand. -/
theorem exists_rankOfRatio {num den : Nat} (hnum : num ≠ 0) (hden : den ≠ 0) :
    ∃ (e : Int) (m : Nat), -1074 ≤ e ∧ rankOfRatio num den = (e + 1074).toNat * 2 ^ 52 + m ∧
      (num : ℚ) / den < 2 ^ (e + 53) ∧ m ≤ 2 ^ 53 ∧
      (e = -1074 ∨ 2 ^ (e + 52) ≤ (num : ℚ) / den ∧ 2 ^ 52 ≤ m) := by
  obtain ⟨hupper, hlower⟩ := exponentOfRatio_spec hnum hden
  have hleast : -1074 ≤ exponentOfRatio num den := le_max_left _ _
  have hrank : rankOfRatio num den = (exponentOfRatio num den + 1074).toNat * 2 ^ 52 +
      roundDiv (scaleTwo num (-exponentOfRatio num den)).1
        (den * (scaleTwo num (-exponentOfRatio num den)).2) := if_neg hnum
  generalize exponentOfRatio num den = e at hupper hlower hleast hrank
  have hbits := fun k => @two_pow_le_significand_iff num den hden e k
  generalize (scaleTwo num (-e)).1 = n at hrank hbits
  generalize den * (scaleTwo num (-e)).2 = d at hrank hbits
  refine ⟨e, _, hleast, hrank, hupper, ?_, ?_⟩
  · have hlt : ¬2 ^ 53 ≤ n / d := fun h => absurd ((hbits 53).1 h) (not_le.2 hupper)
    have hle := roundDiv_le n d
    omega
  · exact hlower.imp_right fun hle => ⟨hle, ((hbits 52).2 hle).trans (div_le_roundDiv n d)⟩

theorem lt_of_two_zpow_lt {e f : Int} (h : (2 : ℚ) ^ e < 2 ^ f) : e < f :=
  (zpow_lt_zpow_iff_right₀ one_lt_two).1 h

/-- What is no less than a power of two is not rounded below it. -/
theorem rankOfPower_le_rankOfRatio {num den a : Nat} (hden : den ≠ 0)
    (h : (2 : ℚ) ^ (a : Int) ≤ num / den) : rankOfPower a ≤ rankOfRatio num den := by
  have hnum : num ≠ 0 := by
    rintro rfl
    rw [Nat.cast_zero, zero_div] at h
    exact absurd h (not_le.2 (two_zpow_pos _))
  obtain ⟨e, m, -, hrank, hupper, -, hlower⟩ := exists_rankOfRatio hnum hden
  have he : (a : Int) < e + 53 := lt_of_two_zpow_lt (h.trans_lt hupper)
  obtain ⟨-, hm⟩ := hlower.resolve_left (by omega)
  have hsteps : a + 1022 ≤ (e + 1074).toNat := by omega
  calc rankOfPower a = (a + 1022) * 2 ^ 52 + 2 ^ 52 := Nat.succ_mul (a + 1022) (2 ^ 52)
    _ ≤ (e + 1074).toNat * 2 ^ 52 + m :=
        Nat.add_le_add (Nat.mul_le_mul_right _ hsteps) hm
    _ = rankOfRatio num den := hrank.symm

/-- What is less than a power of two is not rounded above it. -/
theorem rankOfRatio_le_rankOfPower {num den a : Nat} (hden : den ≠ 0)
    (h : (num : ℚ) / den < 2 ^ (a : Int)) : rankOfRatio num den ≤ rankOfPower a := by
  by_cases hnum : num = 0
  · rw [rankOfRatio, if_pos hnum]
    exact Nat.zero_le _
  obtain ⟨e, m, hleast, hrank, -, hm, hlower⟩ := exists_rankOfRatio hnum hden
  have hsteps : (e + 1074).toNat ≤ a + 1021 := by
    rcases hlower with rfl | ⟨hlower, -⟩
    · exact Nat.zero_le _
    · have he : e + 52 < a := lt_of_two_zpow_lt (hlower.trans_lt h)
      omega
  calc rankOfRatio num den = (e + 1074).toNat * 2 ^ 52 + m := hrank
    _ ≤ (a + 1021) * 2 ^ 52 + 2 * 2 ^ 52 :=
        Nat.add_le_add (Nat.mul_le_mul_right _ hsteps) hm
    _ = rankOfPower a := (Nat.add_mul (a + 1021) 2 (2 ^ 52)).symm

/-! ## Magnitudes -/

/-- The magnitude of a rank. -/
def magnitude (rank : Nat) : ℚ :=
  significand rank * 2 ^ exponent rank

theorem significand_lt (rank : Nat) : significand rank < 2 ^ 53 := by
  unfold significand
  split <;> omega

theorem le_exponent {rank a : Nat} (h : rankOfPower a ≤ rank) :
    2 ^ 52 ≤ significand rank ∧ (a : Int) - 52 ≤ exponent rank := by
  unfold rankOfPower at h
  have hrank : ¬rank < 2 ^ 53 := by omega
  constructor
  · rw [significand, if_neg (by omega)]
    exact Nat.le_add_right _ _
  · rw [exponent, if_neg hrank]
    omega

theorem le_magnitude {rank a : Nat} (h : rankOfPower a ≤ rank) :
    (2 : ℚ) ^ (a : Int) ≤ magnitude rank := by
  obtain ⟨hm, he⟩ := le_exponent h
  calc (2 : ℚ) ^ (a : Int) = ((2 ^ 52 : Nat) : ℚ) * 2 ^ ((a : Int) - 52) := by
        rw [Nat.cast_pow, Nat.cast_ofNat, ← zpow_natCast, ← zpow_add₀ two_ne_zero]
        congr 1
        push_cast
        omega
    _ ≤ significand rank * 2 ^ exponent rank :=
        mul_le_mul (by exact_mod_cast hm) (two_zpow_le he) (two_zpow_pos _).le (Nat.cast_nonneg _)

theorem magnitude_lt {rank a : Nat} (h : rank < rankOfPower a) :
    magnitude rank < 2 ^ (a : Int) := by
  unfold rankOfPower at h
  have hm : significand rank < 2 ^ 53 := significand_lt rank
  have he : exponent rank ≤ (a : Int) - 53 := by
    unfold exponent
    split <;> omega
  calc (significand rank : ℚ) * 2 ^ exponent rank
      < ((2 ^ 53 : Nat) : ℚ) * 2 ^ exponent rank :=
        mul_lt_mul_of_pos_right (by exact_mod_cast hm) (two_zpow_pos _)
    _ ≤ ((2 ^ 53 : Nat) : ℚ) * 2 ^ ((a : Int) - 53) := by
        gcongr
        exact one_le_two
    _ = 2 ^ (a : Int) := by
        rw [Nat.cast_pow, Nat.cast_ofNat, ← zpow_natCast, ← zpow_add₀ two_ne_zero]
        congr 1
        push_cast
        omega

/-! ## Numbers between powers of two -/

/-- A number has a sign, and the magnitude of `2 ^ a` or a greater one. -/
def AtLeast (negative : Bool) (a : Nat) : Binary64 → Prop
  | .nan => False
  | .signed s rank _ => s = negative ∧ rankOfPower a ≤ rank

/-- The magnitude of a number is less than that of `2 ^ a`. -/
def Below (a : Nat) : Binary64 → Prop
  | .nan => False
  | .signed _ rank _ => rank < rankOfPower a

theorem rankOfPower_le_infinityRank {a : Nat} (h : a ≤ 1024) : rankOfPower a ≤ infinityRank :=
  Nat.mul_le_mul_right (2 ^ 52) (Nat.add_le_add_right h 1023)

theorem rankOfPower_lt {a b : Nat} (h : a < b) : rankOfPower a < rankOfPower b :=
  Nat.mul_lt_mul_of_pos_right (Nat.add_lt_add_right h 1023) (Nat.two_pow_pos 52)

theorem rankOfPower_pos (a : Nat) : 0 < rankOfPower a :=
  Nat.mul_pos (Nat.succ_pos _) (Nat.two_pow_pos 52)

theorem Below.isInfinite_eq_false {a : Nat} {x : Binary64} (h : x.Below a) (ha : a ≤ 1024) :
    x.isInfinite = false := by
  cases x with
  | nan => exact h.elim
  | signed s r hr =>
      have hlt : r < infinityRank := Nat.lt_of_lt_of_le h (rankOfPower_le_infinityRank ha)
      exact beq_false_of_ne hlt.ne

theorem isFinite_of_isInfinite_eq_false {x : Binary64} (h : x.isInfinite = false)
    (hnan : x ≠ .nan) : x.isFinite = true := by
  cases x with
  | nan => exact absurd rfl hnan
  | signed s r hr =>
      have hne : r ≠ infinityRank := ne_of_beq_false h
      exact decide_eq_true (lt_of_le_of_ne hr hne)

theorem ofInt_natCast (n : Nat) : ofInt n = ofRatio false n 1 := by
  have hsign : decide ((n : Int) < 0) = false := decide_eq_false (by omega)
  rw [ofInt, hsign, Int.natAbs_natCast]

theorem atLeast_ofRatio {a num den : Nat} (negative : Bool) (ha : a ≤ 1024) (hden : den ≠ 0)
    (h : (2 : ℚ) ^ (a : Int) ≤ num / den) : (ofRatio negative num den).AtLeast negative a :=
  ⟨rfl, le_min (rankOfPower_le_rankOfRatio hden h) (rankOfPower_le_infinityRank ha)⟩

theorem below_ofRatio {a num den : Nat} (negative : Bool) (hden : den ≠ 0)
    (h : (num : ℚ) / den < 2 ^ (a : Int)) : (ofRatio negative num den).Below (a + 1) :=
  (min_le_left _ _).trans_lt
    ((rankOfRatio_le_rankOfPower hden h).trans_lt (rankOfPower_lt (Nat.lt_succ_self a)))

theorem atLeast_ofNat {a n : Nat} (negative : Bool) (ha : a ≤ 1024) (h : 2 ^ a ≤ n) :
    (ofRatio negative n 1).AtLeast negative a := by
  refine atLeast_ofRatio negative ha Nat.one_ne_zero ?_
  rw [Nat.cast_one, div_one, zpow_natCast]
  exact_mod_cast h

theorem below_ofNat {a n : Nat} (negative : Bool) (h : n < 2 ^ a) :
    (ofRatio negative n 1).Below (a + 1) := by
  refine below_ofRatio negative Nat.one_ne_zero ?_
  rw [Nat.cast_one, div_one, zpow_natCast]
  exact_mod_cast h

/-! ## Products -/

theorem atLeast_ofDyadic {a m : Nat} {e : Int} (negative : Bool) (ha : a ≤ 1024)
    (h : (2 : ℚ) ^ (a : Int) ≤ m * 2 ^ e) : (ofDyadic negative m e).AtLeast negative a := by
  change (ofRatio negative (scaleTwo m e).1 (scaleTwo m e).2).AtLeast negative a
  exact atLeast_ofRatio negative ha (scaleTwo_den_pos m e).ne' (by rwa [scaleTwo_div])

theorem below_ofDyadic {a m : Nat} {e : Int} (negative : Bool)
    (h : (m * 2 ^ e : ℚ) < 2 ^ (a : Int)) : (ofDyadic negative m e).Below (a + 1) := by
  change (ofRatio negative (scaleTwo m e).1 (scaleTwo m e).2).Below (a + 1)
  exact below_ofRatio negative (scaleTwo_den_pos m e).ne' (by rwa [scaleTwo_div])

theorem magnitude_mul (r q : Nat) : magnitude r * magnitude q =
    (significand r * significand q : Nat) * 2 ^ (exponent r + exponent q) := by
  rw [zpow_add₀ two_ne_zero, Nat.cast_mul, magnitude, magnitude]
  ring

theorem magnitude_nonneg (rank : Nat) : 0 ≤ magnitude rank :=
  mul_nonneg (Nat.cast_nonneg _) (two_zpow_pos _).le

theorem two_zpow_add (a b : Nat) :
    (2 : ℚ) ^ ((a + b : Nat) : Int) = 2 ^ (a : Int) * 2 ^ (b : Int) := by
  rw [Nat.cast_add, zpow_add₀ two_ne_zero]

theorem mul_signed (s t : Bool) {r q : Nat} (hr : r ≤ infinityRank) (hq : q ≤ infinityRank) :
    (signed s r hr).mul (signed t q hq) =
      if r == infinityRank || q == infinityRank then
        if r == 0 || q == 0 then .nan else infinity (s != t)
      else ofDyadic (s != t) (significand r * significand q) (exponent r + exponent q) :=
  rfl

/-- A product is no less than the product of powers of two that are no greater than its factors. -/
theorem AtLeast.mul {x y : Binary64} {s t : Bool} {a b : Nat} (hx : x.AtLeast s a)
    (hy : y.AtLeast t b) (hab : a + b ≤ 1024) : (x.mul y).AtLeast (s != t) (a + b) := by
  cases x with
  | nan => exact hx.elim
  | signed _ r hr =>
      cases y with
      | nan => exact hy.elim
      | signed _ q hq =>
          obtain ⟨rfl, hxr⟩ := hx
          obtain ⟨rfl, hyq⟩ := hy
          have hr0 : (r == 0) = false := beq_false_of_ne ((rankOfPower_pos a).trans_le hxr).ne'
          have hq0 : (q == 0) = false := beq_false_of_ne ((rankOfPower_pos b).trans_le hyq).ne'
          have hinfinity := rankOfPower_le_infinityRank hab
          rw [mul_signed, hr0, hq0]
          split
          · exact ⟨rfl, le_min hinfinity hinfinity⟩
          · refine atLeast_ofDyadic _ hab ?_
            rw [← magnitude_mul, two_zpow_add]
            exact mul_le_mul (le_magnitude hxr) (le_magnitude hyq) (two_zpow_pos _).le
              (magnitude_nonneg r)

theorem AtLeast.ne_nan {x : Binary64} {s : Bool} {a : Nat} (hx : x.AtLeast s a) : x ≠ .nan := by
  rintro rfl
  exact hx.elim

theorem AtLeast.neg {x : Binary64} {s : Bool} {a : Nat} (hx : x.AtLeast s a) :
    x.neg.AtLeast (!s) a := by
  cases x with
  | nan => exact hx.elim
  | signed => exact ⟨congrArg Bool.not hx.1, hx.2⟩

theorem AtLeast.isZero_eq_false {x : Binary64} {s : Bool} {a : Nat} (hx : x.AtLeast s a) :
    x.isZero = false := by
  cases x with
  | nan => rfl
  | signed _ r _ => exact beq_false_of_ne ((rankOfPower_pos a).trans_le hx.2).ne'

/-- A product is less than twice the product of powers of two that are greater than its factors. -/
theorem Below.mul {x y : Binary64} {a b : Nat} (hx : x.Below a) (hy : y.Below b) (ha : a ≤ 1024)
    (hb : b ≤ 1024) : (x.mul y).Below (a + b + 1) := by
  have hxfinite := hx.isInfinite_eq_false ha
  have hyfinite := hy.isInfinite_eq_false hb
  cases x with
  | nan => exact hx.elim
  | signed s r hr =>
      cases y with
      | nan => exact hy.elim
      | signed t q hq =>
          have hneither : ¬(r == infinityRank || q == infinityRank) = true := by
            rw [show (r == infinityRank) = false from hxfinite,
              show (q == infinityRank) = false from hyfinite]
            exact Bool.false_ne_true
          rw [mul_signed, if_neg hneither]
          refine below_ofDyadic _ ?_
          rw [← magnitude_mul, two_zpow_add]
          exact mul_lt_mul'' (magnitude_lt hx) (magnitude_lt hy) (magnitude_nonneg r)
            (magnitude_nonneg q)

/-! ## Large numbers as integers -/

/-- From `2 ^ 52` on, magnitudes are whole numbers. -/
theorem scaleTwo_of_large {rank a : Nat} (ha : 52 ≤ a) (h : rankOfPower a ≤ rank) :
    ∃ n, scaleTwo (significand rank) (exponent rank) = (n, 1) ∧ 2 ^ a ≤ n := by
  obtain ⟨-, he⟩ := le_exponent h
  have hnonneg : 0 ≤ exponent rank := by omega
  refine ⟨_, if_pos hnonneg, ?_⟩
  have hvalue := le_magnitude h
  rw [magnitude, ← Int.toNat_of_nonneg hnonneg, zpow_natCast, zpow_natCast] at hvalue
  exact_mod_cast hvalue

theorem AtLeast.isWhole {x : Binary64} {s : Bool} {a : Nat} (hx : x.AtLeast s a) (ha : 52 ≤ a)
    (hfinite : x.isFinite = true) : x.isWhole = true := by
  cases x with
  | nan => exact hx.elim
  | signed _ r hr =>
      obtain ⟨n, hn, -⟩ := scaleTwo_of_large ha hx.2
      have hlt : r < infinityRank := of_decide_eq_true hfinite
      simp [Binary64.isWhole, hn, hlt, Nat.mod_one]

theorem AtLeast.truncate_eq {x : Binary64} {s : Bool} {a : Nat} (hx : x.AtLeast s a)
    (ha : 52 ≤ a) :
    ∃ n : Nat, x.truncate = (if s then -(n : Int) else n) ∧ 2 ^ a ≤ n := by
  cases x with
  | nan => exact hx.elim
  | signed _ r hr =>
      obtain ⟨rfl, hr⟩ := hx
      obtain ⟨n, hn, hle⟩ := scaleTwo_of_large ha hr
      exact ⟨n, by simp [truncate, hn], hle⟩

/-- A number beyond 64 bits gives the end of the range that is next to it. -/
theorem AtLeast.toInt64_eq {x : Binary64} {s : Bool} (hx : x.AtLeast s 63) :
    x.toInt64 = if s then Int64.minValue else Int64.maxValue := by
  obtain ⟨n, hn, hle⟩ := hx.truncate_eq (by decide)
  have hle' : (2 : Int) ^ 63 ≤ n := by exact_mod_cast hle
  have hmin : Int64.minValue.toInt = -2 ^ 63 := rfl
  have hmax : Int64.maxValue.toInt = 2 ^ 63 - 1 := rfl
  cases x with
  | nan => exact hx.elim
  | signed =>
      unfold toInt64
      dsimp only
      rw [hn, hmin, hmax]
      cases s with
      | false =>
          have hnotBelow : ¬(n : Int) < -2 ^ 63 := by omega
          have habove : (2 : Int) ^ 63 - 1 < n := by omega
          simp only [Bool.false_eq_true, if_false, if_neg hnotBelow, if_pos habove]
      | true =>
          simp only [if_true]
          split
          · rfl
          · next hnotBelow =>
            have heq : -(n : Int) = -2 ^ 63 := by omega
            rw [heq]
            rfl

end RecordApi.Binary64
