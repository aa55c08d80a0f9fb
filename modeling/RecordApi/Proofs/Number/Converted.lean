import RecordApi.Proofs.Number.Rounding
import RecordApi.Number.Decimal

/-!
# Numbers that are converted

A whole number is a decimal of its value (`Decimal.value_ofInt64`), and no whole number and no
decimal becomes `nan` as a double-precision number (`Binary64.ofInt_ne_nan`,
`Decimal.toBinary64_ne_nan`): it is compared with every double-precision number but `nan`.
-/

namespace RecordApi

namespace Binary64

theorem ofRatio_ne_nan (negative : Bool) (num den : Nat) : ofRatio negative num den ≠ .nan :=
  nofun

theorem ofInt_ne_nan (n : Int) : ofInt n ≠ .nan :=
  nofun

theorem neg_ne_nan {x : Binary64} (h : x ≠ .nan) : x.neg ≠ .nan := by
  cases x with
  | nan => exact absurd rfl h
  | signed => exact nofun

/-- A number is neither zero nor infinite, nor `nan`. -/
def Regular : Binary64 → Prop
  | .nan => False
  | .signed _ rank _ => 0 < rank ∧ rank < infinityRank

/-- The powers of ten that decimals have are regular. -/
theorem regular_tenPow {scale : Nat} (h : scale ≤ 28) :
    (ofRatio false (10 ^ scale) 1).Regular := by
  have hlt : 10 ^ scale < 2 ^ 94 :=
    (Nat.pow_le_pow_right (by decide) h).trans_lt (by decide : 10 ^ 28 < 2 ^ 94)
  have hbelow : (ofRatio false (10 ^ scale) 1).Below 95 := below_ofNat false hlt
  have hatLeast : (ofRatio false (10 ^ scale) 1).AtLeast false 0 :=
    atLeast_ofNat false (by decide) (Nat.one_le_pow scale 10 (by decide))
  exact ⟨(rankOfPower_pos 0).trans_le hatLeast.2,
    lt_of_lt_of_le hbelow (rankOfPower_le_infinityRank (by decide))⟩

theorem Regular.exists_signed {y : Binary64} (h : y.Regular) : ∃ negative rank hrank,
    y = .signed negative rank hrank ∧ (rank == 0) = false ∧ (rank == infinityRank) = false := by
  cases y with
  | nan => exact h.elim
  | signed negative rank hrank =>
      obtain ⟨hpos, hlt⟩ := h
      exact ⟨negative, rank, hrank, rfl, beq_false_of_ne hpos.ne', beq_false_of_ne hlt.ne⟩

theorem Regular.mul_ne_nan {x y : Binary64} (hy : y.Regular) (hx : x ≠ .nan) :
    x.mul y ≠ .nan := by
  obtain ⟨t, q, hq, rfl, hzero, hinfinite⟩ := hy.exists_signed
  cases x with
  | nan => exact absurd rfl hx
  | signed s r hr =>
      rw [mul_signed, hzero, hinfinite]
      split
      · split
        · next hr0 hboth =>
          simp only [Bool.or_false, beq_iff_eq] at hr0 hboth
          exact absurd (hr0.symm.trans hboth) (by decide)
        · exact nofun
      · exact nofun

theorem Regular.div_ne_nan {x y : Binary64} (hy : y.Regular) (hx : x ≠ .nan) :
    x.div y ≠ .nan := by
  obtain ⟨t, q, hq, rfl, hzero, hinfinite⟩ := hy.exists_signed
  cases x with
  | nan => exact absurd rfl hx
  | signed s r hr =>
      unfold div
      dsimp only
      rw [hzero, hinfinite]
      split
      · exact nofun
      · exact nofun

end Binary64

namespace Decimal

theorem value_ofInt64 (n : Int64) : (ofInt64 n).value = n.toInt * 10 ^ 28 := by
  have hunits : ((n.toInt.natAbs * 10 ^ (28 - 0) : Nat) : Int) =
      (n.toInt.natAbs : Int) * 10 ^ 28 := by
    rw [Int.natCast_mul, Int.natCast_pow, Int.cast_ofNat_Int]
  simp only [value, ofInt64, decide_eq_true_eq, hunits]
  split
  · rw [← Int.neg_mul, Int.ofNat_natAbs_of_nonpos (by omega), Int.neg_neg]
  · rw [Int.natAbs_of_nonneg (by omega)]

theorem toBinary64_ne_nan (d : Decimal) : d.toBinary64 ≠ .nan := by
  have hsigned : ∀ {x : Binary64}, x ≠ .nan → (if d.negative then x.neg else x) ≠ .nan := by
    intro x hx
    split
    · exact Binary64.neg_ne_nan hx
    · exact hx
  have htens := Binary64.regular_tenPow d.scale_le
  unfold toBinary64
  dsimp only
  split
  · exact Binary64.ofInt_ne_nan _
  · have hfraction := htens.div_ne_nan
      (Binary64.ofRatio_ne_nan false (d.units % 10 ^ d.scale) 1)
    split
    · next w _ _ f _ _ _ =>
      split
      · exact hsigned nofun
      · have hproduct := htens.mul_ne_nan (show Binary64.addMagnitudes w f ≠ .nan from nofun)
        split
        · exact hsigned (htens.div_ne_nan (Binary64.ofRatio_ne_nan _ _ _))
        · next heq => exact absurd heq hproduct
    · next hnone =>
      cases hf : (Binary64.ofRatio false (d.units % 10 ^ d.scale) 1).div
          (Binary64.ofRatio false (10 ^ d.scale) 1) with
      | nan => exact absurd hf hfraction
      | signed => exact absurd hf (hnone _ _ _ _ _ _ rfl)

end Decimal

end RecordApi
