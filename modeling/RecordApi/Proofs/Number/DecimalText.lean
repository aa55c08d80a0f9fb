import RecordApi.Number.Decimal
import RecordApi.Proofs.Text.Digits

/-!
# Decimals that are read again

The text of a decimal has the digits of its number of units, as many as its scale behind the point,
and they are read again one by one. No number that is met on the way is greater than the units, so
none of them outgrows the range, and no digit is rounded off. What is lost is the sign of a zero
(`Decimal.ofText?_write`), which makes no difference to the order.
-/

namespace RecordApi.Decimal

open Text

theorem le_ofDigitChars (digits : List Char) (n : Nat) : n ≤ Nat.ofDigitChars 10 digits n := by
  induction digits generalizing n with
  | nil => exact Nat.le_refl n
  | cons c digits ih =>
      rw [Nat.ofDigitChars_cons]
      exact Nat.le_trans (by omega) (ih _)

/-! ## Scanning digits -/

/-- A digit that fits is read. -/
theorem Scan.run?_cons {negative : Bool} {s : Scan} {c : Char} (hc : isDigit c = true)
    (hfits : 10 * s.units + (c.toNat - '0'.toNat) < 2 ^ 96)
    (hscale : s.point = true → s.scale < 28) (rest : List Char) :
    s.run? negative (c :: rest) = Scan.run? negative
      ⟨10 * s.units + (c.toNat - '0'.toNat), if s.point then s.scale + 1 else 0, s.point, true⟩
      rest := by
  have hunits : s.units * 10 + ofDigits [c] = 10 * s.units + (c.toNat - '0'.toNat) := by
    simp [ofDigits, Nat.ofDigitChars_cons, Nat.mul_comm]
  have hroom : (s.point && s.scale == 28) = false := by
    cases hpoint : s.point with
    | false => rfl
    | true => simpa using Nat.ne_of_lt (hscale hpoint)
  rw [Scan.run?, hroom]
  simp only [hunits, hc, if_pos hfits]
  rfl

/-- Digits in front of the point are read. -/
theorem Scan.run?_whole {negative : Bool} {digits : List Char} (hne : digits ≠ [])
    (hall : ∀ c ∈ digits, isDigit c = true) {n : Nat}
    (hfits : Nat.ofDigitChars 10 digits n < 2 ^ 96) (digit : Bool) (rest : List Char) :
    Scan.run? negative ⟨n, 0, false, digit⟩ (digits ++ rest) =
      Scan.run? negative ⟨Nat.ofDigitChars 10 digits n, 0, false, true⟩ rest := by
  induction digits generalizing n digit with
  | nil => exact absurd rfl hne
  | cons c digits ih =>
      rw [Nat.ofDigitChars_cons] at hfits ⊢
      rw [List.cons_append, Scan.run?_cons (hall c List.mem_cons_self)
        (Nat.lt_of_le_of_lt (le_ofDigitChars _ _) hfits) fun h => by cases h]
      cases digits with
      | nil => rfl
      | cons d digits =>
          exact ih (List.cons_ne_nil d digits) (fun c hc => hall c (List.mem_cons_of_mem _ hc))
            hfits true

/-- Digits behind the point are read, as long as there are no more than 28. -/
theorem Scan.run?_fraction {negative : Bool} {digits : List Char}
    (hall : ∀ c ∈ digits, isDigit c = true) {n scale : Nat}
    (hfits : Nat.ofDigitChars 10 digits n < 2 ^ 96) (hscale : scale + digits.length ≤ 28) :
    Scan.run? negative ⟨n, scale, true, true⟩ digits =
      ofParts? (negative && Nat.ofDigitChars 10 digits n != 0) (Nat.ofDigitChars 10 digits n)
        (scale + digits.length) := by
  induction digits generalizing n scale with
  | nil => rfl
  | cons c digits ih =>
      rw [List.length_cons] at hscale ⊢
      rw [Nat.ofDigitChars_cons] at hfits ⊢
      rw [Scan.run?_cons (hall c List.mem_cons_self)
        (Nat.lt_of_le_of_lt (le_ofDigitChars _ _) hfits) fun _ => by change scale < 28; omega]
      have hnext : scale + (digits.length + 1) = scale + 1 + digits.length := by omega
      rw [hnext] at hscale ⊢
      exact ih (fun c hc => hall c (List.mem_cons_of_mem _ hc)) hfits hscale

/-- Digits are read with a point behind the whole ones, or without a point. -/
theorem Scan.run?_digits {negative : Bool} {whole fraction : List Char} (hne : whole ≠ [])
    (hall : ∀ c ∈ whole ++ fraction, isDigit c = true)
    (hfits : ofDigits (whole ++ fraction) < 2 ^ 96)
    (hscale : fraction.length ≤ 28) :
    Scan.run? negative ⟨0, 0, false, false⟩
        (if fraction.length = 0 then whole else whole ++ ['.'] ++ fraction) =
      ofParts? (negative && ofDigits (whole ++ fraction) != 0) (ofDigits (whole ++ fraction))
        fraction.length := by
  have hsplit : ofDigits (whole ++ fraction) =
      Nat.ofDigitChars 10 fraction (Nat.ofDigitChars 10 whole 0) := Nat.ofDigitChars_append 0
  have hwhole : ∀ c ∈ whole, isDigit c = true := fun c hc => hall c (List.mem_append_left _ hc)
  have hfraction : ∀ c ∈ fraction, isDigit c = true :=
    fun c hc => hall c (List.mem_append_right _ hc)
  have hpoint : ∀ n rest, Scan.run? negative ⟨n, 0, false, true⟩ ('.' :: rest) =
      Scan.run? negative ⟨n, 0, true, true⟩ rest := fun n rest => by simp [Scan.run?, isDigit]
  rw [hsplit] at hfits ⊢
  have hfits₁ := Nat.lt_of_le_of_lt (le_ofDigitChars _ _) hfits
  split
  · next hlength =>
    have hrun := @Scan.run?_whole negative whole hne hwhole 0 hfits₁ false []
    obtain rfl : fraction = [] := List.length_eq_zero_iff.1 hlength
    rw [List.append_nil] at hrun
    exact hrun
  · rw [List.append_assoc, Scan.run?_whole hne hwhole hfits₁, List.singleton_append, hpoint,
      Scan.run?_fraction hfraction hfits (by omega), Nat.zero_add]

/-! ## Written decimals -/

/-- What is written of a decimal without its sign. -/
def writeBody (d : Decimal) : List Char :=
  let digits := padded (d.scale + 1) d.units
  let whole := digits.take (digits.length - d.scale)
  let fraction := digits.drop (digits.length - d.scale)
  if d.scale = 0 then whole else whole ++ ['.'] ++ fraction

theorem toList_write (d : Decimal) :
    d.write.toList = if d.negative then '-' :: d.writeBody else d.writeBody := by
  rw [write, String.toList_ofList]
  rfl

theorem of_mem_writeBody {d : Decimal} {c : Char} (h : c ∈ d.writeBody) :
    isDigit c = true ∨ c = '.' := by
  have htake : ∀ n, c ∈ (padded (d.scale + 1) d.units).take n → isDigit c = true :=
    fun _ h => isDigit_of_mem_padded (List.mem_of_mem_take h)
  have hdrop : ∀ n, c ∈ (padded (d.scale + 1) d.units).drop n → isDigit c = true :=
    fun _ h => isDigit_of_mem_padded (List.mem_of_mem_drop h)
  unfold writeBody at h
  split at h
  · exact .inl (htake _ h)
  · rcases List.mem_append.1 h with h | h
    · exact (List.mem_append.1 h).imp (htake _) List.mem_singleton.1
    · exact .inl (hdrop _ h)

/-- The characters of a written decimal are digits, the point and the minus sign. -/
theorem of_mem_write {d : Decimal} {c : Char} (h : c ∈ d.write.toList) :
    isDigit c = true ∨ c = '.' ∨ c = '-' := by
  rw [toList_write] at h
  split at h
  · rcases List.mem_cons.1 h with rfl | h
    · exact .inr (.inr rfl)
    · exact (of_mem_writeBody h).imp_right .inl
  · exact (of_mem_writeBody h).imp_right .inl

theorem isBlank_of_mem_write {d : Decimal} {c : Char} (h : c ∈ d.write.toList) :
    isBlank c = false := by
  rcases of_mem_write h with h | rfl | rfl
  · exact isBlank_of_isDigit h
  · decide
  · decide

theorem run?_writeBody (d : Decimal) (negative : Bool) :
    Scan.run? negative ⟨0, 0, false, false⟩ d.writeBody =
      ofParts? (negative && d.units != 0) d.units d.scale := by
  generalize hdigits : padded (d.scale + 1) d.units = digits
  have hlength : d.scale < digits.length := by
    rw [← hdigits]
    simp [padded]
    omega
  have hfraction : (digits.drop (digits.length - d.scale)).length = d.scale := by
    rw [List.length_drop]
    omega
  have hwhole : digits.take (digits.length - d.scale) ≠ [] := by
    intro h
    have := congrArg List.length h
    rw [List.length_take, List.length_nil] at this
    omega
  have hjoin := List.take_append_drop (digits.length - d.scale) digits
  have hunits : ofDigits digits = d.units := hdigits ▸ ofDigits_padded _ _
  have hrun := @Scan.run?_digits negative _ _ hwhole
    (by rw [hjoin, ← hdigits]; exact fun _ => isDigit_of_mem_padded)
    (by rw [hjoin, hunits]; exact d.units_lt) (by rw [hfraction]; exact d.scale_le)
  rw [hjoin, hunits, hfraction] at hrun
  rw [writeBody, hdigits]
  exact hrun

/-- The decimal, but zero without a sign. -/
def dropZeroSign (d : Decimal) : Decimal :=
  { d with negative := d.negative && d.units != 0 }

theorem value_dropZeroSign (d : Decimal) : d.dropZeroSign.value = d.value := by
  by_cases h : d.units = 0
  · simp [dropZeroSign, value, h]
  · have hkept : (d.units != 0) = true := by simpa using h
    simp [dropZeroSign, hkept]

/-- A written decimal is read again, only a zero loses its sign. -/
theorem ofText?_write (d : Decimal) : ofText? d.write.toList = some d.dropZeroSign := by
  have hparts : ofParts? (d.negative && d.units != 0) d.units d.scale = some d.dropZeroSign :=
    dif_pos ⟨d.units_lt, d.scale_le⟩
  -- none of the characters starts an exponent
  have hpower : (d.write.toList.dropWhile fun c => !(c == 'e' || c == 'E')) = [] := by
    rw [List.dropWhile_eq_nil_iff]
    intro c hc
    rcases of_mem_write hc with h | rfl | rfl
    · have he : c ≠ 'e' := by rintro rfl; exact absurd h (by decide)
      have hE : c ≠ 'E' := by rintro rfl; exact absurd h (by decide)
      simp [he, hE]
    · rfl
    · rfl
  simp only [ofText?, hpower]
  rw [toList_write, ← hparts, ← run?_writeBody]
  unfold ofPlainText?
  cases d.negative with
  | true => rfl
  | false =>
    rw [if_neg Bool.false_ne_true]
    -- the first character is a digit or the point
    split
    · next h => exact absurd (of_mem_writeBody (h ▸ List.mem_cons_self)) (by decide)
    · next h => exact absurd (of_mem_writeBody (h ▸ List.mem_cons_self)) (by decide)
    · rfl

end RecordApi.Decimal
