import RecordApi.Proofs.Json.WholeNumber
import RecordApi.Codec
import RecordApi.Proofs.Store.Written

/-!
# Integers that are stored

A whole number that a client sends is kept as it is where it fits 64 bits. Beyond them the reader or
the codec makes a double-precision number of it, and the column makes an integer of that again,
which is the greatest or the least one (`Codec.whole_number_saturates`).
-/

namespace RecordApi

/-- The 64-bit integer next to a whole number. -/
def nearestInt64 (n : Int) : Int64 :=
  if n < -2 ^ 63 then Int64.minValue else if 2 ^ 63 ≤ n then Int64.maxValue else Int64.ofInt n

namespace Value

theorem fitsInt64_iff {n : Int} : fitsInt64 n = true ↔ -2 ^ 63 ≤ n ∧ n < 2 ^ 63 := by
  simp [fitsInt64]

theorem nearestInt64_of_fits {n : Int} (h : fitsInt64 n = true) :
    nearestInt64 n = Int64.ofInt n := by
  obtain ⟨hl, hu⟩ := fitsInt64_iff.1 h
  rw [nearestInt64, if_neg (by omega), if_neg (by omega)]

/-- The integer is the number itself exactly if that fits 64 bits. -/
theorem toInt_nearestInt64_iff {n : Int} : (nearestInt64 n).toInt = n ↔ fitsInt64 n = true := by
  constructor
  · intro h
    have hl : -2 ^ 63 ≤ (nearestInt64 n).toInt := (nearestInt64 n).le_toInt
    have hu : (nearestInt64 n).toInt < 2 ^ 63 := (nearestInt64 n).toInt_lt
    rw [fitsInt64_iff, ← h]
    exact ⟨hl, hu⟩
  · intro h
    rw [nearestInt64_of_fits h]
    obtain ⟨hl, hu⟩ := fitsInt64_iff.1 h
    exact Int64.toInt_ofInt_of_le hl hu

/-- What an integer column makes of a JSON value. -/
def stored (j : Json) : Except CoerceError Value :=
  (ofJson j).coerce .integer

theorem stored_int_of_fits {n : Int} (h : fitsInt64 n = true) :
    stored (.int n) = .ok (.int (nearestInt64 n)) := by
  rw [nearestInt64_of_fits h, stored, ofJson, if_pos h]
  rfl

theorem coerce_float_of_isWhole {x : Binary64} (h : x.isWhole = true) :
    (Value.float x).coerce .integer = .ok (.int x.toInt64) :=
  if_pos h

/-- A number that is no less than `2 ^ 63` becomes the end of the range. -/
theorem coerce_float_of_atLeast {x : Binary64} {negative : Bool} (hx : x.AtLeast negative 63)
    (hfinite : x.isFinite = true) :
    (Value.float x).coerce .integer =
      .ok (.int (if negative then Int64.minValue else Int64.maxValue)) := by
  rw [← hx.toInt64_eq]
  exact coerce_float_of_isWhole (hx.isWhole (by decide) hfinite)

end Value

namespace Json

theorem nearestInt64_wholeValue {negative : Bool} {k : Nat} (h : 2 ^ 63 ≤ k) :
    nearestInt64 (wholeValue negative k) =
      if negative then Int64.minValue else Int64.maxValue := by
  have hk : (2 : Int) ^ 63 ≤ k := by exact_mod_cast h
  cases negative with
  | false =>
      change nearestInt64 k = Int64.maxValue
      rw [nearestInt64, if_neg (by omega), if_pos hk]
  | true =>
      change nearestInt64 (-(k : Int)) = Int64.minValue
      by_cases hlt : -(k : Int) < -2 ^ 63
      · rw [nearestInt64, if_pos hlt]
      · have heq : -(k : Int) = -2 ^ 63 := by omega
        rw [heq]
        rfl

/-- Digits that passed over others are stored as the end of the range. -/
theorem stored_of_ofScientific? {negative : Bool} {n p a b k : Nat} {j : Json} (hn : 2 ^ a ≤ n)
    (hp : 2 ^ b ≤ 10 ^ p) (hab : a + b = 63) (hk : 2 ^ 63 ≤ k)
    (h : ofScientific? negative n p = some j) :
    Value.stored j = .ok (.int (nearestInt64 (wholeValue negative k))) := by
  obtain ⟨y, rfl, hy⟩ := ofScientific?_eq_some hn hp (by omega) h
  rw [nearestInt64_wholeValue hk]
  exact Value.coerce_float_of_atLeast (hab ▸ hy) y.property

/-- A number of a word is stored as it is, or as the greatest integer. -/
theorem stored_natCast {k : Nat} (h : k < wordBound) :
    Value.stored (.int k) = .ok (.int (nearestInt64 k)) := by
  by_cases hfits : Value.fitsInt64 k = true
  · exact Value.stored_int_of_fits hfits
  · have hk : 2 ^ 63 ≤ k := by
      rw [Value.fitsInt64_iff] at hfits
      omega
    have hx : (Binary64.ofInt k).AtLeast false 63 := by
      rw [Binary64.ofInt_natCast]
      exact Binary64.atLeast_ofNat false (by decide) hk
    have hfinite : (Binary64.ofInt k).isInfinite = false := by
      rw [Binary64.ofInt_natCast]
      exact (Binary64.below_ofNat (a := 64) false h).isInfinite_eq_false (by decide)
    rw [Value.stored, Value.ofJson, if_neg hfits, Value.coerce_float_of_atLeast hx
      (Binary64.isFinite_of_isInfinite_eq_false hfinite hx.ne_nan)]
    exact congrArg (fun i => Except.ok (Value.int i))
      (@nearestInt64_wholeValue false k hk).symm

/-- Zero with a sign is a number, and is stored as zero. -/
theorem ofScientific?_negative_zero :
    ∃ j, ofScientific? true 0 0 = some j ∧ Value.stored j = .ok (.int 0) := by
  have hscaled : scaleByTen? 5 (.ofInt (0 : Nat)) 0 = some (.zero false) := by decide +kernel
  have hwhole : (Binary64.zero false).neg.isWhole = true := by decide +kernel
  have hzero : (Binary64.zero false).neg.toInt64 = 0 := by decide +kernel
  refine ⟨.float ⟨(Binary64.zero false).neg, rfl⟩, ?_, ?_⟩
  · rw [ofScientific?, hscaled]
    rfl
  · exact (Value.coerce_float_of_isWhole hwhole).trans (by rw [hzero])

/-- What is read of a whole number is stored as the integer next to it. -/
theorem ReadsWhole.stored {negative : Bool} {k : Nat} {read : Option Json} {j : Json}
    (h : ReadsWhole negative k read) (hj : read = some j) :
    Value.stored j = .ok (.int (nearestInt64 (wholeValue negative k))) := by
  cases h with
  | kept least word =>
      obtain rfl := Option.some.inj hj
      cases negative with
      | false => exact stored_natCast word
      | true =>
          refine Value.stored_int_of_fits (Value.fitsInt64_iff.2 ⟨least, ?_⟩)
          change -(k : Int) < 2 ^ 63
          omega
  | negativeZero sign zero =>
      subst sign zero
      obtain ⟨j', hj', hstored⟩ := ofScientific?_negative_zero
      obtain rfl := Option.some.inj (hj.symm.trans hj')
      exact hstored
  | @beyond n passed a b scanned digits power bits =>
      have hk : 2 ^ 63 ≤ k := by
        rw [← bits, Nat.pow_add]
        exact (Nat.mul_le_mul digits power).trans scanned.le
      exact stored_of_ofScientific? digits power bits hk hj

/-- A whole number of at most 250 digits is read. -/
theorem ReadsWhole.exists_eq_some {negative : Bool} {k : Nat} {read : Option Json}
    (h : ReadsWhole negative k read) (hk : k < 10 ^ 250) : ∃ j, read = some j := by
  cases h with
  | kept => exact ⟨_, rfl⟩
  | negativeZero =>
      obtain ⟨j, hj, -⟩ := ofScientific?_negative_zero
      exact ⟨j, hj⟩
  | @beyond n passed a b scanned digits power bits =>
      have hpos : 0 < n := (Nat.two_pow_pos a).trans_le digits
      have hdigits : 10 ^ passed < 10 ^ 250 :=
        (Nat.le_mul_of_pos_left _ hpos).trans_lt (scanned.le.trans_lt hk)
      have hpassed : passed < 250 := (Nat.pow_lt_pow_iff_right (by decide)).1 hdigits
      have hten : 10 ^ passed < 2 ^ (10 * 84) := by
        calc 10 ^ passed ≤ 10 ^ (3 * 84) := Nat.pow_le_pow_right (by decide) (by omega)
          _ = (10 ^ 3) ^ 84 := Nat.pow_mul 10 3 84
          _ < (2 ^ 10) ^ 84 := Nat.pow_lt_pow_left (by decide) (by decide)
          _ = 2 ^ (10 * 84) := (Nat.pow_mul 2 10 84).symm
      exact exists_ofScientific? negative hpos scanned.lt hten (by omega) (by decide)

end Json

/-! ## Columns -/

/-- Where no plugin answers, an integer column is given what is made of a value of which nothing is
known. -/
theorem Codec.deserialize_integer {codec : Codec} {name : String} {c : Column}
    (hsilent : ∀ plugin ∈ codec.plugins, ∀ j, plugin.deserialize name c j = none)
    (ht : c.type = .integer) (axes : AxisNames) (j : Json) :
    codec.deserialize axes name c j = .ok (.ofJson j) := by
  have hnone : (codec.plugins.findSome? fun plugin => plugin.deserialize name c j) = none :=
    List.findSome?_eq_none_iff.2 fun plugin hplugin => hsilent plugin hplugin j
  rw [deserialize, hnone, ht]
  cases j <;> rfl

/-- What is read of the text of a whole number, and is sent for an integer column, is stored as the
64-bit integer next to the number. It is read if it has at most 250 digits, and the integer is
another one than the number exactly if the number does not fit 64 bits. -/
theorem Codec.whole_number_saturates {codec : Codec} {name : String} {c : Column}
    (hsilent : ∀ plugin ∈ codec.plugins, ∀ j, plugin.deserialize name c j = none)
    (ht : c.type = .integer) (axes : AxisNames) (negative : Bool) (k : Nat) {rest : List Char}
    (hrest : Json.EndsNumber rest) :
    (∀ j s, Json.number? (Json.wholeLiteral negative k ++ rest) = some (j, s) → s = rest ∧
      ∃ v, codec.deserialize axes name c j = .ok v ∧
        v.coerce c.type = .ok (.int (nearestInt64 (Json.wholeValue negative k))) ∧
        ∀ (m : Model) (column : String) (values given : Record), m.column? column = some c →
          values.get? column = some v → m.normalize values = .ok given →
            given.get? column = some (.int (nearestInt64 (Json.wholeValue negative k)))) ∧
    (k < 10 ^ 250 → ∃ j, Json.number? (Json.wholeLiteral negative k ++ rest) = some (j, rest)) ∧
    ((nearestInt64 (Json.wholeValue negative k)).toInt = Json.wholeValue negative k ↔
      Value.fitsInt64 (Json.wholeValue negative k) = true) := by
  obtain ⟨read, hwhole, hread⟩ := Json.exists_readsWhole negative k hrest
  rw [hread]
  refine ⟨?_, fun hk => ?_, Value.toInt_nearestInt64_iff⟩
  · intro j s h
    obtain ⟨j', hj, heq⟩ := Option.map_eq_some_iff.1 h
    cases heq
    have hcoerce : (Value.ofJson j).coerce c.type =
        .ok (.int (nearestInt64 (Json.wholeValue negative k))) := ht ▸ hwhole.stored hj
    refine ⟨rfl, _, deserialize_integer hsilent ht axes j, hcoerce, ?_⟩
    intro m column values given hc hv hgiven
    obtain ⟨w, hw, hget⟩ := Model.exists_of_normalize hgiven hc hv
    rw [hget, Except.ok.inj (hw.symm.trans hcoerce)]
  · obtain ⟨j, hj⟩ := hwhole.exists_eq_some hk
    exact ⟨j, by rw [hj]; rfl⟩

/-- A column of integers. -/
def Column.amount : Column :=
  ⟨"amount", .integer, "integer", true, false, false⟩

/-- The first number beyond 64 bits is read, and stored as the one before it. -/
theorem Codec.whole_number_saturates_amount : ∃ j v,
    Json.number? "9223372036854775808,".toList = some (j, [',']) ∧
      Codec.standard.deserialize [] "amount" .amount j = .ok v ∧
      v.coerce Column.amount.type = .ok (.int 9223372036854775807) := by
  have hends : Json.EndsNumber [','] := by
    rintro c ⟨⟩
    decide
  obtain ⟨hstored, hread, -⟩ := @whole_number_saturates standard "amount" .amount
    (fun _ hplugin => absurd hplugin List.not_mem_nil) rfl [] false (2 ^ 63) _ hends
  obtain ⟨j, hj⟩ := hread (by decide)
  obtain ⟨-, v, hv, hcoerce, -⟩ := hstored j _ hj
  exact ⟨j, v, hj, hv, hcoerce⟩

end RecordApi
