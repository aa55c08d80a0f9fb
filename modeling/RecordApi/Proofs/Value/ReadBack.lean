import Mathlib.Tactic.IntervalCases
import RecordApi.Codec
import RecordApi.Proofs.Text.Digits
import RecordApi.Proofs.Value.Ordered

/-!
# Values that are read back

Dates, dates with times in whole seconds, and identifiers are read again from the texts that the
codec writes for them. So a client that sends back the wire form of a stored value makes a column of
one of the types in `ColumnType.ReadsBack` hold the value again (`Codec.reads_back`).
-/

namespace RecordApi

/-! ## Dates and times -/

namespace Calendar

open Text

/-- Digits are read up to a width, or up to something else. -/
theorem digits?_append {width : Nat} {digits rest : List Char} (hne : digits ≠ [])
    (hall : ∀ c ∈ digits, isDigit c = true) (hlength : digits.length ≤ width)
    (hstop : (rest.take (width - digits.length)).takeWhile isDigit = []) :
    digits? width (digits ++ rest) = some (ofDigits digits, rest) := by
  have htake : ((digits ++ rest).take width).takeWhile isDigit = digits := by
    rw [List.take_append, List.take_of_length_le hlength, List.takeWhile_append_of_pos hall,
      hstop, List.append_nil]
  unfold digits?
  simp only [htake, List.drop_left]
  simp [hne]

theorem digits?_padded {width n : Nat} (hwidth : 0 < width) (h : n < 10 ^ width)
    (rest : List Char) : digits? width (padded width n ++ rest) = some (n, rest) := by
  have hlength := length_padded hwidth h
  rw [digits?_append (padded_ne_nil width n) (fun _ => isDigit_of_mem_padded) hlength.le
    (by simp [hlength]), ofDigits_padded]

theorem number?_padded {width n : Nat} (hwidth : 0 < width) (h : n < 10 ^ width)
    (rest : List Char) : number? width (padded width n ++ rest) = some (n, rest) := by
  obtain ⟨c, digits, hdigits⟩ := List.exists_cons_of_ne_nil (padded_ne_nil width n)
  have hc : isDigit c = true := isDigit_of_mem_padded (hdigits ▸ List.mem_cons_self)
  have htrim : trimStart (padded width n ++ rest) = padded width n ++ rest := by
    rw [hdigits]
    exact trimStart_cons (isBlank_of_isDigit hc) _
  rw [number?, htrim, digits?_padded hwidth h]

theorem mark?_cons (c : Char) (rest : List Char) : mark? c (c :: rest) = some rest := by
  simp [mark?]

theorem year?_writeYear (year : Int) (rest : List Char) :
    year? (Date.writeYear year ++ '-' :: rest) = some (year, '-' :: rest) := by
  have hsigned : ∀ sign : Char, isBlank sign = false →
      trimStart (sign :: padded 4 year.natAbs ++ '-' :: rest) =
        sign :: (padded 4 year.natAbs ++ '-' :: rest) :=
    fun sign hsign => trimStart_cons hsign _
  have hdigits : digits? (padded 4 year.natAbs ++ '-' :: rest).length
      (padded 4 year.natAbs ++ '-' :: rest) = some (year.natAbs, '-' :: rest) := by
    rw [digits?_append (padded_ne_nil 4 _) (fun _ => isDigit_of_mem_padded)
      (by simp) (by simp [isDigit]), ofDigits_padded]
  unfold Date.writeYear
  split
  · next hyear =>
    obtain ⟨c, digits, hc⟩ := List.exists_cons_of_ne_nil (padded_ne_nil 4 year.natAbs)
    have hdigit : isDigit c = true := isDigit_of_mem_padded (hc ▸ List.mem_cons_self)
    have hread : digits? 4 (padded 4 year.natAbs ++ '-' :: rest) =
        some (year.natAbs, '-' :: rest) := digits?_padded (by decide) (by omega) _
    have habs : (year.natAbs : Int) = year := by omega
    rw [hc] at hread ⊢
    unfold year?
    rw [List.cons_append, trimStart_cons (isBlank_of_isDigit hdigit)]
    split
    · next heq => cases heq; exact absurd hdigit (by decide)
    · next heq => cases heq; exact absurd hdigit (by decide)
    · rw [← List.cons_append, hread]
      simp [habs]
  · next hyear =>
    unfold year?
    by_cases hneg : year < 0
    · rw [if_pos hneg, hsigned '-' (by decide)]
      have habs : -(year.natAbs : Int) = year := by omega
      exact (congrArg (Option.map _) hdigits).trans (by simp only [Option.map_some, habs])
    · rw [if_neg hneg, hsigned '+' (by decide)]
      have habs : (year.natAbs : Int) = year := by omega
      exact (congrArg (Option.map _) hdigits).trans (by simp only [Option.map_some, habs])

end Calendar

theorem daysInMonth_le (year : Int) (month : Nat) : daysInMonth year month ≤ 31 := by
  unfold daysInMonth
  repeat' split
  all_goals decide

theorem month_le_of_daysInMonth_pos {year : Int} {month : Nat} (h : 0 < daysInMonth year month) :
    month ≤ 12 := by
  unfold daysInMonth at h
  split at h <;> omega

open Calendar in
/-- A date that is written is read again, whatever follows it. -/
theorem Date.read?_writeChars (d : Date) (rest : List Char) :
    Date.read? (d.writeChars ++ rest) = some (d, rest) := by
  have hday : d.day < 10 ^ 2 := by
    have h := daysInMonth_le d.year d.month
    have := d.day_le
    omega
  have hmonth : d.month < 10 ^ 2 := by
    have h := month_le_of_daysInMonth_pos (Nat.lt_of_lt_of_le d.day_pos d.day_le)
    omega
  have hdate : Date.of? d.year d.month d.day = some d :=
    dif_pos ⟨d.year_ge, d.year_le, d.day_pos, d.day_le⟩
  unfold Date.read? writeChars
  simp only [List.append_assoc, List.cons_append]
  rw [year?_writeYear]
  simp [mark?_cons, number?_padded, hmonth, hday, hdate]

theorem Date.ofText?_writeChars (d : Date) : Date.ofText? d.writeChars = some d := by
  have h := d.read?_writeChars []
  rw [List.append_nil] at h
  simp [Date.ofText?, h]

open Calendar in
theorem Time.clock?_writeSeconds (t : Time) (rest : List Char) :
    clock? (t.writeSeconds ++ rest) = some ((t.hour, t.minute, t.second), rest) := by
  have hhour : t.hour < 10 ^ 2 := Nat.lt_trans t.hour_lt (by decide)
  have hminute : t.minute < 10 ^ 2 := Nat.lt_trans t.minute_lt (by decide)
  have hsecond : t.second < 10 ^ 2 := Nat.lt_of_le_of_lt t.second_le (by decide)
  unfold clock? writeSeconds
  simp only [List.append_assoc, List.cons_append]
  simp [mark?_cons, number?_padded, hhour, hminute, hsecond]

theorem Time.of?_self (t : Time) : Time.of? t.hour t.minute t.second t.nano = some t :=
  dif_pos ⟨t.hour_lt, t.minute_lt, t.second_le, t.nano_lt⟩

/-- A time that is written in seconds is read again, if it has no fraction of a second. -/
theorem Time.read?_writeSeconds {t : Time} (h : t.nano = 0) (rest : List Char) :
    Time.read? false (t.writeSeconds ++ rest) = some (t, rest) := by
  have htime := t.of?_self
  rw [h] at htime
  simp [Time.read?, t.clock?_writeSeconds, htime]

/-- A date with a time in whole seconds is read again from the wire form with a zone. -/
theorem DateTime.ofForm?_writeIn {d : DateTime} (h : d.time.nano = 0) :
    DateTime.ofForm? Codec.zonedForm (d.writeIn Codec.zonedForm).toList = some d := by
  unfold DateTime.ofForm? writeIn Codec.zonedForm separator?
  simp [Date.read?_writeChars, Calendar.mark?_cons, Time.read?_writeSeconds h]

/-! ## Identifiers -/

namespace Uuid

theorem hexDigit?_digitChar {n : Nat} (h : n < 16) :
    Text.hexDigit? (Nat.digitChar n) = some n := by
  interval_cases n <;> decide

theorem length_hexPadded (count n : Nat) : (hexPadded count n).length = count := by
  induction count generalizing n with
  | zero => rfl
  | succ count ih => simp [hexPadded, ih]

theorem hexNumber?_append (acc : Nat) (s rest : List Char) :
    hexNumber? acc (s ++ rest) = (hexNumber? acc s).bind fun n => hexNumber? n rest := by
  induction s generalizing acc with
  | nil => rfl
  | cons c s ih =>
      simp only [List.cons_append, hexNumber?, Option.bind_assoc]
      cases Text.hexDigit? c with
      | none => rfl
      | some d => simp [ih]

theorem hexNumber?_hexPadded (count n acc : Nat) :
    hexNumber? acc (hexPadded count n) = some (acc * 16 ^ count + n % 16 ^ count) := by
  induction count generalizing n with
  | zero => simp [hexPadded, hexNumber?, Nat.mod_one]
  | succ count ih =>
      have hlast : n % 16 < 16 := Nat.mod_lt n (by decide)
      have hsplit : n % 16 ^ (count + 1) = 16 * (n / 16 % 16 ^ count) + n % 16 := by
        rw [Nat.pow_succ', Nat.mod_mul, Nat.add_comm]
      rw [hexPadded, hexNumber?_append, ih, hsplit]
      simp only [Option.bind_some, hexNumber?, hexDigit?_digitChar hlast, Nat.pow_succ]
      rw [← Nat.mul_assoc]
      congr 1
      omega

theorem length_digits (u : Uuid) : u.digits.length = 32 :=
  length_hexPadded 32 u.value

theorem ofDigits?_digits (u : Uuid) : ofDigits? u.digits = some u := by
  have hvalue : u.value % 16 ^ 32 = u.value := Nat.mod_eq_of_lt u.value_lt
  unfold ofDigits?
  rw [if_pos u.length_digits, digits, hexNumber?_hexPadded, Nat.zero_mul, Nat.zero_add, hvalue]
  simp [u.value_lt]

theorem ofText?_digits (u : Uuid) : ofText? u.digits = some u := by
  unfold ofText?
  rw [if_pos u.length_digits, ofDigits?_digits]

theorem exists_digitChar_of_mem {count n : Nat} {c : Char} (h : c ∈ hexPadded count n) :
    ∃ k < 16, c = Nat.digitChar k := by
  induction count generalizing n with
  | zero => cases h
  | succ count ih =>
      rcases List.mem_append.1 h with h | h
      · exact ih h
      · exact ⟨_, Nat.mod_lt n (by decide), List.mem_singleton.1 h⟩

theorem isBlank_of_mem_digits {u : Uuid} {c : Char} (h : c ∈ u.digits) :
    Text.isBlank c = false := by
  have hdigit : ∀ k < 16, Text.isBlank (Nat.digitChar k) = false := by decide
  obtain ⟨k, hk, rfl⟩ := exists_digitChar_of_mem h
  exact hdigit k hk

end Uuid

/-! ## Columns -/

/-- The types of columns whose values are read back from their wire forms. -/
inductive ColumnType.ReadsBack : ColumnType → Prop
  | integer : ReadsBack .integer
  | boolean : ReadsBack .boolean
  | string : ReadsBack .string
  | date : ReadsBack .date
  | uuid : ReadsBack .uuid
  | dateTime (timezone : Bool) : ReadsBack (.dateTime timezone)

/-- A value that is a date with a time has no fraction of a second. -/
def Value.WholeSeconds (v : Value) : Prop :=
  ∀ d, v = .dateTime d → d.time.nano = 0

theorem ColumnType.ReadsBack.ordered {type : ColumnType} (h : type.ReadsBack) : type.Ordered := by
  cases h <;> trivial

theorem Value.ofJson_int (n : Int64) : Value.ofJson (.int n.toInt) = .int n := by
  have hl : -2 ^ 63 ≤ n.toInt := n.le_toInt
  have hu : n.toInt < 2 ^ 63 := n.toInt_lt
  have hfits : Value.fitsInt64 n.toInt = true := by
    simp [Value.fitsInt64]
    omega
  simp [Value.ofJson, hfits]

/-- From the wire form of a value of a column one gets a value that the column holds as this
value. -/
theorem Codec.reads_back {type : ColumnType} {v : Value} {j : Json} (ht : type.ReadsBack)
    (hv : v.Fits type) (hwhole : v.WholeSeconds) {axes : AxisNames} {name : String}
    (h : Codec.standard.serialize axes name (some type) v = .ok j) {c : Column}
    (hc : c.type = type) :
    ∃ w, Codec.standard.deserialize axes name c j = .ok w ∧ w.coerce type = .ok v := by
  have hread : Codec.standard.deserialize axes name c j =
      Codec.standard.read axes name type j := by
    rw [← hc]
    rfl
  rw [hread]
  by_cases hnull : v = .null
  · subst hnull
    cases h
    exact ⟨.null, by simp [read, Value.plain], Value.coerce_null type⟩
  cases hv.ofKind hnull with
  | integer n =>
      cases h
      exact ⟨.int n, congrArg Except.ok (Value.ofJson_int n), rfl⟩
  | boolean b =>
      cases h
      exact ⟨.bool b, rfl, rfl⟩
  | string s =>
      cases h
      exact ⟨.text s, rfl, rfl⟩
  | date d =>
      cases h
      refine ⟨.date d, ?_, rfl⟩
      simp [read, Json.asString?, Date.write, Date.ofText?_writeChars]
  | uuid u =>
      cases h
      refine ⟨.text u.writeSimple, rfl, ?_⟩
      have htrim : Text.trim u.digits = u.digits :=
        Text.trim_eq_self fun _ => Uuid.isBlank_of_mem_digits
      simp [Value.coerce, Value.ofText, Uuid.writeSimple, htrim, Uuid.ofText?_digits]
  | dateTime timezone d =>
      cases h
      refine ⟨.dateTime d, ?_, rfl⟩
      have hform := DateTime.ofForm?_writeIn (hwhole d rfl)
      simp [read, dateTime?, standard, dateTimeJson, Json.asString?, hform]
  | float | time | decimal | json | geometry | other => cases ht

end RecordApi
