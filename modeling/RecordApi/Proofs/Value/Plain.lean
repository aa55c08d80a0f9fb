import RecordApi.Proofs.Number.DecimalText
import RecordApi.Proofs.Value.Returned

/-!
# Plain texts that are read again

The plain form of a value is a number, a truth value or a string. Its text, which stands in a query
or in a path, makes a column of one of the types in `ColumnType.ReadPlain` hold the value again,
with white space around the text as without (`Value.read_back_plain`). A point in time is read in
the second of the forms that are tried; the first one asks for a letter at the end.
-/

namespace RecordApi

/-! ## Dates and times -/

namespace Calendar

open Text

theorem fraction?_padded {width n : Nat} (hwidth : 0 < width) (hle : width ≤ 9)
    (h : n < 10 ^ width) :
    fraction? ('.' :: padded width n) = some (n * 10 ^ (9 - width), []) := by
  have hlength := length_padded hwidth h
  have hread : digits? 9 (padded width n) = some (n, []) := by
    have h : digits? 9 (padded width n ++ []) = some (ofDigits (padded width n), []) :=
      digits?_append (padded_ne_nil width n) (fun _ => isDigit_of_mem_padded)
        (hlength.trans_le hle) (by simp)
    rwa [List.append_nil, ofDigits_padded] at h
  simp [fraction?, hread, hlength]

/-- A fraction of a second that is written is read again, whatever the count of its digits. -/
theorem fraction?_writeFraction (t : Time) :
    fraction? (Time.writeFraction t.nano) = some (t.nano, []) := by
  have h := t.nano_lt
  unfold Time.writeFraction
  split
  · next hzero => rw [hzero]; rfl
  split
  · rw [fraction?_padded (by decide) (by decide) (by omega)]
    congr 2
    omega
  split
  · rw [fraction?_padded (by decide) (by decide) (by omega)]
    congr 2
    omega
  · rw [fraction?_padded (by decide) (by decide) h, Nat.sub_self, Nat.pow_zero, Nat.mul_one]

end Calendar

theorem Time.read?_writeChars (t : Time) : Time.read? true t.writeChars = some (t, []) := by
  simp [Time.read?, writeChars, t.clock?_writeSeconds, Calendar.fraction?_writeFraction t,
    t.of?_self]

theorem Time.ofText?_writeChars (t : Time) : Time.ofText? t.writeChars = some t := by
  simp [Time.ofText?, t.read?_writeChars]

theorem DateTime.toList_write (d : DateTime) :
    d.write.toList = d.date.writeChars ++ 'T' :: d.time.writeChars := by
  simp [write, writeIn, plainForm, Time.writeChars]

/-- A date with a time is read again in its own form, and not in the one with the letter of
universal time. -/
theorem DateTime.ofForm?_write (d : DateTime) (universal : Bool) :
    DateTime.ofForm? ⟨'T', true, universal⟩ d.write.toList =
      if universal then none else some d := by
  rw [toList_write]
  cases universal <;>
    simp [ofForm?, Date.read?_writeChars, separator?, Calendar.mark?, Time.read?_writeChars]

theorem Value.dateTimeOfText?_write (d : DateTime) : dateTimeOfText? d.write.toList = some d := by
  have hfound : dateTimeForms.findSome? (fun form => DateTime.ofForm? form d.write.toList) =
      some d := by
    rw [dateTimeForms, List.findSome?_cons, d.ofForm?_write, List.findSome?_cons, d.ofForm?_write]
    rfl
  rw [dateTimeOfText?, hfound]

/-! ## Identifiers -/

namespace Uuid

/-- Without the hyphens the groups are the digits again. -/
theorem filter_hyphenated {digits : List Char} (h : '-' ∉ digits) :
    (hyphenated digits).filter (· != '-') = digits := by
  have hkeep : ∀ {s : List Char}, (∀ c ∈ s, c ∈ digits) → s.filter (· != '-') = s :=
    fun hs => List.filter_eq_self.2 fun c hc => by
      simpa using fun heq : c = '-' => h (heq ▸ hs c hc)
  have hgroup : ∀ n, (digits.drop n).take 4 ++ digits.drop (n + 4) = digits.drop n := by
    intro n
    rw [← List.drop_drop, List.take_append_drop]
  have hdrop : ∀ n, ∀ c ∈ digits.drop n, c ∈ digits := fun _ _ => List.mem_of_mem_drop
  have hmiddle : ∀ n, ∀ c ∈ (digits.drop n).take 4, c ∈ digits :=
    fun _ _ h => List.mem_of_mem_drop (List.mem_of_mem_take h)
  simp only [hyphenated, List.append_assoc, List.cons_append, List.filter_append,
    List.filter_cons, bne_self_eq_false, Bool.false_eq_true, if_false]
  -- the groups are put together from the last one forwards
  rw [hkeep fun _ => List.mem_of_mem_take, hkeep (hmiddle 8), hkeep (hmiddle 12),
    hkeep (hmiddle 16), hkeep (hdrop 20), hgroup 16, hgroup 12, hgroup 8, List.take_append_drop]

theorem length_hyphenated {digits : List Char} (h : digits.length = 32) :
    (hyphenated digits).length = 36 := by
  simp [hyphenated, h]

theorem hyphen_not_mem_digits (u : Uuid) : '-' ∉ u.digits := by
  have hdigit : ∀ k < 16, Nat.digitChar k ≠ '-' := by decide
  intro h
  obtain ⟨k, hk, hc⟩ := exists_digitChar_of_mem h
  exact hdigit k hk hc.symm

theorem ofText?_hyphenated (u : Uuid) : ofText? (hyphenated u.digits) = some u := by
  have hlength := length_hyphenated u.length_digits
  have hread : ofHyphenated? (hyphenated u.digits) = some u := by
    simp [ofHyphenated?, hlength, filter_hyphenated u.hyphen_not_mem_digits, u.ofDigits?_digits]
  simp [ofText?, hlength, hread]

end Uuid

/-! ## Texts without white space -/

open Text in
theorem Date.isBlank_of_mem_writeChars (d : Date) : ∀ c ∈ d.writeChars, isBlank c = false := by
  have hyear : ∀ c ∈ writeYear d.year, isBlank c = false := by
    have hsign : isBlank (if d.year < 0 then '-' else '+') = false := by split <;> rfl
    intro c hc
    unfold writeYear at hc
    split at hc
    · exact isBlank_of_mem_padded hc
    · exact isBlank_of_mem_append_cons hsign (s := []) nofun (fun _ => isBlank_of_mem_padded) c hc
  unfold writeChars
  exact isBlank_of_mem_append_cons rfl
    (isBlank_of_mem_append_cons rfl hyear fun _ => isBlank_of_mem_padded)
    fun _ => isBlank_of_mem_padded

open Text in
theorem Time.isBlank_of_mem_writeChars (t : Time) : ∀ c ∈ t.writeChars, isBlank c = false := by
  have hseconds : ∀ c ∈ t.writeSeconds, isBlank c = false :=
    isBlank_of_mem_append_cons rfl
      (isBlank_of_mem_append_cons rfl (fun _ => isBlank_of_mem_padded)
        fun _ => isBlank_of_mem_padded)
      fun _ => isBlank_of_mem_padded
  unfold writeChars
  rcases writeFraction_cases t.nano with ⟨-, hnil⟩ | ⟨-, width, n, hpoint⟩
  · rw [hnil, List.append_nil]
    exact hseconds
  · rw [hpoint]
    exact isBlank_of_mem_append_cons rfl hseconds fun _ => isBlank_of_mem_padded

theorem DateTime.isBlank_of_mem_write (d : DateTime) :
    ∀ c ∈ d.write.toList, Text.isBlank c = false := by
  rw [toList_write]
  exact Text.isBlank_of_mem_append_cons rfl d.date.isBlank_of_mem_writeChars
    d.time.isBlank_of_mem_writeChars

theorem Uuid.isBlank_of_mem_hyphenated (u : Uuid) :
    ∀ c ∈ hyphenated u.digits, Text.isBlank c = false := by
  intro c hc
  by_cases hhyphen : c = '-'
  · rw [hhyphen]
    rfl
  · have hdigit : c ∈ (hyphenated u.digits).filter (· != '-') :=
      List.mem_filter.2 ⟨hc, by simpa using hhyphen⟩
    rw [filter_hyphenated u.hyphen_not_mem_digits] at hdigit
    exact isBlank_of_mem_digits hdigit

/-! ## Columns -/

/-- The text of a JSON value as it stands in a query or in a path: of a string it is the string
itself, without quotes. -/
def Json.bareText : Json → String
  | .string s => s
  | v => v.write

/-- The types of columns whose values are read again from their plain texts, whatever white space
is around them. -/
inductive ColumnType.ReadPlain : ColumnType → Prop
  | integer : ReadPlain .integer
  | boolean : ReadPlain .boolean
  | date : ReadPlain .date
  | time : ReadPlain .time
  | dateTime (timezone : Bool) : ReadPlain (.dateTime timezone)
  | decimal : ReadPlain .decimal
  | uuid : ReadPlain .uuid

theorem ColumnType.ReadPlain.ordered {type : ColumnType} (h : type.ReadPlain) : type.Ordered := by
  cases h <;> trivial

namespace Value

/-- The value, but a decimal that is zero without a sign. -/
def dropZeroSign : Value → Value
  | .decimal d => .decimal d.dropZeroSign
  | v => v

/-- The sign of a zero makes no difference. -/
theorem Fits.dropZeroSign_same {type : ColumnType} (ht : type.Ordered) {v : Value}
    (hv : v.Fits type) : v.dropZeroSign.same v = true := by
  have hsame := hv.same_self ht
  cases v with
  | decimal d =>
    change (Decimal.compare _ d == .eq) = true
    rw [Decimal.compare, d.value_dropZeroSign]
    exact hsame
  | _ => exact hsame

theorem boolOfText?_of_trim {s : List Char} {b : Bool}
    (h : Text.trim s = (if b then "true" else "false").toList) : boolOfText? s = some b := by
  unfold boolOfText?
  rw [h]
  cases b <;> decide

section

variable {type : ColumnType} {v : Value} {before after : String}

/-- The text of the plain form of a value makes a column of its type hold the value, whatever white
space is around it. Only the sign of a zero is lost. -/
theorem coerce_bareText (ht : type.ReadPlain) (hv : v.Fits type) (hnull : v ≠ .null)
    (hbefore : ∀ c ∈ before.toList, Text.isBlank c = true)
    (hafter : ∀ c ∈ after.toList, Text.isBlank c = true) :
    (Value.text (before ++ v.plain.bareText ++ after)).coerce type = .ok v.dropZeroSign := by
  have htrim : ∀ {s : List Char}, (∀ c ∈ s, Text.isBlank c = false) →
      Text.trim (before ++ String.ofList s ++ after).toList = s := by
    intro s hs
    rw [String.toList_append, String.toList_append, String.toList_ofList]
    exact Text.trim_append hbefore hs hafter
  have hcoerce : ∀ s, (Value.text s).coerce type = ofText type s := by
    intro s
    cases ht <;> rfl
  rw [hcoerce]
  cases hv.ofKind hnull with
  | integer n =>
    simp only [ofText, plain, Json.bareText, Json.write]
    rw [htrim fun _ => Text.isBlank_of_mem_intDigits, Text.int64?_intDigits]
    rfl
  | boolean b =>
    have hword : ∀ c ∈ (if b then "true" else "false").toList, Text.isBlank c = false := by
      cases b <;> simp [Text.isBlank]
    have hbare := htrim hword
    rw [String.ofList_toList] at hbare
    simp only [ofText, plain, Json.bareText, Json.write]
    rw [boolOfText?_of_trim hbare]
    rfl
  | date d =>
    simp only [ofText, plain, Json.bareText, Date.write]
    rw [htrim d.isBlank_of_mem_writeChars, d.ofText?_writeChars]
    rfl
  | time t =>
    simp only [ofText, plain, Json.bareText, Time.write]
    rw [htrim t.isBlank_of_mem_writeChars, t.ofText?_writeChars]
    rfl
  | dateTime timezone d =>
    have hbare := htrim d.isBlank_of_mem_write
    rw [String.ofList_toList] at hbare
    simp only [ofText, plain, Json.bareText]
    rw [hbare, dateTimeOfText?_write]
    rfl
  | decimal d =>
    have hbare := htrim fun _ => d.isBlank_of_mem_write
    rw [String.ofList_toList] at hbare
    simp only [ofText, plain, Json.bareText]
    rw [hbare, d.ofText?_write]
    rfl
  | uuid u =>
    simp only [ofText, plain, Json.bareText, Uuid.write]
    rw [htrim u.isBlank_of_mem_hyphenated, u.ofText?_hyphenated]
    rfl
  | float | string | json | geometry | other => cases ht

/-- The text of the plain form of a value makes a column of its type hold the same value, with white
space around it as without. -/
theorem read_back_plain (ht : type.ReadPlain) (hv : v.Fits type) (hnull : v ≠ .null)
    (hbefore : ∀ c ∈ before.toList, Text.isBlank c = true)
    (hafter : ∀ c ∈ after.toList, Text.isBlank c = true) :
    ∃ w, (Value.text (before ++ v.plain.bareText ++ after)).coerce type = .ok w ∧
      w.same v = true :=
  ⟨v.dropZeroSign, coerce_bareText ht hv hnull hbefore hafter, hv.dropZeroSign_same ht.ordered⟩

end

/-- A quarter of the leap second at the end of a year beyond the four digits. -/
def leapSecond : DateTime :=
  ⟨⟨12016, 12, 31, by decide, by decide, by decide, by decide⟩,
    ⟨23, 59, 60, 250000000, by decide, by decide, by decide, by decide⟩⟩

theorem read_back_plain_leapSecond :
    (Value.dateTime leapSecond).plain.bareText = "+12016-12-31T23:59:60.250" ∧
      ∃ w, (Value.text ("\t " ++ (Value.dateTime leapSecond).plain.bareText ++ "\n")).coerce
          (.dateTime false) = .ok w ∧
        w.same (.dateTime leapSecond) = true := by
  have hbefore : ∀ c ∈ "\t ".toList, Text.isBlank c = true := by simp [Text.isBlank]
  have hafter : ∀ c ∈ "\n".toList, Text.isBlank c = true := by simp [Text.isBlank]
  refine ⟨by decide +kernel, ?_⟩
  exact read_back_plain (v := .dateTime leapSecond) (.dateTime false) (fits_iff.2 rfl) (by simp)
    hbefore hafter

end Value

end RecordApi
