import RecordApi.Proofs.Text.Split
import RecordApi.Proofs.Value.ReadBack

/-!
# Temporal values that come back

What the codec reads from the wire form of a value of a temporal column. A date comes back, and a
date with a time comes back without its fraction of a second. A time of day is written with its
fraction and read without: it comes back if it is a whole second and no leap second, and is refused
otherwise (`Codec.temporal_comes_back`).
-/

namespace RecordApi

/-! ## Times of day -/

namespace Time

/-- The time without its fraction of a second. -/
def whole (t : Time) : Time :=
  { t with nano := 0, nano_lt := by decide }

theorem whole_eq_self_iff {t : Time} : t.whole = t ↔ t.nano = 0 := by
  constructor
  · exact fun h => (congrArg nano h).symm
  · intro h
    cases t
    cases h
    rfl

/-- A time is one that a clock shows: a whole second, and no leap second. -/
def OnClock (t : Time) : Prop :=
  t.nano = 0 ∧ t.second < 60

instance (t : Time) : Decidable t.OnClock :=
  inferInstanceAs (Decidable (_ ∧ _))

theorem not_mem_padded {c : Char} (hc : Text.isDigit c = false) (width n : Nat) :
    c ∉ Text.padded width n := by
  intro h
  rw [Text.isDigit_of_mem_padded h] at hc
  cases hc

/-- A fraction is nothing, or a point and digits. -/
theorem writeFraction_cases (nano : Nat) :
    nano = 0 ∧ writeFraction nano = [] ∨
      nano ≠ 0 ∧ ∃ width n, writeFraction nano = '.' :: Text.padded width n := by
  unfold writeFraction
  split
  · next h => exact .inl ⟨h, rfl⟩
  · next h =>
    refine .inr ⟨h, ?_⟩
    split
    · exact ⟨_, _, rfl⟩
    · split <;> exact ⟨_, _, rfl⟩

/-- Colons cut a time that is written into its hours, minutes, and seconds with their fraction. -/
theorem splitOn_writeChars (t : Time) :
    Text.splitOn ':' t.writeChars = [Text.padded 2 t.hour, Text.padded 2 t.minute,
      Text.padded 2 t.second ++ writeFraction t.nano] := by
  have hcolon : ∀ n, ':' ∉ Text.padded 2 n := not_mem_padded (by decide) 2
  have hlast : ':' ∉ Text.padded 2 t.second ++ writeFraction t.nano := by
    intro h
    rcases List.mem_append.1 h with h | h
    · exact hcolon _ h
    · rcases writeFraction_cases t.nano with ⟨-, hnil⟩ | ⟨-, width, n, hpoint⟩
      · rw [hnil] at h
        cases h
      · rw [hpoint] at h
        rcases List.mem_cons.1 h with h | h
        · exact absurd h (by decide)
        · exact not_mem_padded (by decide) width n h
  have hsplit : t.writeChars = Text.padded 2 t.hour ++ ':' :: (Text.padded 2 t.minute ++ ':' ::
      (Text.padded 2 t.second ++ writeFraction t.nano)) := by
    simp [writeChars, writeSeconds]
  rw [hsplit, Text.splitOn_append (hcolon _), Text.splitOn_append (hcolon _),
    Text.splitOn_of_not_mem hlast]

end Time

/-- A time of day that is written is read again exactly if it is one that a clock shows. -/
theorem Codec.time?_writeChars (t : Time) :
    Codec.time? t.writeChars = if t.OnClock then some t else none := by
  have hpart : ∀ {n : Nat}, n < 60 → Text.unsigned? (2 ^ 32) (Text.padded 2 n) = some n :=
    fun h => Text.unsigned?_padded (Nat.lt_trans h (by decide))
  unfold time?
  rw [Time.splitOn_writeChars]
  rcases Time.writeFraction_cases t.nano with ⟨hzero, hnil⟩ | ⟨hnano, width, n, hpoint⟩
  · have hsecond : Text.unsigned? (2 ^ 32) (Text.padded 2 t.second) = some t.second :=
      Text.unsigned?_padded (Nat.lt_of_le_of_lt t.second_le (by decide))
    have htime := t.of?_self
    rw [hzero] at htime
    rw [hnil, List.append_nil]
    simp [hpart (Nat.lt_trans t.hour_lt (by decide)), hpart t.minute_lt, hsecond, htime,
      Time.OnClock, hzero]
  · have hrefused : Text.unsigned? (2 ^ 32)
        (Text.padded 2 t.second ++ Time.writeFraction t.nano) = none := by
      refine Text.unsigned?_eq_none (c := '.') ?_ (by decide) (by decide)
      rw [hpoint]
      exact List.mem_append_right _ List.mem_cons_self
    simp [hrefused, Time.OnClock, hnano]

/-! ## Dates with times -/

/-- The date with a time without its fraction of a second. -/
def DateTime.whole (d : DateTime) : DateTime :=
  { d with time := d.time.whole }

theorem DateTime.whole_eq_self_iff {d : DateTime} : d.whole = d ↔ d.time.nano = 0 := by
  rw [← Time.whole_eq_self_iff]
  constructor
  · exact fun h => congrArg DateTime.time h
  · exact fun h => congrArg (DateTime.mk d.date) h

/-- From the wire form of a date with a time one gets it in whole seconds. -/
theorem DateTime.ofForm?_writeIn_zoned (d : DateTime) :
    DateTime.ofForm? Codec.zonedForm (d.writeIn Codec.zonedForm).toList = some d.whole :=
  DateTime.ofForm?_writeIn (d := d.whole) rfl

/-! ## Columns -/

/-- The types of columns of dates and times. -/
inductive ColumnType.Temporal : ColumnType → Prop
  | date : Temporal .date
  | time : Temporal .time
  | dateTime (timezone : Bool) : Temporal (.dateTime timezone)

namespace Value

/-- What is read from the wire form of a value of a temporal column. -/
def comeBack (name : String) : Value → Except ApiError Value
  | .dateTime d => .ok (.dateTime d.whole)
  | .time t => if t.OnClock then .ok (.time t) else .error (.badRequest (.time name))
  | v => .ok v

/-- A value has nothing that is lost on its way: no fraction of a second, and no leap second in a
time of day. -/
def ComesBack (v : Value) : Prop :=
  v.WholeSeconds ∧ ∀ t, v = .time t → t.OnClock

theorem comeBack_eq_ok_iff {name : String} {v : Value} :
    v.comeBack name = .ok v ↔ v.ComesBack := by
  cases v with
  | dateTime d =>
      simp [comeBack, ComesBack, WholeSeconds, DateTime.whole_eq_self_iff]
  | time t =>
      simp [comeBack, ComesBack, WholeSeconds]
  | _ => simp [comeBack, ComesBack, WholeSeconds]

end Value

/-- A value of a temporal column is written, and what is read from its wire form is the value if it
is a date, the value in whole seconds if it is a date with a time, and the value or nothing if it is
a time of day. So the value comes back exactly if it is in whole seconds, and no leap second of a
time of day. -/
theorem Codec.temporal_comes_back {codec : Codec} (hplugins : codec.plugins = []) {name : String}
    (hnaive : name ∉ codec.naive) (hepoch : name ∉ codec.epoch) {c : Column}
    (hc : c.type.Temporal) {v : Value} (hv : v.Fits c.type) (axes : AxisNames) :
    ∃ j, codec.serialize axes name (some c.type) v = .ok j ∧
      codec.deserialize axes name c j = v.comeBack name ∧
      (codec.deserialize axes name c j = .ok v ↔ v.ComesBack) := by
  suffices h : ∃ j, codec.serialize axes name (some c.type) v = .ok j ∧
      codec.deserialize axes name c j = v.comeBack name by
    obtain ⟨j, hj, hread⟩ := h
    exact ⟨j, hj, hread, by rw [hread, Value.comeBack_eq_ok_iff]⟩
  by_cases hnull : v = .null
  · subst hnull
    exact ⟨.null, by simp [serialize, hplugins, Value.plain],
      by simp [deserialize, hplugins, read, Value.comeBack]⟩
  generalize htype : c.type = type at hc hv
  cases hv.ofKind hnull with
  | date d =>
      refine ⟨.string d.write, by simp [serialize, hplugins], ?_⟩
      simp [deserialize, hplugins, htype, read, Json.asString?, Date.write,
        Date.ofText?_writeChars, Value.comeBack]
  | time t =>
      refine ⟨.string t.write, by simp [serialize, hplugins], ?_⟩
      simp only [deserialize, hplugins, htype, read, Json.asString?, Time.write, Value.comeBack,
        List.findSome?_nil, Option.bind_some, String.toList_ofList, time?_writeChars]
      split <;> rfl
  | dateTime timezone d =>
      refine ⟨.string (d.writeIn zonedForm),
        by simp [serialize, hplugins, dateTimeJson, hnaive, hepoch], ?_⟩
      simp [deserialize, hplugins, htype, read, dateTime?, hnaive, hepoch, Json.asString?,
        DateTime.ofForm?_writeIn_zoned, Value.comeBack]
  | integer | float | boolean | string | decimal | uuid | json | geometry | other => cases hc

/-- A column of times of day. -/
def Column.start : Column :=
  ⟨"start", .time, "time", true, false, false⟩

/-- Half past eight and half a second. -/
def Time.halfPastEight : Time where
  hour := 8
  minute := 30
  second := 0
  nano := 500000000
  hour_lt := by decide
  minute_lt := by decide
  second_le := by decide
  nano_lt := by decide

/-- A column takes the time, and its wire form is refused. -/
theorem Codec.temporal_comes_back_start : ∃ j,
    Codec.standard.serialize [] "start" (some .time) (.time .halfPastEight) = .ok j ∧
      Codec.standard.deserialize [] "start" .start j = .error (.badRequest (.time "start")) := by
  have hfits : (Value.time .halfPastEight).Fits Column.start.type := .inr rfl
  obtain ⟨j, hj, hread, -⟩ := @temporal_comes_back standard rfl "start" List.not_mem_nil
    List.not_mem_nil .start .time _ hfits []
  exact ⟨j, hj, hread⟩

end RecordApi
