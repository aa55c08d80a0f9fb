import RecordApi.Proofs.Number.Rounding
import RecordApi.Json.Reader

/-!
# Whole numbers of 64 bits

Every whole number in a JSON value that is read has 64 bits, with a sign or without one
(`Json.ofWords_of_read?`); what is beyond is read as a double-precision number. So every number of
such a value is near to a finite double-precision number (`OfWords.isFinite_of_asNumber?`).
-/

namespace RecordApi.Json

/-- Every whole number in a value has 64 bits, with a sign or without one. -/
inductive OfWords : Json → Prop
  | null : OfWords .null
  | bool (b : Bool) : OfWords (.bool b)
  | int {n : Int} (least : -2 ^ 63 ≤ n) (word : n < wordBound) : OfWords (.int n)
  | float (x : Binary64.Finite) : OfWords (.float x)
  | string (s : String) : OfWords (.string s)
  | array {items : List Json} (h : ∀ v ∈ items, OfWords v) : OfWords (.array items)
  | object {members : Members} (h : ∀ e ∈ members, OfWords e.2) : OfWords (.object members)

@[simp] theorem ofWords_int_iff {n : Int} : OfWords (.int n) ↔ -2 ^ 63 ≤ n ∧ n < wordBound :=
  ⟨fun h => by cases h with | int least word => exact ⟨least, word⟩, fun h => .int h.1 h.2⟩

@[simp] theorem ofWords_array_iff {items : List Json} :
    OfWords (.array items) ↔ ∀ v ∈ items, v.OfWords :=
  ⟨fun h => by cases h with | array h => exact h, .array⟩

@[simp] theorem ofWords_object_iff {members : Members} :
    OfWords (.object members) ↔ ∀ e ∈ members, e.2.OfWords :=
  ⟨fun h => by cases h with | object h => exact h, .object⟩

/-- A whole number of 64 bits is near to a finite number. -/
theorem isFinite_ofInt {n : Int} (least : -2 ^ 63 ≤ n) (word : n < wordBound) :
    (Binary64.ofInt n).isFinite = true := by
  have hlt : n.natAbs < 2 ^ 64 := by
    have hword : n < 2 ^ 64 := word
    omega
  have hbelow : (Binary64.ofInt n).Below 65 := Binary64.below_ofNat _ hlt
  have hnan : Binary64.ofInt n ≠ .nan := by
    intro hnan
    rw [hnan] at hbelow
    exact hbelow
  exact Binary64.isFinite_of_isInfinite_eq_false (hbelow.isInfinite_eq_false (by decide)) hnan

theorem OfWords.isFinite_of_asNumber? {v : Json} (hv : v.OfWords) {x : Binary64}
    (h : v.asNumber? = some x) : x.isFinite = true := by
  cases hv with
  | int least word =>
      cases h
      exact isFinite_ofInt least word
  | float y =>
      cases h
      exact y.property
  | null | bool | string | array | object => cases h

theorem OfWords.of_get? {members : Members} (h : OfWords (.object members)) {name : String}
    {v : Json} (hget : Keyed.get? members name = some v) : v.OfWords :=
  ofWords_object_iff.1 h _ (Keyed.mem_of_get?_eq_some hget)

/-! ## Reading numbers -/

theorem ofWords_of_ofScientific? {negative : Bool} {digits : Nat} {e : Int} {v : Json}
    (h : ofScientific? negative digits e = some v) : v.OfWords := by
  obtain ⟨x, -, hx⟩ := Option.bind_eq_some_iff.1 h
  obtain ⟨y, -, rfl⟩ := Option.map_eq_some_iff.1 hx
  exact .float y

section

variable {v : Json} {rest : List Char}

theorem ofWords_of_map {read : Option Json} {after : List Char}
    (hread : ∀ {w}, read = some w → w.OfWords) (h : read.map (·, after) = some (v, rest)) :
    v.OfWords := by
  obtain ⟨w, hw, heq⟩ := Option.map_eq_some_iff.1 h
  cases heq
  exact hread hw

theorem ofWords_of_exponent? {negative : Bool} {digits : Nat} {e : Int} {s : List Char}
    (h : exponent? negative digits e s = some (v, rest)) : v.OfWords := by
  unfold exponent? at h
  dsimp only at h
  -- whatever the sign of the exponent, what is read is made of the digits
  split at h
  all_goals
    split at h
    · cases h
    · split at h
      · exact ofWords_of_map ofWords_of_ofScientific? h
      · split at h
        · exact ofWords_of_map ofWords_of_ofScientific? h
        · cases h

theorem ofWords_of_optionalExponent? {negative : Bool} {digits : Nat} {e : Int} {s : List Char}
    (h : optionalExponent? negative digits e s = some (v, rest)) : v.OfWords := by
  unfold optionalExponent? at h
  split at h
  · split at h
    · exact ofWords_of_exponent? h
    · exact ofWords_of_map ofWords_of_ofScientific? h
  · exact ofWords_of_map ofWords_of_ofScientific? h

theorem ofWords_of_fraction? {negative : Bool} {digits : Nat} {e : Int} {s : List Char}
    (h : fraction? negative digits e s = some (v, rest)) : v.OfWords := by
  unfold fraction? at h
  dsimp only at h
  split at h
  · cases h
  · exact ofWords_of_optionalExponent? h

/-- Digits that fit 64 bits make a whole number of 64 bits, or none. -/
theorem ofWords_of_afterWhole? {negative : Bool} {digits passed : Nat} {s : List Char}
    (hdigits : digits < wordBound) (h : afterWhole? negative digits passed s = some (v, rest)) :
    v.OfWords := by
  have hword : digits < 2 ^ 64 := hdigits
  unfold afterWhole? at h
  split at h
  · exact ofWords_of_fraction? h
  · exact ofWords_of_exponent? h
  · exact ofWords_of_exponent? h
  · split at h
    · exact ofWords_of_map ofWords_of_ofScientific? h
    · split at h
      · cases h
        exact .int (by omega) (by exact_mod_cast hdigits)
      · split at h
        · exact ofWords_of_map ofWords_of_ofScientific? h
        · next hends =>
          cases h
          have hle : digits ≤ 2 ^ 63 := by
            simp only [Bool.or_eq_true, decide_eq_true_eq] at hends
            omega
          have hneg : -(digits : Int) < (2 ^ 64 : Nat) := by omega
          exact .int (by omega) hneg

theorem appendDigits_lt {n : Nat} (hn : n < wordBound) (count : Nat) (s : List Char) :
    (appendDigits n count s).1 < wordBound := by
  induction s generalizing n count with
  | nil => exact hn
  | cons c s ih =>
      unfold appendDigits
      split
      · dsimp only
        split
        · next hm => exact ih hm _
        · exact hn
      · exact hn

theorem ofWords_of_number? {s : List Char} (h : number? s = some (v, rest)) : v.OfWords := by
  unfold number? at h
  dsimp only at h
  split at h
  · split at h
    · cases h
    · exact ofWords_of_afterWhole? (by decide) h
  · split at h
    all_goals
      split at h
      · cases h
      · exact ofWords_of_afterWhole? (appendDigits_lt (by decide) _ _) h

end

/-! ## Reading values -/

/-- A value that is read in so many steps is of words, and so are the array and the object whose
items and members are read on. -/
structure ReadsWords (fuel : Nat) : Prop where
  value : ∀ {depth shape s v rest}, value? fuel depth shape s = some (v, rest) → v.OfWords
  items : ∀ {depth shape acc s v rest}, (∀ w ∈ acc, w.OfWords) →
    items? fuel depth shape acc s = some (v, rest) → v.OfWords
  members : ∀ {depth shape acc s v rest}, (∀ e ∈ acc, e.2.OfWords) →
    members? fuel depth shape acc s = some (v, rest) → v.OfWords

theorem ReadsWords.value_succ {fuel : Nat} (ih : ReadsWords fuel) {depth : Nat} {shape : Shape}
    {s rest : List Char} {v : Json} (h : value? (fuel + 1) depth shape s = some (v, rest)) :
    v.OfWords := by
  have hword : ∀ {w : Json} {read : Option (List Char)}, w.OfWords →
      read.map (w, ·) = some (v, rest) → v.OfWords := by
    intro w read hw heq
    obtain ⟨after, -, heq⟩ := Option.map_eq_some_iff.1 heq
    cases heq
    exact hw
  unfold value? at h
  dsimp only at h
  split at h
  · exact hword .null h
  · exact hword (.bool true) h
  · exact hword (.bool false) h
  · obtain ⟨⟨t, after⟩, -, heq⟩ := Option.map_eq_some_iff.1 h
    cases heq
    exact .string t
  · cases depth with
    | zero => cases h
    | succ depth =>
        dsimp only at h
        split at h
        · cases h
          exact .array nofun
        · exact ih.items (List.forall_mem_nil _) h
  · cases depth with
    | zero => cases h
    | succ depth =>
        dsimp only at h
        split at h
        · cases h
          exact .object nofun
        · exact ih.members (List.forall_mem_nil _) h
  · exact ofWords_of_number? h

theorem ReadsWords.items_succ {fuel : Nat} (ih : ReadsWords fuel) {depth : Nat} {shape : Shape}
    {acc : List Json} {s rest : List Char} {v : Json} (hacc : ∀ w ∈ acc, w.OfWords)
    (h : items? (fuel + 1) depth shape acc s = some (v, rest)) : v.OfWords := by
  rw [items?] at h
  split at h
  · cases h
  · next item after hitem =>
    have hall : ∀ w ∈ item :: acc, w.OfWords := List.forall_mem_cons.2 ⟨ih.value hitem, hacc⟩
    split at h
    · cases h
      exact .array fun w hw => hall w (List.mem_reverse.1 hw)
    · exact ih.items hall h
    · cases h

theorem ReadsWords.members_succ {fuel : Nat} (ih : ReadsWords fuel) {depth : Nat} {shape : Shape}
    {acc : Members} {s rest : List Char} {v : Json} (hacc : ∀ e ∈ acc, e.2.OfWords)
    (h : members? (fuel + 1) depth shape acc s = some (v, rest)) : v.OfWords := by
  rw [members?] at h
  split at h
  · cases h
  · split at h
    · dsimp only at h
      split at h
      · cases h
      · next more after hread =>
        have hall : ∀ e ∈ more, e.2.OfWords := by
          split at hread
          · obtain ⟨⟨w, left⟩, hw, heq⟩ := Option.map_eq_some_iff.1 hread
            cases heq
            exact List.forall_mem_cons.2 ⟨ih.value hw, hacc⟩
          · obtain ⟨left, -, heq⟩ := Option.map_eq_some_iff.1 hread
            cases heq
            exact hacc
        split at h
        · cases h
          exact .object fun e he => hall e (List.mem_reverse.1 he)
        · exact ih.members hall h
        · cases h
    · cases h

theorem readsWords (fuel : Nat) : ReadsWords fuel := by
  induction fuel with
  | zero => exact ⟨nofun, nofun, nofun⟩
  | succ fuel ih => exact ⟨ih.value_succ, ih.items_succ, ih.members_succ⟩

/-! ## Objects in order -/

mutual

theorem OfWords.normalize : ∀ {v : Json}, v.OfWords → v.normalize.OfWords
  | .array _, .array h => .array (OfWords.normalizeItems h)
  | .object _, .object h => .object (OfWords.normalizeMembers h)
  | .null, h => h
  | .bool _, h => h
  | .int _, h => h
  | .float _, h => h
  | .string _, h => h

theorem OfWords.normalizeItems : ∀ {items : List Json}, (∀ v ∈ items, v.OfWords) →
    ∀ v ∈ Json.normalizeItems items, v.OfWords
  | [], _ => nofun
  | _ :: _, h => List.forall_mem_cons.2
      ⟨(List.forall_mem_cons.1 h).1.normalize, OfWords.normalizeItems (List.forall_mem_cons.1 h).2⟩

theorem OfWords.normalizeMembers : ∀ {members : List (String × Json)},
    (∀ e ∈ members, e.2.OfWords) → ∀ e ∈ Json.normalizeMembers members, e.2.OfWords
  | [], _ => nofun
  | (k, a) :: rest, h => by
      obtain ⟨ha, hrest⟩ := List.forall_mem_cons.1 h
      have hall := OfWords.normalizeMembers hrest
      unfold Json.normalizeMembers
      dsimp only
      split
      · exact hall
      · intro e he
        rcases Keyed.mem_insert he with rfl | he
        · exact OfWords.normalize ha
        · exact hall e he

end

/-- The whole numbers of a value that is read have 64 bits. -/
theorem ofWords_of_read? {s : String} {v : Json} (h : read? s = some v) : v.OfWords := by
  obtain ⟨w, hw, rfl⟩ := Option.map_eq_some_iff.1 h
  unfold document? at hw
  split at hw
  · next u rest hread =>
    split at hw
    · cases hw
      exact ((readsWords _).value hread).normalize
    · cases hw
  · cases hw

end RecordApi.Json
