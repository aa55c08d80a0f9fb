import RecordApi.Text.Case

/-!
# Characters without case

The signs of ASCII in front of the letters have no case and are the lower case of no other
character, so that a text has them in the same way in lower case (`mem_lowercase_iff`).
-/

namespace RecordApi.Text

/-- A sign of ASCII in front of the letters. -/
def IsSign (c : Char) : Prop :=
  0 < c.toNat ∧ c.toNat < 65

instance (c : Char) : Decidable (IsSign c) :=
  inferInstanceAs (Decidable (0 < c.toNat ∧ c.toNat < 65))

variable {c d : Char} {n m : Nat} {before s : List Char}

theorem le_of_mem_lowerRuns : ∀ run ∈ lowerRuns, (65 : Int) ≤ run.first + run.shift := by
  decide +kernel

theorem CaseRun.le_of_image? {run : CaseRun} (hrun : run ∈ lowerRuns)
    (h : run.image? n = some m) : 65 ≤ m := by
  unfold image? at h
  split at h
  · next hn =>
    have hfirst := le_of_mem_lowerRuns run hrun
    obtain rfl := Option.some.inj h
    simp only [Bool.and_eq_true, decide_eq_true_eq] at hn
    omega
  · cases h

theorem not_isSign_ofNat (hm : 65 ≤ m) : ¬IsSign (Char.ofNat m) := by
  by_cases hvalid : m.isValidChar
  · rw [Char.ofNat, dif_pos hvalid]
    exact fun h => Nat.not_lt.2 hm h.2
  · rw [Char.ofNat, dif_neg hvalid]
    exact fun h => Nat.lt_irrefl 0 h.1

theorem toLower_eq_iff (hc : IsSign c) : c = d.toLower ↔ c = d := by
  unfold Char.toLower
  split
  · next h =>
    have hlower : 65 ≤ d.toNat := h.1
    have hupper : d.toNat ≤ 90 := h.2
    have hshift : (d.val + ('a'.val - 'A'.val)).toNat = d.toNat + 32 := by
      rw [UInt32.toNat_add]
      exact Nat.mod_eq_of_lt (by simp; omega)
    refine iff_of_false ?_ ?_ <;> rintro rfl
    · have hlt : (d.val + ('a'.val - 'A'.val)).toNat < 65 := hc.2
      omega
    · have hlt := hc.2
      omega
  · rfl

/-- A sign is the lower case of itself alone. -/
theorem mem_lowerChar_iff (hc : IsSign c) : c ∈ lowerChar d ↔ c = d := by
  unfold lowerChar
  dsimp only
  split
  · rw [List.mem_singleton, toLower_eq_iff hc]
  · next hascii =>
    have hne : c ≠ d := by
      rintro rfl
      have := hc.2
      omega
    split
    · have hsign : ∀ x ∈ [Char.ofNat 0x69, Char.ofNat 0x307], ¬IsSign x := by
        simp [not_isSign_ofNat]
      exact iff_of_false (fun h => hsign c h hc) hne
    · split
      · next m hm =>
        obtain ⟨run, hrun, himage⟩ := List.exists_of_findSome?_eq_some hm
        rw [List.mem_singleton]
        refine iff_of_false ?_ hne
        rintro rfl
        exact not_isSign_ofNat (CaseRun.le_of_image? hrun himage) hc
      · exact List.mem_singleton

theorem mem_lowerFrom_iff (hc : IsSign c) : c ∈ lowerFrom before s ↔ c ∈ s := by
  induction s generalizing before with
  | nil => rfl
  | cons d s ih =>
      rw [lowerFrom, List.mem_append, ih, List.mem_cons]
      refine or_congr ?_ Iff.rfl
      split
      · next h =>
        simp only [Bool.and_eq_true, beq_iff_eq] at h
        rw [List.mem_singleton]
        constructor
        · rintro rfl
          exact absurd hc (not_isSign_ofNat (by decide))
        · rintro rfl
          have := hc.2
          omega
      · exact mem_lowerChar_iff hc

/-- A text has a sign in lower case if it has it. -/
theorem mem_lowercase_iff (hc : IsSign c) : c ∈ lowercase s ↔ c ∈ s :=
  mem_lowerFrom_iff hc

end RecordApi.Text
