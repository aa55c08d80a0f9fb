import Mathlib.Data.List.Forall2

/-!
# Steps that all succeed

What it means that a sequence of steps, each of which may be refused, succeeds: one after the other,
for all elements of a list, or folded over a list. `foldlM_induct` carries an invariant through a
fold that succeeds. `Agree` compares two attempts, which may both be refused.
-/

namespace RecordApi

variable {ε α β γ : Type}

@[simp] theorem bind_eq_ok_iff {x : Except ε α} {f : α → Except ε β} {b : β} :
    x >>= f = .ok b ↔ ∃ a, x = .ok a ∧ f a = .ok b := by
  cases x with
  | error e => simp [bind, Except.bind]
  | ok a => simp [bind, Except.bind]

@[simp] theorem pure_eq_ok_iff {a b : α} : (pure a : Except ε α) = .ok b ↔ a = b := by
  simp [pure, Except.pure]

theorem map_eq_ok_iff {x : Except ε α} {f : α → β} {b : β} :
    x.map f = .ok b ↔ ∃ a, x = .ok a ∧ f a = b := by
  cases x with
  | error e => simp [Except.map]
  | ok a => simp [Except.map]

@[simp] theorem exists_map_eq_ok_iff {x : Except ε α} {f : α → β} :
    (∃ b, x.map f = .ok b) ↔ ∃ a, x = .ok a := by
  cases x with
  | error e => simp [Except.map]
  | ok a => simp [Except.map]

theorem forM_eq_ok_iff {check : α → Except ε Unit} {xs : List α} :
    forM xs check = .ok () ↔ ∀ x ∈ xs, check x = .ok () := by
  induction xs with
  | nil => simp
  | cons x xs ih =>
      rw [List.forall_mem_cons, ← ih, List.forM_cons, bind_eq_ok_iff]
      exact ⟨fun ⟨_, hx, hxs⟩ => ⟨hx, hxs⟩, fun ⟨hx, hxs⟩ => ⟨_, hx, hxs⟩⟩

theorem forM_congr {check other : α → Except ε Unit} {xs : List α}
    (h : ∀ x ∈ xs, check x = other x) : forM xs check = forM xs other := by
  induction xs with
  | nil => rfl
  | cons x xs ih =>
      obtain ⟨hx, hxs⟩ := List.forall_mem_cons.1 h
      rw [List.forM_cons, List.forM_cons, hx, ih hxs]

theorem exists_of_forM_eq_error {check : α → Except ε Unit} {xs : List α} {e : ε}
    (h : forM xs check = .error e) : ∃ x ∈ xs, check x = .error e := by
  induction xs with
  | nil => cases h
  | cons x xs ih =>
      rw [List.forM_cons] at h
      cases hx : check x with
      | error e' =>
          rw [hx] at h
          cases h
          exact ⟨x, List.mem_cons_self, hx⟩
      | ok _ =>
          rw [hx] at h
          obtain ⟨y, hy, he⟩ := ih h
          exact ⟨y, List.mem_cons_of_mem _ hy, he⟩

theorem mapM_eq_ok_iff {f : α → Except ε β} {xs : List α} {ys : List β} :
    xs.mapM f = .ok ys ↔ List.Forall₂ (fun x y => f x = .ok y) xs ys := by
  induction xs generalizing ys with
  | nil =>
      rw [List.mapM_nil, pure_eq_ok_iff, List.forall₂_nil_left_iff]
      exact eq_comm
  | cons x xs ih =>
      rw [List.mapM_cons, bind_eq_ok_iff]
      constructor
      · rintro ⟨y, hy, h⟩
        obtain ⟨zs, hzs, h⟩ := bind_eq_ok_iff.1 h
        obtain rfl := pure_eq_ok_iff.1 h
        exact .cons hy (ih.1 hzs)
      · rintro (_ | ⟨hy, hzs⟩)
        exact ⟨_, hy, bind_eq_ok_iff.2 ⟨_, ih.2 hzs, rfl⟩⟩

theorem exists_mapM_eq_ok_iff {f : α → Except ε β} {xs : List α} :
    (∃ ys, xs.mapM f = .ok ys) ↔ ∀ x ∈ xs, ∃ y, f x = .ok y := by
  induction xs with
  | nil => simp
  | cons x xs ih =>
      rw [List.forall_mem_cons, ← ih]
      constructor
      · rintro ⟨ys, h⟩
        rw [List.mapM_cons, bind_eq_ok_iff] at h
        obtain ⟨y, hy, h⟩ := h
        obtain ⟨zs, hzs, -⟩ := bind_eq_ok_iff.1 h
        exact ⟨⟨y, hy⟩, zs, hzs⟩
      · rintro ⟨⟨y, hy⟩, zs, hzs⟩
        refine ⟨y :: zs, ?_⟩
        rw [List.mapM_cons, hy, hzs]
        rfl

theorem exists_of_mapM_eq_error {f : α → Except ε β} {xs : List α} {e : ε}
    (h : xs.mapM f = .error e) : ∃ x ∈ xs, f x = .error e := by
  induction xs with
  | nil => cases h
  | cons x xs ih =>
      rw [List.mapM_cons] at h
      cases hx : f x with
      | error e' =>
          rw [hx] at h
          cases h
          exact ⟨x, List.mem_cons_self, hx⟩
      | ok y =>
          cases hxs : xs.mapM f with
          | error e' =>
              rw [hx, hxs] at h
              cases h
              obtain ⟨z, hz, he⟩ := ih hxs
              exact ⟨z, List.mem_cons_of_mem _ hz, he⟩
          | ok ys =>
              rw [hx, hxs] at h
              cases h

/-- The same for steps that may give nothing. -/
theorem mapM_eq_some_iff {f : α → Option β} {xs : List α} {ys : List β} :
    xs.mapM f = some ys ↔ List.Forall₂ (fun x y => f x = some y) xs ys := by
  induction xs generalizing ys with
  | nil => simp [eq_comm]
  | cons x xs ih =>
      rw [List.mapM_cons, Option.bind_eq_bind, Option.bind_eq_some_iff]
      constructor
      · rintro ⟨y, hy, h⟩
        obtain ⟨zs, hzs, h⟩ := Option.bind_eq_some_iff.1 h
        obtain rfl := Option.some.inj h
        exact .cons hy (ih.1 hzs)
      · rintro (_ | ⟨hy, hzs⟩)
        exact ⟨_, hy, Option.bind_eq_some_iff.2 ⟨_, ih.2 hzs, rfl⟩⟩

/-- What conversion keeps of every element, it keeps of the list. -/
theorem map_eq_of_mapM_eq_ok {f : α → Except ε β} {xs : List α} {ys : List β} {g : α → γ}
    {k : β → γ} (h : xs.mapM f = .ok ys) (hk : ∀ x y, f x = .ok y → k y = g x) :
    ys.map k = xs.map g := by
  induction mapM_eq_ok_iff.1 h with
  | nil => rfl
  | cons hx _ ih => rw [List.map_cons, List.map_cons, hk _ _ hx, ih (mapM_eq_ok_iff.2 ‹_›)]

theorem exists_mem_of_forall₂ {R : α → β → Prop} {xs : List α} {ys : List β}
    (h : List.Forall₂ R xs ys) {y : β} (hy : y ∈ ys) : ∃ x ∈ xs, R x y := by
  induction h with
  | nil => cases hy
  | @cons x _ xs _ hx _ ih =>
      rcases List.mem_cons.1 hy with rfl | hy
      · exact ⟨x, List.mem_cons_self, hx⟩
      · obtain ⟨x, hmem, hx⟩ := ih hy
        exact ⟨x, List.mem_cons_of_mem _ hmem, hx⟩

theorem forall₂_comp {R : α → β → Prop} {S : β → γ → Prop} {T : α → γ → Prop} {xs : List α}
    {ys : List β} {zs : List γ} (hxy : List.Forall₂ R xs ys) (hyz : List.Forall₂ S ys zs)
    (h : ∀ x ∈ xs, ∀ y, ∀ z ∈ zs, R x y → S y z → T x z) : List.Forall₂ T xs zs := by
  induction hxy generalizing zs with
  | nil =>
      cases hyz
      exact .nil
  | cons hx _ ih =>
      cases hyz with
      | cons hz hzs =>
          refine .cons (h _ List.mem_cons_self _ _ List.mem_cons_self hx hz) (ih hzs ?_)
          exact fun x hx y z hz => h x (List.mem_cons_of_mem _ hx) y z (List.mem_cons_of_mem _ hz)

theorem mem_of_mapM_eq_ok {f : α → Except ε β} {xs : List α} {ys : List β}
    (h : xs.mapM f = .ok ys) {y : β} (hy : y ∈ ys) : ∃ x ∈ xs, f x = .ok y :=
  exists_mem_of_forall₂ (mapM_eq_ok_iff.1 h) hy

theorem mem_of_mem_of_mapM_eq_ok {f : α → Except ε β} {xs : List α} {ys : List β}
    (h : xs.mapM f = .ok ys) {x : α} (hx : x ∈ xs) : ∃ y ∈ ys, f x = .ok y :=
  exists_mem_of_forall₂ (mapM_eq_ok_iff.1 h).flip hx

theorem foldlM_append_eq_ok_iff {step : β → α → Except ε β} {xs ys : List α} {b d : β} :
    (xs ++ ys).foldlM step b = .ok d ↔
      ∃ c, xs.foldlM step b = .ok c ∧ ys.foldlM step c = .ok d := by
  rw [List.foldlM_append, bind_eq_ok_iff]

/-- What holds at the start and is kept by every step of a fold holds at its end. -/
theorem foldlM_induct {step : β → α → Except ε β} {xs : List α} {P : β → Prop} {b c : β}
    (h : xs.foldlM step b = .ok c) (hb : P b)
    (hstep : ∀ x ∈ xs, ∀ b c, P b → step b x = .ok c → P c) : P c := by
  induction xs generalizing b with
  | nil =>
      obtain rfl := pure_eq_ok_iff.1 h
      exact hb
  | cons x xs ih =>
      rw [List.foldlM_cons, bind_eq_ok_iff] at h
      obtain ⟨d, hd, h⟩ := h
      exact ih h (hstep x List.mem_cons_self b d hb hd)
        fun y hy => hstep y (List.mem_cons_of_mem _ hy)

/-! ## Attempts that agree -/

/-- Two attempts fail with the same error, or give results that are related. -/
inductive Agree {ε α : Type} (R : α → α → Prop) : Except ε α → Except ε α → Prop
  | ok {a b : α} (h : R a b) : Agree R (.ok a) (.ok b)
  | error (e : ε) : Agree R (.error e) (.error e)

namespace Agree

variable {ε α β γ : Type} {R : α → α → Prop} {S : β → β → Prop}

theorem bind {x y : Except ε α} {f g : α → Except ε β} (h : Agree R x y)
    (hf : ∀ a b, R a b → Agree S (f a) (g b)) : Agree S (x >>= f) (y >>= g) := by
  cases h with
  | ok h => exact hf _ _ h
  | error e => exact .error e

theorem ok_iff {a b : α} : Agree R (.ok a : Except ε α) (.ok b) ↔ R a b :=
  ⟨fun h => by cases h; assumption, .ok⟩

/-- Attempts agree if they begin with the same one and agree behind it. -/
theorem after (x : Except ε α) {f g : α → Except ε β} (h : ∀ a, Agree S (f a) (g a)) :
    Agree S (x >>= f) (x >>= g) := by
  cases x with
  | ok a => exact h a
  | error e => exact .error e

/-- Folds agree if they begin with related values and every step keeps values related. -/
theorem foldlM {step other : α → γ → Except ε α} {xs : List γ} {a b : α} (h : R a b)
    (hstep : ∀ x ∈ xs, ∀ a b, R a b → Agree R (step a x) (other b x)) :
    Agree R (xs.foldlM step a) (xs.foldlM other b) := by
  induction xs generalizing a b with
  | nil => exact .ok h
  | cons x xs ih =>
      rw [List.foldlM_cons, List.foldlM_cons]
      exact (hstep x List.mem_cons_self a b h).bind fun _ _ hab =>
        ih hab fun y hy => hstep y (List.mem_cons_of_mem _ hy)

end Agree

end RecordApi
