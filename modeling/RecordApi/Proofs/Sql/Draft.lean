import RecordApi.Proofs.Success
import RecordApi.Sql.Write

/-!
# What a draft binds

A draft makes something and binds values behind those that are bound already. What it makes is
described by how many values stand before and by the values that it binds (`Draft.Yields`). Two
drafts are alike (`Draft.Alike`) if they make the same, whatever they bind, as long as they bind as
many values.
-/

namespace RecordApi.Sql

namespace Draft

variable {α β γ : Type}

@[simp] theorem pure_apply (a : α) (bound : List Bound) : (pure a : Draft α) bound = (a, bound) :=
  rfl

@[simp] theorem bind_apply (d : Draft α) (k : α → Draft β) (bound : List Bound) :
    (d >>= k) bound = k (d bound).1 (d bound).2 :=
  rfl

@[simp] theorem marked_apply (value : Bound) (bound : List Bound) :
    marked value bound = (.marker (bound.length + 1), bound ++ [value]) :=
  rfl

/-! ## What is made and bound -/

/-- A draft binds some values behind those that stand before, and what it makes is described by the
number of those before and by the values. -/
def Yields (d : Draft α) (P : Nat → List Bound → α → Prop) : Prop :=
  ∀ bound, ∃ values, (d bound).2 = bound ++ values ∧ P bound.length values (d bound).1

namespace Yields

variable {d : Draft α} {e : Draft β} {P : Nat → List Bound → α → Prop}
  {Q : Nat → List Bound → β → Prop} {R : Nat → List Bound → γ → Prop}

theorem pure {a : α} (h : ∀ start, P start [] a) : Yields (pure a) P :=
  fun bound => ⟨[], (List.append_nil bound).symm, h bound.length⟩

theorem marked {value : Bound} {P : Nat → List Bound → Piece → Prop}
    (h : ∀ start, P start [value] (.marker (start + 1))) : Yields (marked value) P :=
  fun bound => ⟨[value], rfl, h bound.length⟩

/-- A step that binds nothing describes what it makes by what it is given. -/
theorem fixed {k : α → Draft β} (h : Yields d P) (hk : ∀ start values a, P start values a →
    ∃ b, k a = Pure.pure b ∧ Q start values b) : Yields (d >>= k) Q := by
  intro bound
  obtain ⟨values, hbound, hmade⟩ := h bound
  obtain ⟨b, hb, hmade⟩ := hk _ _ _ hmade
  rw [bind_apply, hb, pure_apply]
  exact ⟨values, hbound, hmade⟩

theorem map {f : α → β} (h : Yields d P) (hf : ∀ start values a, P start values a →
    Q start values (f a)) : Yields (d >>= fun a => Pure.pure (f a)) Q :=
  h.fixed fun start values a ha => ⟨f a, rfl, hf start values a ha⟩

theorem map₂ {f : α → β → γ} (hd : Yields d P) (he : Yields e Q)
    (hf : ∀ start values a more b, P start values a → Q (start + values.length) more b →
      R start (values ++ more) (f a b)) :
    Yields (do let a ← d; let b ← e; Pure.pure (f a b)) R := by
  intro bound
  obtain ⟨values, hbound, hmade⟩ := hd bound
  obtain ⟨more, hmore, hmade'⟩ := he (d bound).2
  refine ⟨values ++ more, ?_, hf _ _ _ _ _ hmade ?_⟩
  · rw [bind_apply, bind_apply, pure_apply, hmore, hbound, List.append_assoc]
  · rwa [hbound, List.length_append, ← hbound] at hmade'

/-- What one draft for each element of a list makes is described along the list. -/
theorem mapM {f : α → Draft β} {Q : α → Nat → List Bound → β → Prop}
    {R : List α → Nat → List Bound → List β → Prop} {xs : List α}
    (h : ∀ x ∈ xs, Yields (f x) (Q x)) (hnil : ∀ start, R [] start [] [])
    (hcons : ∀ x rest start values b more bs, Q x start values b →
      R rest (start + values.length) more bs → R (x :: rest) start (values ++ more) (b :: bs)) :
    Yields (xs.mapM f) (R xs) := by
  induction xs with
  | nil => exact .pure hnil
  | cons x rest ih =>
      obtain ⟨hx, hrest⟩ := List.forall_mem_cons.1 h
      rw [List.mapM_cons]
      exact hx.map₂ (ih hrest) fun start values b more bs => hcons x rest start values b more bs

/-- What is drafted from its beginning has its values as parameters. -/
theorem prepare {d : Draft Statement} {P : Nat → List Bound → Statement → Prop} (h : Yields d P) :
    P 0 (Draft.prepare d).params (Draft.prepare d).statement := by
  obtain ⟨values, hbound, hmade⟩ := h []
  have hparams : (Draft.prepare d).params = values := hbound
  rw [hparams]
  exact hmade

end Yields

/-! ## Drafts that make the same -/

/-- Two drafts make the same behind as many values, and bind as many. -/
def Alike (d e : Draft α) : Prop :=
  ∀ bound others, bound.length = others.length →
    (d bound).1 = (e others).1 ∧ (d bound).2.length = (e others).2.length

namespace Alike

theorem pure (a : α) : Alike (pure a) (pure a) :=
  fun _ _ h => ⟨rfl, h⟩

theorem marked (value other : Bound) : Alike (marked value) (marked other) := by
  intro bound others h
  simp [h]

theorem bind {d e : Draft α} {k l : α → Draft β} (h : Alike d e) (hk : ∀ a, Alike (k a) (l a)) :
    Alike (d >>= k) (e >>= l) := by
  intro bound others hlength
  obtain ⟨hmade, hbound⟩ := h bound others hlength
  rw [bind_apply, bind_apply, hmade]
  exact hk _ _ _ hbound

theorem mapM {f : α → Draft γ} {g : β → Draft γ} {xs : List α} {ys : List β}
    (h : List.Forall₂ (fun x y => Alike (f x) (g y)) xs ys) : Alike (xs.mapM f) (ys.mapM g) := by
  induction h with
  | nil => exact .pure []
  | cons hx _ ih =>
      rw [List.mapM_cons, List.mapM_cons]
      exact hx.bind fun y => ih.bind fun zs => .pure (y :: zs)

end Alike

end Draft

namespace Condition

theorem drafts_eq_mapM (conditions : List Condition) :
    drafts conditions = conditions.mapM draft := by
  induction conditions with
  | nil => rfl
  | cons c rest ih => rw [drafts, ih, List.mapM_cons]

theorem length_drafts (conditions : List Condition) (bound : List Bound) :
    (drafts conditions bound).1.length = conditions.length := by
  induction conditions generalizing bound with
  | nil => rfl
  | cons c rest ih =>
      rw [drafts, Draft.bind_apply, Draft.bind_apply, Draft.pure_apply, List.length_cons, ih,
        List.length_cons]

end Condition

end RecordApi.Sql
