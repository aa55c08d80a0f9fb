import RecordApi.Proofs.Record
import RecordApi.Proofs.Success
import RecordApi.Proofs.Text.Digits
import RecordApi.Query.Assembly

/-!
# Parts of a list

The parameters `__offset` and `__limit` ask for a part of a list (`Pagination.part`). Parts of one
length that begin where the one before ends are the whole list together (`Pagination.flatMap_part`).
The conditions of a request do not depend on the two parameters: it has the same without them
(`Context.unpaged`). And every part can be asked for (`Context.ofContext_asking`).
-/

namespace RecordApi

variable {α β ε : Type}

/-- Elements of which nothing comes may be left out. -/
theorem mapM_flatten_filter {f : α → Except ε (List β)} {keep : α → Bool} {xs : List α}
    (h : ∀ x, keep x = false → f x = .ok []) :
    ((xs.filter keep).mapM f).map List.flatten = (xs.mapM f).map List.flatten := by
  induction xs with
  | nil => rfl
  | cons x xs ih =>
      -- what comes of the first element stands in front, also where it is nothing
      have hcons : ((x :: xs).mapM f).map List.flatten =
          f x >>= fun ys => ((xs.mapM f).map List.flatten).map (ys ++ ·) := by
        rw [List.mapM_cons]
        cases f x with
        | error e => rfl
        | ok ys => cases xs.mapM f <;> rfl
      rw [hcons, ← ih]
      cases hx : keep x with
      | true =>
          rw [List.filter_cons_of_pos hx, List.mapM_cons]
          cases f x with
          | error e => rfl
          | ok ys => cases (xs.filter keep).mapM f <;> rfl
      | false =>
          rw [List.filter_cons_of_neg (by simp [hx]), h x hx]
          cases (xs.filter keep).mapM f <;> rfl

namespace Pagination

/-- The part of a list that is asked for. -/
def part (p : Pagination) (xs : List α) : List α :=
  match p.limit with
  | some n => (xs.drop (p.offset.getD 0)).take n
  | none => xs.drop (p.offset.getD 0)

/-- The whole of a list. -/
def whole : Pagination := ⟨none, none⟩

/-- The `i`-th part of `k` elements. -/
def page (k i : Nat) : Pagination := ⟨some (i * k), some k⟩

variable {p : Pagination} {xs : List α} {ys : List β}

theorem part_subset : p.part xs ⊆ xs := by
  unfold part
  cases p.limit with
  | none => exact List.drop_subset _ _
  | some n => exact List.Subset.trans (List.take_subset _ _) (List.drop_subset _ _)

/-- A part has as many elements as its limit allows and as come after its offset. -/
theorem length_part :
    (p.part xs).length = min (p.limit.getD xs.length) (xs.length - p.offset.getD 0) := by
  unfold part
  cases p.limit with
  | none => simp
  | some n => simp

/-- The parts of a list that is converted are those of its conversion. -/
theorem mapM_part {f : α → Except ε β} (h : xs.mapM f = .ok ys) :
    (p.part xs).mapM f = .ok (p.part ys) := by
  rw [mapM_eq_ok_iff] at h ⊢
  have hdrop := List.forall₂_drop (p.offset.getD 0) h
  unfold part
  cases p.limit with
  | none => exact hdrop
  | some n => exact List.forall₂_take n hdrop

theorem flatMap_part_eq_take (xs : List α) (k n : Nat) :
    ((List.range n).flatMap fun i => (page k i).part xs) = xs.take (n * k) := by
  induction n with
  | zero => simp
  | succ n ih =>
      rw [List.range_succ, List.flatMap_append, ih, List.flatMap_singleton, Nat.succ_mul,
        List.take_add]
      rfl

/-- Parts of one length, one after the other, are the whole list. -/
theorem flatMap_part {k n : Nat} (h : xs.length ≤ n * k) :
    ((List.range n).flatMap fun i => (page k i).part xs) = xs := by
  rw [flatMap_part_eq_take, List.take_of_length_le h]

end Pagination

/-! ## Numbers as values of parameters -/

/-- A number as the value of a parameter. -/
def numeral (n : Nat) : String :=
  String.ofList (Text.natDigits n)

/-! ## Requests without the parameters of a part -/

/-- The request without the parameters that ask for a part. -/
def Context.unpaged (ctx : Context) : Context :=
  { ctx with params := ctx.params.filter fun p => p.1 != "__offset" && p.1 != "__limit" }

namespace Context

variable (ctx : Context)

theorem param?_unpaged {name : String} (ho : name ≠ "__offset") (hl : name ≠ "__limit") :
    ctx.unpaged.param? name = ctx.param? name := by
  have hkeep : (name != "__offset" && name != "__limit") = true := by simp [ho, hl]
  unfold param? unpaged
  rw [← List.filter_reverse]
  exact (Keyed.get?_filter (fun name => name != "__offset" && name != "__limit") _ name).trans
    (if_pos hkeep)

/-- A parameter whose name is reserved is no condition. -/
theorem ofParam_of_reserved (table : OperatorTable) (m : Model) {key : String} (raw : String)
    {rest : List Char} (h : key.toList = '_' :: '_' :: rest) :
    table.ofParam m (key, raw) = .ok [] := by
  unfold OperatorTable.ofParam FilterClause.ofParam
  rw [h]
  rfl

theorem ofParams_unpaged (table : OperatorTable) (m : Model) :
    table.ofParams m ctx.unpaged.params = table.ofParams m ctx.params := by
  refine mapM_flatten_filter fun ⟨key, raw⟩ hparam => ?_
  have hreserved : key = "__offset" ∨ key = "__limit" := by
    by_contra hn
    obtain ⟨ho, hl⟩ := not_or.1 hn
    simp [ho, hl] at hparam
  rcases hreserved with rfl | rfl
  · have hname : "__offset".toList = '_' :: '_' :: "offset".toList := by decide
    exact ofParam_of_reserved table m raw hname
  · have hname : "__limit".toList = '_' :: '_' :: "limit".toList := by decide
    exact ofParam_of_reserved table m raw hname

/-! ## Requests for a part -/

/-- The request for a part of what another request asks for. -/
def asking (p : Pagination) : Context :=
  { ctx with params := ctx.unpaged.params ++
      (p.offset.toList.map fun n => ("__offset", numeral n)) ++
      p.limit.toList.map fun n => ("__limit", numeral n) }

variable {p : Pagination}

theorem unpaged_asking : (ctx.asking p).unpaged = ctx.unpaged := by
  obtain ⟨offset, limit⟩ := p
  unfold asking unpaged
  cases offset <;> cases limit <;> simp [List.filter_append]

theorem param?_asking {name : String} (hname : name = "__offset" ∨ name = "__limit") :
    (ctx.asking p).param? name =
      (if name = "__offset" then p.offset else p.limit).map numeral := by
  have hnone : List.lookup name ctx.unpaged.params.reverse = none := by
    unfold unpaged
    rw [← List.filter_reverse]
    refine (Keyed.get?_filter (fun name => name != "__offset" && name != "__limit") _ name).trans
      (if_neg ?_)
    rcases hname with rfl | rfl <;> decide
  unfold param? asking
  rw [List.reverse_append, List.reverse_append, List.lookup_append, List.lookup_append, hnone]
  rcases hname with rfl | rfl <;> cases p.offset <;> cases p.limit <;> simp

theorem paramNat?_of_numeral {name : String} {n : Option Nat} (hn : ∀ k, n = some k → k < 2 ^ 64)
    (h : ctx.param? name = n.map numeral) : ctx.paramNat? name = .ok n := by
  unfold paramNat?
  rw [h]
  cases n with
  | none => rfl
  | some k =>
      simp only [Option.map_some, numeral, String.toList_ofList]
      rw [Text.trim_natDigits, Text.unsigned?_natDigits (hn k rfl)]

/-- Every part whose bounds are numbers of 64 bits can be asked for. -/
theorem ofContext_asking (ho : ∀ n, p.offset = some n → n < 2 ^ 64)
    (hl : ∀ n, p.limit = some n → n < 2 ^ 64) : Pagination.ofContext (ctx.asking p) = .ok p := by
  unfold Pagination.ofContext
  rw [paramNat?_of_numeral _ ho (param?_asking ctx (.inl rfl)),
    paramNat?_of_numeral _ hl (param?_asking ctx (.inr rfl))]
  rfl

end Context

end RecordApi
