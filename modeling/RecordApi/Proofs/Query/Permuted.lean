import RecordApi.Proofs.Query.Found

/-!
# Tables in another order

Tables with the same records in another order (`Tables.Permutes`) have the same records behind each
relationship, so that a record satisfies the same conditions (`Predicate.holds_congr_perm`) and a
plan finds the same records (`Plan.matching_perm`).

A projection lists what is behind a relationship in the order in which it is stored, or takes the
first of it. It has one value in whatever order, if the records behind the relationship have the
same value in the column, and else it has several (`Projection.agrees_iff`).
-/

namespace RecordApi

namespace Predicate

variable {links links' : Links}

mutual

/-- Conditions do not depend on the order of the records behind a relationship. -/
theorem holds_congr_perm (h : ∀ name r, (links' name r).Perm (links name r)) (r : Record) :
    ∀ p : Predicate, p.holds links' r = p.holds links r
  | .eq _ _ | .isNull _ | .notNull _ | .like _ _ _ | .compare _ _ _ | .isIn _ _ => by
      simp only [holds]
  | .all ps => by
      rw [holds, holds]
      exact holdAll_congr_perm h r ps
  | .any ps => by
      rw [holds, holds]
      exact holdAny_congr_perm h r ps
  | .not p => by rw [holds, holds, holds_congr_perm h r p]
  | .linked name p => by
      rw [holds, holds]
      exact (h name r).any_eq

theorem holdAll_congr_perm (h : ∀ name r, (links' name r).Perm (links name r)) (r : Record) :
    ∀ ps : List Predicate, holdAll links' r ps = holdAll links r ps
  | [] => rfl
  | p :: ps => by rw [holdAll, holdAll, holds_congr_perm h r p, holdAll_congr_perm h r ps]

theorem holdAny_congr_perm (h : ∀ name r, (links' name r).Perm (links name r)) (r : Record) :
    ∀ ps : List Predicate, holdAny links' r ps = holdAny links r ps
  | [] => rfl
  | p :: ps => by rw [holdAny, holdAny, holds_congr_perm h r p, holdAny_congr_perm h r ps]

end

end Predicate

/-- Tables have the same records as others, in any order. -/
def Tables.Permutes (t' t : Tables) : Prop :=
  ∀ name, (t'.rows name).Perm (t.rows name)

namespace Tables

variable {t t' : Tables} {m : Model} {name : String} {r : Record}

theorem Permutes.setRows {model : String} {rows : List Record} (h : rows.Perm (t.rows model)) :
    (t.setRows model rows).Permutes t := by
  intro name
  rw [rows_setRows]
  split
  · next heq => rwa [heq]
  · exact .refl _

theorem Permutes.links (h : t'.Permutes t) (m : Model) (name : String) (r : Record) :
    (t'.links m name r).Perm (t.links m name r) := by
  unfold Tables.links
  split
  · exact .refl _
  · next link _ =>
    split
    · exact .refl _
    · exact (h link.target).filter _

/-- Each record behind a relationship is the first one in some order. -/
theorem exists_permutes_head {a : Record} (ha : a ∈ t.links m name r) :
    ∃ t' : Tables, t'.Permutes t ∧ (t'.links m name r).head? = some a := by
  unfold Tables.links at ha ⊢
  cases hlink : m.relationship? name with
  | none => simp [hlink] at ha
  | some link =>
      by_cases hlocal : (r.get link.localColumn).isNull = true
      · simp [hlink, hlocal] at ha
      · simp only [hlink, hlocal, Bool.false_eq_true, if_false, List.mem_filter] at ha
        obtain ⟨hmem, hsame⟩ := ha
        obtain ⟨before, after, hrows⟩ := List.append_of_mem hmem
        refine ⟨t.setRows link.target (a :: (before ++ after)), .setRows ?_, ?_⟩
        · rw [hrows]
          exact List.perm_middle.symm
        · simp [hlocal, rows_setRows, hsame]

theorem project_count :
    t.project m r (.count name) = .int (Int64.ofNat (t.links m name r).length) := rfl

/-- A projection of a column depends on the values in the column alone. -/
theorem project_related (column : String) : t.project m r (.related name column) =
    if (m.relationship? name).any Relationship.isToMany then
      .list ((t.links m name r).map (·.get column))
    else (((t.links m name r).map (·.get column)).head?).getD .null := by
  rw [List.head?_map]
  rfl

end Tables

namespace Projection

/-- What a projection is of has one value: the records behind a relationship agree in the column. A
number of records is one value. -/
def Agrees (t : Tables) (m : Model) (r : Record) : Projection → Prop
  | .related name column =>
    (t.links m name r).Pairwise fun a b => a.get column = b.get column
  | .count _ => True

variable {t t' : Tables} {m : Model} {r : Record} {q : Projection}

theorem Agrees.project_eq (hq : q.Agrees t m r) (h : t'.Permutes t) :
    t'.project m r q = t.project m r q := by
  cases q with
  | count name =>
      rw [Tables.project_count, Tables.project_count, (h.links m name r).length_eq]
  | related name column =>
      have hvalues : (t'.links m name r).map (·.get column) =
          (t.links m name r).map (·.get column) := by
        have hperm := (h.links m name r).map (·.get column)
        have hone : ((t.links m name r).map (·.get column)).Pairwise Eq :=
          List.pairwise_map.2 hq
        exact hperm.eq_of_pairwise (fun _ _ _ _ heq _ => heq)
          (hperm.symm.pairwise hone fun heq => heq.symm) hone
      rw [Tables.project_related, Tables.project_related, hvalues]

/-- A projection has the same value in tables in any order if what it is of has one value. -/
theorem agrees_iff :
    q.Agrees t m r ↔ ∀ t' : Tables, t'.Permutes t → t'.project m r q = t.project m r q := by
  refine ⟨fun hq t' h => hq.project_eq h, fun hall => ?_⟩
  cases q with
  | count name => exact trivial
  | related name column =>
      -- two different values would both be the first one in some order
      refine List.pairwise_of_forall_mem_list fun a ha b hb => ?_
      obtain ⟨ta, hta, hheada⟩ := Tables.exists_permutes_head ha
      obtain ⟨tb, htb, hheadb⟩ := Tables.exists_permutes_head hb
      have hsame := (hall ta hta).trans (hall tb htb).symm
      rw [Tables.project_related, Tables.project_related] at hsame
      split at hsame
      · have hheads := congrArg List.head? (Value.list.inj hsame)
        rw [List.head?_map, List.head?_map, hheada, hheadb] at hheads
        exact Option.some.inj hheads
      · rw [List.head?_map, List.head?_map, hheada, hheadb] at hsame
        exact hsame

end Projection

namespace Plan

variable {p : Plan} {t t' : Tables}

/-- A plan finds the same records in tables in another order. -/
theorem matching_perm (h : t'.Permutes t) : (p.matching t').Perm (p.matching t) := by
  have haccepts : p.accepts t' = p.accepts t := by
    funext r
    unfold accepts
    congr 1
    funext condition
    exact Predicate.holds_congr_perm (h.links p.model) r condition
  unfold matching
  rw [haccepts]
  exact (h p.model.name).filter _

end Plan

end RecordApi
