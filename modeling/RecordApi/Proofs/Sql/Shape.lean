import RecordApi.Proofs.Schema.Resolved
import RecordApi.Proofs.Sql.Draft

/-!
# Statements do not depend on values

Predicates have the same shape if they differ in nothing but the values that records are compared
with. The conditions of such predicates are drafted alike, so that the statements for plans with
them have the same text and as many parameters, and so have the statements that write records with
the same columns (`statements_alike`).
-/

namespace RecordApi

/-! ## The same shape -/

namespace Predicate

mutual

/-- Two conditions on records differ in nothing but the values that they compare with, which are
null in both or in neither where they are asked to be equal, and as many where they are listed. -/
inductive SameShape : Predicate → Predicate → Prop
  | eq (column : String) {value other : Value} (h : value.isNull = other.isNull) :
      SameShape (.eq column value) (.eq column other)
  | isNull (column : String) : SameShape (.isNull column) (.isNull column)
  | notNull (column : String) : SameShape (.notNull column) (.notNull column)
  | like (column pattern other : String) (ignoresCase : Bool) :
      SameShape (.like column pattern ignoresCase) (.like column other ignoresCase)
  | compare (column : String) (comparison : Comparison) (value other : Value) :
      SameShape (.compare column comparison value) (.compare column comparison other)
  | isIn (column : String) {values others : List Value} (h : values.length = others.length) :
      SameShape (.isIn column values) (.isIn column others)
  | all {ps qs : List Predicate} (h : SameShapes ps qs) : SameShape (.all ps) (.all qs)
  | any {ps qs : List Predicate} (h : SameShapes ps qs) : SameShape (.any ps) (.any qs)
  | not {p q : Predicate} (h : SameShape p q) : SameShape (.not p) (.not q)
  | linked (name : String) {p q : Predicate} (h : SameShape p q) :
      SameShape (.linked name p) (.linked name q)

/-- Conditions in order have the same shapes. -/
inductive SameShapes : List Predicate → List Predicate → Prop
  | nil : SameShapes [] []
  | cons {p q : Predicate} {ps qs : List Predicate} (h : SameShape p q) (hs : SameShapes ps qs) :
      SameShapes (p :: ps) (q :: qs)

end

end Predicate

/-- Two plans differ in nothing but the values that their conditions compare with. -/
def Plan.SameShape (p q : Plan) : Prop :=
  ∃ predicates, Predicate.SameShapes p.predicates predicates ∧
    q = { p with predicates := predicates }

/-- Two records set the same columns of a model. -/
def Record.SameColumns (m : Model) (r s : Record) : Prop :=
  ∀ c ∈ m.columns, r.contains c.name = s.contains c.name

instance (m : Model) (r s : Record) : Decidable (r.SameColumns m s) :=
  inferInstanceAs (Decidable (∀ c ∈ m.columns, r.contains c.name = s.contains c.name))

namespace Sql

/-- Two prepared statements have the same text and as many parameters. -/
def Prepared.Alike (q r : Prepared) : Prop :=
  q.text = r.text ∧ q.params.length = r.params.length

theorem Draft.Alike.prepare {d e : Draft Statement} (h : d.Alike e) :
    (Draft.prepare d).Alike (Draft.prepare e) := by
  obtain ⟨hmade, hbound⟩ := h [] [] rfl
  exact ⟨congrArg Statement.text hmade, hbound⟩

/-! ## Conditions -/

theorem Alike.placeholder (c : Column) (value other : Value) :
    (placeholder c value).Alike (placeholder c other) :=
  (Draft.Alike.marked _ _).bind fun _ => .pure _

theorem Alike.equation (reference : String → Statement) (c : Column) (value other : Value) :
    (equation reference c value).Alike (equation reference c other) :=
  (Alike.placeholder c value other).bind fun _ => .pure _

namespace Condition

/-- Two conditions are written alike. -/
def Alike (c e : Condition) : Prop :=
  c.draft.Alike e.draft

variable {schema : Schema}

/-- Whether a column is compared with null, and not the value, decides how it is written. -/
theorem Alike.equal (c : ColumnRef) {value other : Value} (h : value.isNull = other.isNull) :
    Alike (if value.isNull then isNull c else equal c value)
      (if other.isNull then isNull c else equal c other) := by
  rw [h]
  split
  · exact .pure _
  · exact (Alike.placeholder c.column value other).bind fun _ => .pure _

theorem Alike.isIn (c : ColumnRef) {values others : List Value}
    (h : values.length = others.length) : (isIn c values).Alike (isIn c others) := by
  unfold Alike draft
  cases values with
  | nil =>
      obtain rfl := List.eq_nil_of_length_eq_zero h.symm
      exact .pure _
  | cons value rest =>
      obtain ⟨other, rest', rfl⟩ := List.exists_cons_of_length_eq_add_one h.symm
      refine (Draft.Alike.mapM ?_).bind fun _ => .pure _
      exact List.forall₂_iff_get.2 ⟨h, fun _ _ _ => Alike.placeholder _ _ _⟩

theorem Alike.drafts {cs es : List Condition} (h : List.Forall₂ Alike cs es) :
    (drafts cs).Alike (drafts es) := by
  rw [drafts_eq_mapM, drafts_eq_mapM]
  exact .mapM h

mutual

theorem agree_ofPredicate : ∀ {p q : Predicate}, p.SameShape q → ∀ (m : Model) (source : Alias)
    (used : Nat), Agree (fun x y => x.1.Alike y.1 ∧ x.2 = y.2) (ofPredicate schema m source used p)
      (ofPredicate schema m source used q)
  | _, _, .eq column h, m, _, _ =>
      .after (columnOf m column) fun c => .ok ⟨Alike.equal ⟨_, c⟩ h, rfl⟩
  | _, _, .isNull column, m, _, _ => .after (columnOf m column) fun _ => .ok ⟨.pure _, rfl⟩
  | _, _, .notNull column, m, _, _ => .after (columnOf m column) fun _ => .ok ⟨.pure _, rfl⟩
  | _, _, .like column _ _ _, m, _, _ =>
      .after (columnOf m column) fun _ => .ok ⟨(Draft.Alike.marked _ _).bind fun _ => .pure _, rfl⟩
  | _, _, .compare column _ value other, m, _, _ =>
      .after (columnOf m column) fun c =>
        .ok ⟨(Alike.placeholder c value other).bind fun _ => .pure _, rfl⟩
  | _, _, .isIn column h, m, _, _ =>
      .after (columnOf m column) fun _ => .ok ⟨Alike.isIn _ h, rfl⟩
  | _, _, .all hs, m, source, used => by
      refine (agree_ofPredicates hs m source used).bind fun _ _ h => .ok ⟨?_, h.2⟩
      exact (Alike.drafts h.1).bind fun _ => .pure _
  | _, _, .any hs, m, source, used => by
      refine (agree_ofPredicates hs m source used).bind fun _ _ h => .ok ⟨?_, h.2⟩
      exact (Alike.drafts h.1).bind fun _ => .pure _
  | _, _, .not hp, m, source, used => by
      refine (agree_ofPredicate hp m source used).bind fun _ _ h => .ok ⟨?_, h.2⟩
      exact h.1.bind fun _ => .pure _
  | _, _, .linked name hp, m, source, used => by
      refine .after (relationshipOf schema m name) fun ⟨_, target⟩ => ?_
      refine (agree_ofPredicate hp target (.sub (used + 1)) (used + 1)).bind fun _ _ h =>
        .ok ⟨?_, h.2⟩
      exact h.1.bind fun _ => .pure _

theorem agree_ofPredicates : ∀ {ps qs : List Predicate}, Predicate.SameShapes ps qs →
    ∀ (m : Model) (source : Alias) (used : Nat),
      Agree (fun x y => List.Forall₂ Alike x.1 y.1 ∧ x.2 = y.2)
        (ofPredicates schema m source used ps) (ofPredicates schema m source used qs)
  | _, _, .nil, _, _, _ => .ok ⟨.nil, rfl⟩
  | _, _, .cons hp hps, m, source, used => by
      refine (agree_ofPredicate hp m source used).bind ?_
      rintro ⟨c, n⟩ ⟨e, _⟩ ⟨hc, rfl⟩
      refine (agree_ofPredicates hps m source n).bind ?_
      rintro ⟨cs, k⟩ ⟨es, _⟩ ⟨hcs, rfl⟩
      exact .ok ⟨.cons hc hcs, rfl⟩

end

end Condition

/-! ## Statements -/

section

variable {schema : Schema} {p q : Plan}

theorem agree_whereDraft (h : p.SameShape q) (used : Nat) :
    Agree Draft.Alike (whereDraft schema p used) (whereDraft schema q used) := by
  obtain ⟨predicates, hshapes, rfl⟩ := h
  refine (Condition.agree_ofPredicates hshapes p.model .main used).bind ?_
  rintro ⟨cs, n⟩ ⟨es, _⟩ ⟨hcs, rfl⟩
  cases hcs with
  | nil => exact .ok (.pure [])
  | cons hc hcs =>
      exact .ok ((Condition.Alike.drafts (.cons hc hcs)).bind fun _ => .pure _)

theorem agree_count (h : p.SameShape q) :
    Agree Prepared.Alike (count schema p) (count schema q) := by
  refine (agree_whereDraft h 0).bind fun _ _ hwhere => .ok ?_
  obtain ⟨_, -, rfl⟩ := h
  exact (hwhere.bind fun _ => .pure _).prepare

theorem agree_select (h : p.SameShape q) :
    Agree Prepared.Alike (select schema p) (select schema q) := by
  have hwhere : Agree Draft.Alike (whereDraft schema p p.extra.length)
      (whereDraft schema q p.extra.length) := agree_whereDraft h p.extra.length
  obtain ⟨_, -, rfl⟩ := h
  refine .after (extraPieces schema p.model 0 p.extra) fun extra => ?_
  refine hwhere.bind fun _ _ hwhere => ?_
  refine .after (p.sort.mapM (sortPieces p.model)) fun sort => .ok ?_
  exact (hwhere.bind fun _ => .pure _).prepare

end

section

variable {m : Model} {values others : Record}

theorem alike_insert (h : values.SameColumns m others)
    (hkey : ∀ c ∈ m.columns, c.primaryKey = true →
      (values.get c.name).isNull = (others.get c.name).isNull) :
    (insert m values).Alike (insert m others) := by
  have hcolumns : insertedColumns m values = insertedColumns m others := by
    refine List.filter_congr fun c hc => ?_
    rw [h c hc]
    cases hflag : c.primaryKey with
    | false => rfl
    | true => rw [hkey c hc hflag]
  unfold insert
  rw [hcolumns]
  refine Draft.Alike.prepare ((Draft.Alike.mapM ?_).bind fun placeholders => ?_)
  · exact List.forall₂_same.2 fun c _ => Alike.placeholder c _ _
  · split <;> exact .pure _

theorem alike_assignments (h : values.SameColumns m others) :
    (assignments m values).Alike (assignments m others) := by
  have hcolumns : updatedColumns m values = updatedColumns m others :=
    List.filter_congr fun c hc => by rw [h c hc]
  unfold assignments
  rw [hcolumns]
  refine (Draft.Alike.mapM ?_).bind fun columns => ?_
  · exact List.forall₂_same.2 fun c _ => Alike.equation _ c _ _
  · dsimp only
    split <;> exact .pure _

theorem agree_identity (reference : String → Statement) (current read : Record) :
    Agree Draft.Alike (identity reference m current) (identity reference m read) := by
  refine .after (m.versionColumn.toList.mapM (columnOf m)) fun version => .ok ?_
  refine (Draft.Alike.mapM ?_).bind fun _ => .pure _
  exact List.forall₂_same.2 fun c _ => Alike.equation _ c _ _

theorem agree_update (h : values.SameColumns m others) (current read : Record) :
    Agree Prepared.Alike (update m current values) (update m read others) := by
  refine (agree_identity _ current read).bind fun _ _ hidentity => .ok ?_
  exact ((alike_assignments h).bind fun _ => hidentity.bind fun _ => .pure _).prepare

theorem agree_delete (current read : Record) :
    Agree Prepared.Alike (delete m current) (delete m read) := by
  refine (agree_identity _ current read).bind fun _ _ hidentity => .ok ?_
  exact (hidentity.bind fun _ => .pure _).prepare

end

/-- No value reaches the text of a statement. Plans that differ in nothing but the values of their
conditions are selected and counted by the same texts with as many parameters, or fail with the same
error. So are records with the same columns written, where an inserted key is null in both or in
neither, and a deletion has the same text for all records. -/
theorem statements_alike {d : SchemaDecl} {schema : Schema} (hd : d.resolve = .ok schema) :
    (∀ p q : Plan, p.SameShape q →
      Agree Prepared.Alike (select schema p) (select schema q) ∧
        Agree Prepared.Alike (count schema p) (count schema q)) ∧
    ∀ m ∈ schema.models, ∀ values others : Record, values.SameColumns m others →
      ((values.get m.primaryKey.name).isNull = (others.get m.primaryKey.name).isNull →
        (insert m values).Alike (insert m others)) ∧
      ∀ current read : Record,
        Agree Prepared.Alike (update m current values) (update m read others) ∧
          Agree Prepared.Alike (delete m current) (delete m read) := by
  refine ⟨fun p q h => ⟨agree_select h, agree_count h⟩, fun m hm values others h => ?_⟩
  refine ⟨fun hkey => alike_insert h fun c hc hflag => ?_,
    fun current read => ⟨agree_update h current read, agree_delete current read⟩⟩
  rw [SchemaDecl.eq_key_of_flag hd hm hc hflag]
  exact hkey

end Sql

/-! ## Notes with a text -/

/-- The notes with a text, or with one of two numbers. -/
def Plan.notesWith (text : String) (first second : Int64) : Plan :=
  (Plan.ofModel .note).filter
    (.any [.eq "text" (.text text), .isIn "id" [.int first, .int second]])

theorem Plan.sameShape_notesWith (text other : String) (first second third fourth : Int64) :
    (notesWith text first second).SameShape (notesWith other third fourth) :=
  ⟨(notesWith other third fourth).predicates,
    .cons (.any (.cons (.eq "text" rfl) (.cons (.isIn "id" rfl) .nil))) .nil, rfl⟩

namespace Sql

/-- A text that looks like the end of a statement stays out of the text that counts the notes with
it, and out of the text that inserts a note with it. -/
theorem statements_alike_notes :
    (∃ q r, count .notes (.notesWith "mine" 1 2) = .ok q ∧
      count .notes (.notesWith "'; DROP TABLE note; --" 3 4) = .ok r ∧ q.text = r.text ∧
      q.params.length = 3 ∧ r.params.length = 3) ∧
    (insert .note (.ofList [("text", .text "mine")])).text =
      (insert .note (.ofList [("text", .text "'); DROP TABLE note; --")])).text := by
  obtain ⟨hplans, hrecords⟩ := statements_alike SchemaDecl.resolve_notes
  constructor
  · obtain ⟨-, hcount⟩ := hplans _ _
      (Plan.sameShape_notesWith "mine" "'; DROP TABLE note; --" 1 2 3 4)
    exact ⟨_, _, rfl, rfl, (Agree.ok_iff.1 hcount).1, rfl, rfl⟩
  · obtain ⟨hinsert, -⟩ := hrecords .note (List.mem_singleton.2 rfl)
      (.ofList [("text", .text "mine")]) (.ofList [("text", .text "'); DROP TABLE note; --")])
      (by decide)
    exact (hinsert rfl).1

end Sql

end RecordApi
