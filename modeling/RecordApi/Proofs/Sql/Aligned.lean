import RecordApi.Proofs.Schema.Resolved
import RecordApi.Proofs.Sql.Compiled
import RecordApi.Proofs.Sql.Draft
import RecordApi.Proofs.Sql.Token

/-!
# Markers and names in the text of a statement

A part of a statement fits (`Statement.Fits`) if its text can be read, with names of the schema and
with markers of some numbers. A draft is aligned if what it makes fits, with the numbers of the
values that it binds. So the markers in the text of a statement are one for each of its parameters,
in their order, and its names are those of the schema, whatever characters are in them
(`statements_aligned`).
-/

namespace RecordApi

/-- The names of a schema: those of its database schemas, tables and columns. -/
def Schema.Names (s : Schema) (name : String) : Prop :=
  ∃ m ∈ s.models, m.schemaName = some name ∨ m.tableName = name ∨ ∃ c ∈ m.columns, c.name = name

namespace Sql

variable {named : String → Prop} {numbers more : List Nat} {s t : Statement}

/-! ## Parts that fit -/

/-- Words that can be read in front of everything. -/
def leads (w : String) : Bool :=
  (Piece.words w).legible && closes w

/-- Words that can be read behind everything. -/
def trails (w : String) : Bool :=
  (Piece.words w).legible && opens w

/-- Words that can be read between everything. -/
def glues (w : String) : Bool :=
  trails w && leads w

theorem glues_eq_true_iff {w : String} :
    glues w = true ↔ (Piece.words w).legible = true ∧ opens w = true ∧ closes w = true := by
  unfold glues trails leads
  simp only [Bool.and_eq_true]
  tauto

theorem leads_append {v w : String} (hv : (Piece.words v).legible = true) (hw : glues w = true) :
    leads (v ++ w) = true := by
  obtain ⟨hlegible, hopens, hcloses⟩ := glues_eq_true_iff.1 hw
  exact Bool.and_eq_true_iff.2
    ⟨Piece.legible_append hv hlegible (.inr hopens), closes_append hcloses⟩

theorem trails_append {v w : String} (hv : glues v = true)
    (hw : (Piece.words w).legible = true) : trails (v ++ w) = true := by
  obtain ⟨hlegible, hopens, hcloses⟩ := glues_eq_true_iff.1 hv
  exact Bool.and_eq_true_iff.2
    ⟨Piece.legible_append hlegible hw (.inl hcloses), opens_append hopens⟩

theorem glues_append {u v w : String} (hu : glues u = true)
    (hv : (Piece.words v).legible = true) (hw : glues w = true) : glues (u ++ v ++ w) = true := by
  obtain ⟨hlegible, hopens⟩ := Bool.and_eq_true_iff.1 (trails_append hu hv)
  obtain ⟨hlegible', hopens', hcloses⟩ := glues_eq_true_iff.1 hw
  exact glues_eq_true_iff.2 ⟨Piece.legible_append hlegible hlegible' (.inr hopens'),
    opens_append hopens, closes_append hcloses⟩

namespace Statement

/-- A statement begins with an open character, if it has any part. -/
def Opens (s : Statement) : Prop :=
  ∀ p ∈ s.head?, p.opens = true

/-- A statement can be read, has names of a certain kind only, and markers with certain numbers. -/
structure Fits (named : String → Prop) (numbers : List Nat) (s : Statement) : Prop where
  legible : s.Legible
  names : ∀ name, .name name ∈ s → named name
  markers : s.filterMap Piece.marker? = numbers

namespace Fits

theorem nil : Fits named [] [] :=
  ⟨⟨by simp, .nil⟩, by simp, rfl⟩

theorem words {w : String} (h : (Piece.words w).legible = true) : Fits named [] [.words w] :=
  ⟨⟨by simpa using h, .singleton _⟩, by simp, rfl⟩

theorem name {n : String} (h : named n) : Fits named [] [.name n] :=
  ⟨⟨by simp [Piece.legible], .singleton _⟩, by simpa using h, rfl⟩

theorem marker (n : Nat) : Fits named [n] [.marker n] :=
  ⟨⟨by simp [Piece.legible], .singleton _⟩, by simp, rfl⟩

theorem append (hs : s.Fits named numbers) (ht : t.Fits named more)
    (h : (∀ p ∈ s.getLast?, p.closes = true) ∨ t.Opens) :
    (s ++ t).Fits named (numbers ++ more) := by
  refine ⟨⟨?_, ?_⟩, ?_, ?_⟩
  · exact fun p hp => (List.mem_append.1 hp).elim (hs.legible.parts p) (ht.legible.parts p)
  · refine List.isChain_append.2 ⟨hs.legible.apart, ht.legible.apart, fun p hp q hq => ?_⟩
    exact h.imp (fun h => h p hp) (fun h => h q hq)
  · exact fun n hn => (List.mem_append.1 hn).elim (hs.names n) (ht.names n)
  · rw [List.filterMap_append, hs.markers, ht.markers]

/-- Words stand in front of a part. -/
theorem led {w : String} (ht : t.Fits named more) (hw : leads w = true) :
    Fits named more ([Piece.words w] ++ t) := by
  obtain ⟨hlegible, hcloses⟩ := Bool.and_eq_true_iff.1 hw
  exact append (words hlegible) ht (.inl fun p hp => by cases hp; exact hcloses)

/-- Words stand behind a part. -/
theorem trailed {w : String} (hs : s.Fits named numbers) (hw : trails w = true) :
    (s ++ [Piece.words w]).Fits named numbers := by
  obtain ⟨hlegible, hopens⟩ := Bool.and_eq_true_iff.1 hw
  have h := append hs (words hlegible) (.inr fun p hp => by cases hp; exact hopens)
  rwa [List.append_nil] at h

/-- Words stand between two parts. -/
theorem glued {w : String} (hs : s.Fits named numbers) (ht : t.Fits named more)
    (hw : glues w = true) : (s ++ [Piece.words w] ++ t).Fits named (numbers ++ more) := by
  obtain ⟨htrails, hleads⟩ := Bool.and_eq_true_iff.1 hw
  have hcloses := (Bool.and_eq_true_iff.1 hleads).2
  refine append (hs.trailed htrails) ht (.inl fun p hp => ?_)
  obtain rfl : Piece.words w = p := by simpa using hp
  exact hcloses

theorem glued_cons {w : String} (hs : s.Fits named numbers) (ht : t.Fits named more)
    (hw : glues w = true) : (s ++ Piece.words w :: t).Fits named (numbers ++ more) := by
  rw [List.append_cons]
  exact hs.glued ht hw

end Fits

/-- Several parts fit, with their numbers one after the other. -/
inductive FitEach (named : String → Prop) : List Nat → List Statement → Prop
  | nil : FitEach named [] []
  | cons {numbers more : List Nat} {s : Statement} {rest : List Statement}
      (h : s.Fits named numbers) (hrest : FitEach named more rest) :
      FitEach named (numbers ++ more) (s :: rest)

namespace FitEach

variable {parts others : List Statement}

theorem of_forall (h : ∀ s ∈ parts, s.Fits named []) : FitEach named [] parts := by
  induction parts with
  | nil => exact .nil
  | cons s rest ih =>
      obtain ⟨hs, hrest⟩ := List.forall_mem_cons.1 h
      exact .cons hs (ih hrest)

theorem eq_nil (h : FitEach named numbers []) : numbers = [] := by
  cases h
  rfl

theorem append (h : FitEach named numbers parts) (hothers : FitEach named more others) :
    FitEach named (numbers ++ more) (parts ++ others) := by
  induction h with
  | nil => exact hothers
  | cons hs _ ih =>
      rw [List.append_assoc]
      exact .cons hs ih

theorem join {w : String} (h : FitEach named numbers parts) (hw : glues w = true) :
    (Statement.join w parts).Fits named numbers := by
  induction h with
  | nil => exact .nil
  | cons hs hrest ih =>
      cases hrest with
      | nil => simpa [Statement.join] using hs
      | cons ht hrest =>
          rw [join_cons_cons]
          exact hs.glued_cons ih hw

end FitEach

end Statement

/-! ## Fixed parts -/

theorem legible_repr (n : Nat) : (Piece.words n.repr).legible = true := by
  simp [Piece.legible, tokens?_word (by simp) fun _ => isWordChar_of_mem_repr, Token.isPlain]

theorem legible_aliasWord (source : Alias) : (Piece.words source.word).legible = true := by
  simp [Piece.legible, tokens?_aliasWord, Token.isPlain]

theorem qualified_fits (source : Alias) {n : String} (h : named n) :
    (qualified source n).Fits named [] := by
  exact Statement.Fits.led (.name h) (leads_append (legible_aliasWord source) (by decide))

section

variable {schema : Schema} {m target : Model}

theorem names_of_mem_columns (hm : m ∈ schema.models) {c : Column} (hc : c ∈ m.columns) :
    schema.Names c.name :=
  ⟨m, hm, .inr (.inr ⟨c, hc, rfl⟩)⟩

theorem column_fits (hnamed : ∀ n, schema.Names n → named n) (hm : m ∈ schema.models)
    {name : String} {c : Column} (hc : columnOf m name = .ok c) (source : Alias) :
    (qualified source c.name).Fits named [] :=
  qualified_fits source
    (hnamed _ (names_of_mem_columns hm (Model.mem_of_column? (columnOf_eq_ok_iff.1 hc))))

theorem table_fits (hnamed : ∀ n, schema.Names n → named n) (hm : m ∈ schema.models) :
    (Statement.table m).Fits named [] := by
  have htable : Statement.Fits named [] [.name m.tableName] :=
    .name (hnamed _ ⟨m, hm, .inr (.inl rfl)⟩)
  unfold Statement.table
  cases hs : m.schemaName with
  | none => exact htable
  | some n => exact Statement.Fits.glued (.name (hnamed _ ⟨m, hm, .inl hs⟩)) htable (by decide)

/-- The rows that a subquery takes from the target of a relationship. -/
theorem join_fits {d : SchemaDecl} (hd : d.resolve = .ok schema)
    (hnamed : ∀ n, schema.Names n → named n) (hm : m ∈ schema.models) {name : String}
    {link : Relationship} (h : relationshipOf schema m name = .ok (link, target))
    (inner outer : Alias) :
    (Join.pieces ⟨target, inner, link.remoteColumn, outer, link.localColumn⟩).Fits named [] := by
  obtain ⟨hlink, htarget⟩ := relationshipOf_eq_ok_iff.1 h
  have hmem := Schema.mem_of_model? htarget
  obtain ⟨⟨near, hnear, hnearName⟩, far, hfar, hfarName⟩ :=
    SchemaDecl.link_columns hd hm hlink htarget
  have hglue : glues (" " ++ inner.word ++ " WHERE ") = true :=
    glues_append (by decide) (legible_aliasWord inner) (by decide)
  have hlocal : named link.localColumn := hnearName ▸ hnamed _ (names_of_mem_columns hm hnear)
  have hremote : named link.remoteColumn := hfarName ▸ hnamed _ (names_of_mem_columns hmem hfar)
  have hfrom := (table_fits hnamed hmem).glued (qualified_fits inner hremote) hglue
  exact hfrom.glued (qualified_fits outer hlocal) (by decide)

end

/-! ## Drafts -/

/-- What a draft makes fits, with the numbers of the values that it binds. -/
def Draft.Aligned (named : String → Prop) (d : Draft Statement) : Prop :=
  d.Yields fun start values s => s.Fits named (List.range' (start + 1) values.length)

/-- The statements that a draft makes fit, with the numbers of the values that it binds. -/
def Draft.EachAligned (named : String → Prop) (d : Draft (List Statement)) : Prop :=
  d.Yields fun start values parts =>
    Statement.FitEach named (List.range' (start + 1) values.length) parts

theorem range'_append_values (start : Nat) (values others : List Bound) :
    List.range' (start + 1) values.length ++
        List.range' (start + values.length + 1) others.length =
      List.range' (start + 1) (values ++ others).length := by
  rw [List.length_append, ← List.range'_append_1, Nat.add_right_comm]

theorem Draft.EachAligned.mapM {α : Type} {f : α → Draft Statement} {xs : List α}
    (h : ∀ x ∈ xs, (f x).Aligned named) : Draft.EachAligned named (xs.mapM f) := by
  refine Draft.Yields.mapM (R := fun _ start values parts =>
    Statement.FitEach named (List.range' (start + 1) values.length) parts) h (fun _ => .nil) ?_
  intro _ _ start values s others parts hs hparts
  rw [← range'_append_values]
  exact .cons hs hparts

theorem trails_cast {type : ColumnType}
    (hgeometry : ∀ kind dimension, type ≠ .geometry kind dimension)
    (hother : ∀ name, type ≠ .other name) : trails ("::" ++ type.cast) = true := by
  cases type with
  | dateTime zone => cases zone <;> decide
  | geometry kind dimension => exact absurd rfl (hgeometry kind dimension)
  | other name => exact absurd rfl (hother name)
  | _ => decide

theorem marked_aligned (named : String → Prop) (value : Bound) :
    (Draft.marked value).Yields fun start values p =>
      Statement.Fits named (List.range' (start + 1) values.length) [p] :=
  .marked fun start => .marker (start + 1)

theorem placeholder_aligned (c : Column) (value : Value) :
    (placeholder c value).Aligned named := by
  refine (marked_aligned named _).map fun _ _ p hp => ?_
  split
  · exact Statement.Fits.led (hp.trailed (by decide)) (by decide)
  · exact hp
  · next hgeometry hother => exact hp.trailed (trails_cast hgeometry hother)

namespace Condition

theorem group_fits {between none : String} {parts : List Statement}
    (h : Statement.FitEach named numbers parts) (hbetween : glues between = true)
    (hnone : (Piece.words none).legible = true) :
    (group between none parts).Fits named numbers := by
  unfold group
  cases h with
  | nil => exact .words hnone
  | cons hs hrest =>
      exact Statement.Fits.trailed
        (.led (Statement.FitEach.join (.cons hs hrest) hbetween) (by decide)) (by decide)

variable {d : SchemaDecl} {schema : Schema}

theorem aligned_isIn (hnamed : ∀ n, schema.Names n → named n) {m : Model} (hm : m ∈ schema.models)
    {name : String} {c : Column} (hc : columnOf m name = .ok c) (source : Alias)
    (values : List Value) : (isIn ⟨source, c⟩ values).draft.Aligned named := by
  unfold draft
  split
  · exact .pure fun _ => .words (by decide)
  · have hvalues : Draft.EachAligned named (values.mapM (placeholder c)) :=
      .mapM fun v _ => placeholder_aligned c v
    refine hvalues.map fun _ _ _ h => ?_
    have hcolumn := column_fits hnamed hm hc source
    exact (hcolumn.glued (h.join (by decide)) (by decide)).trailed (by decide)

mutual

/-- The condition of a predicate on a model of a resolved schema is aligned. -/
theorem aligned_ofPredicate (hd : d.resolve = .ok schema) (hnamed : ∀ n, schema.Names n → named n) :
    ∀ (p : Predicate) {m : Model}, m ∈ schema.models → ∀ (source : Alias) (used : Nat)
      {c : Condition} {n : Nat}, ofPredicate schema m source used p = .ok (c, n) →
        c.draft.Aligned named
  | .eq name value, m, hm, source, _, _, _, h => by
      obtain ⟨c, hc, h⟩ := bind_eq_ok_iff.1 h
      cases h
      have hcolumn := column_fits hnamed hm hc source
      split
      · exact .pure fun _ => hcolumn.trailed (by decide)
      · exact (placeholder_aligned c value).map fun _ _ _ hs => hcolumn.glued hs (by decide)
  | .isNull name, m, hm, source, _, _, _, h => by
      obtain ⟨c, hc, h⟩ := bind_eq_ok_iff.1 h
      cases h
      have hcolumn := column_fits hnamed hm hc source
      exact .pure fun _ => hcolumn.trailed (by decide)
  | .notNull name, m, hm, source, _, _, _, h => by
      obtain ⟨c, hc, h⟩ := bind_eq_ok_iff.1 h
      cases h
      have hcolumn := column_fits hnamed hm hc source
      exact .pure fun _ => hcolumn.trailed (by decide)
  | .like name pattern ignoresCase, m, hm, source, _, _, _, h => by
      obtain ⟨c, hc, h⟩ := bind_eq_ok_iff.1 h
      cases h
      have hcolumn := column_fits hnamed hm hc source
      refine (marked_aligned named (.text pattern)).map fun _ _ _ hp => ?_
      cases ignoresCase <;> exact hcolumn.glued (hp.trailed (by decide)) (by decide)
  | .compare name comparison value, m, hm, source, _, _, _, h => by
      obtain ⟨c, hc, h⟩ := bind_eq_ok_iff.1 h
      cases h
      have hcolumn := column_fits hnamed hm hc source
      have hsign : glues (" " ++ comparison.sign ++ " ") = true := by cases comparison <;> decide
      exact (placeholder_aligned c value).map fun _ _ _ hs => hcolumn.glued hs hsign
  | .isIn name values, m, hm, source, _, _, _, h => by
      obtain ⟨c, hc, h⟩ := bind_eq_ok_iff.1 h
      cases h
      exact aligned_isIn hnamed hm hc source values
  | .all ps, m, hm, source, used, _, _, h => by
      obtain ⟨⟨cs, n⟩, hps, h⟩ := bind_eq_ok_iff.1 h
      cases h
      exact (aligned_ofPredicates hd hnamed ps hm source used hps).map fun _ _ _ hs =>
        group_fits hs (by decide) (by decide)
  | .any ps, m, hm, source, used, _, _, h => by
      obtain ⟨⟨cs, n⟩, hps, h⟩ := bind_eq_ok_iff.1 h
      cases h
      exact (aligned_ofPredicates hd hnamed ps hm source used hps).map fun _ _ _ hs =>
        group_fits hs (by decide) (by decide)
  | .not p, m, hm, source, used, _, _, h => by
      obtain ⟨⟨c, n⟩, hp, h⟩ := bind_eq_ok_iff.1 h
      cases h
      exact (aligned_ofPredicate hd hnamed p hm source used hp).map fun _ _ _ hs =>
        (hs.led (by decide)).trailed (by decide)
  | .linked name p, m, hm, source, used, _, _, h => by
      obtain ⟨⟨link, target⟩, hlink, h⟩ := bind_eq_ok_iff.1 h
      obtain ⟨⟨c, n⟩, hp, h⟩ := bind_eq_ok_iff.1 h
      cases h
      have hjoin := join_fits hd hnamed hm hlink (.sub (used + 1)) source
      have htarget := Schema.mem_of_model? (relationshipOf_eq_ok_iff.1 hlink).2
      exact (aligned_ofPredicate hd hnamed p htarget _ _ hp).map fun _ _ _ hs =>
        ((hjoin.led (by decide)).glued hs (by decide)).trailed (by decide)

theorem aligned_ofPredicates (hd : d.resolve = .ok schema)
    (hnamed : ∀ n, schema.Names n → named n) :
    ∀ (ps : List Predicate) {m : Model}, m ∈ schema.models → ∀ (source : Alias) (used : Nat)
      {cs : List Condition} {n : Nat}, ofPredicates schema m source used ps = .ok (cs, n) →
        (drafts cs).EachAligned named
  | [], _, _, _, _, _, _, h => by
      cases h
      exact .pure fun _ => .nil
  | p :: rest, m, hm, source, used, _, _, h => by
      obtain ⟨⟨c, k⟩, hp, h⟩ := bind_eq_ok_iff.1 h
      obtain ⟨⟨cs, n⟩, hrest, h⟩ := bind_eq_ok_iff.1 h
      cases h
      refine (aligned_ofPredicate hd hnamed p hm source used hp).map₂
        (aligned_ofPredicates hd hnamed rest hm source k hrest) fun _ _ _ _ _ hs hparts => ?_
      rw [← range'_append_values]
      exact .cons hs hparts

end

end Condition

/-! ## Queries -/

section

variable {d : SchemaDecl} {schema : Schema} {m : Model}

theorem whereDraft_aligned (hd : d.resolve = .ok schema)
    (hnamed : ∀ n, schema.Names n → named n) {p : Plan} (hm : p.model ∈ schema.models) {used : Nat}
    {conditions : Draft Statement} (h : whereDraft schema p used = .ok conditions) :
    conditions.Yields fun start values s =>
      s.Fits named (List.range' (start + 1) values.length) ∧ s.Opens := by
  obtain ⟨⟨cs, n⟩, hcs, h⟩ := bind_eq_ok_iff.1 h
  have haligned := Condition.aligned_ofPredicates hd hnamed p.predicates hm .main used hcs
  dsimp only at h
  split at h
  · cases h
    exact .pure fun _ => ⟨.nil, nofun⟩
  · cases h
    refine haligned.map fun _ _ _ hs => ⟨?_, fun p hp => ?_⟩
    · exact Statement.Fits.led (hs.join (by decide)) (by decide)
    · cases hp
      decide

theorem readColumn_fits {reference : Statement} (h : reference.Fits named []) (c : Column) :
    (readColumn reference c).Fits named [] := by
  unfold readColumn
  split
  · exact (h.led (by decide)).trailed (by decide)
  · exact h.trailed (by decide)
  · next hgeometry hother => exact h.trailed (trails_cast hgeometry hother)

theorem selectList_fits (hnamed : ∀ n, schema.Names n → named n) (hm : m ∈ schema.models)
    {reference : String → Statement} (h : ∀ n, named n → (reference n).Fits named []) :
    (selectList reference m).Fits named [] := by
  refine (Statement.FitEach.of_forall fun s hs => ?_).join (by decide)
  obtain ⟨c, hc, rfl⟩ := List.mem_map.1 hs
  have hname : named c.name := hnamed _ (names_of_mem_columns hm hc)
  exact (readColumn_fits (h _ hname) c).glued_cons (.name hname) (by decide)

theorem projectionPieces_fits (hd : d.resolve = .ok schema)
    (hnamed : ∀ n, schema.Names n → named n) (hm : m ∈ schema.models) {number : Nat}
    {p : Projection} {s : Statement} (h : projectionPieces schema m number p = .ok s) :
    s.Fits named [] := by
  cases p with
  | count name =>
      obtain ⟨⟨link, target⟩, hlink, h⟩ := bind_eq_ok_iff.1 h
      cases h
      exact ((join_fits hd hnamed hm hlink _ _).led (by decide)).trailed (by decide)
  | related name columnName =>
      obtain ⟨⟨link, target⟩, hlink, h⟩ := bind_eq_ok_iff.1 h
      obtain ⟨c, hc, h⟩ := bind_eq_ok_iff.1 h
      have htarget := Schema.mem_of_model? (relationshipOf_eq_ok_iff.1 hlink).2
      have hvalue := readColumn_fits (column_fits hnamed htarget hc (.sub number)) c
      have hjoin := join_fits hd hnamed hm hlink (.sub number) .main
      dsimp only at h
      split at h
      · cases h
        exact ((hvalue.led (by decide)).glued hjoin (by decide)).trailed (by decide)
      · cases h
        exact ((hvalue.led (by decide)).glued hjoin (by decide)).trailed (by decide)

theorem extraPieces_fits (hd : d.resolve = .ok schema)
    (hnamed : ∀ n, schema.Names n → named n) (hm : m ∈ schema.models) {number : Nat}
    {ps : List Projection} {parts : List Statement}
    (hextra : ∀ i < ps.length, named (extraName (number + i)))
    (h : extraPieces schema m number ps = .ok parts) : Statement.FitEach named [] parts := by
  induction ps generalizing number parts with
  | nil =>
      cases h
      exact .nil
  | cons p rest ih =>
      obtain ⟨value, hvalue, h⟩ := bind_eq_ok_iff.1 h
      obtain ⟨values, hvalues, h⟩ := bind_eq_ok_iff.1 h
      cases h
      have hvalue := projectionPieces_fits hd hnamed hm hvalue
      have hrest := ih (fun i hi => by
        have h := hextra (i + 1) (by simpa using hi)
        rwa [Nat.add_comm i 1, ← Nat.add_assoc] at h) hvalues
      have hname : Statement.Fits named [] [.name (extraName number)] :=
        .name (hextra 0 (by simp))
      exact .cons (hvalue.glued_cons hname (by decide)) hrest

theorem sortPieces_fits (hnamed : ∀ n, schema.Names n → named n) (hm : m ∈ schema.models)
    {key : SortKey} {s : Statement} (h : sortPieces m key = .ok s) : s.Fits named [] := by
  obtain ⟨c, hc, h⟩ := bind_eq_ok_iff.1 h
  cases h
  have hcolumn := column_fits hnamed hm hc .main
  rw [Model.name_of_column? (columnOf_eq_ok_iff.1 hc)] at hcolumn
  split
  · exact hcolumn.trailed (by decide)
  · rwa [List.append_nil]

theorem boundary_fits {word : String} (hword : glues (" " ++ word ++ " ") = true)
    (n : Option Nat) : (boundary word n).Fits named [] ∧ (boundary word n).Opens := by
  cases n with
  | none => exact ⟨.nil, nofun⟩
  | some n =>
      have htrails := trails_append hword (legible_repr n)
      obtain ⟨hlegible, hopens⟩ := Bool.and_eq_true_iff.1 htrails
      exact ⟨.words hlegible, fun p hp => by cases hp; exact hopens⟩

theorem order_fits (hd : d.resolve = .ok schema) (hnamed : ∀ n, schema.Names n → named n)
    (hm : m ∈ schema.models) {keys : List SortKey} {sort : List Statement}
    (h : keys.mapM (sortPieces m) = .ok sort) :
    (Statement.join ", " (sort ++ [qualified .main m.primaryKey.name])).Fits named [] := by
  refine (Statement.FitEach.of_forall fun s hs => ?_).join (by decide)
  rcases List.mem_append.1 hs with hs | hs
  · obtain ⟨key, -, hkey⟩ := mem_of_mapM_eq_ok h hs
    exact sortPieces_fits hnamed hm hkey
  · obtain rfl := List.mem_singleton.1 hs
    have hkey := ((SchemaDecl.wellFormed hd).models m hm).key_mem
    exact qualified_fits .main (hnamed _ (names_of_mem_columns hm hkey))

/-- A prepared statement fits, with the numbers of its parameters. -/
def Prepared.Fits (named : String → Prop) (q : Prepared) : Prop :=
  q.statement.Fits named (List.range' 1 q.params.length)

theorem Draft.Aligned.prepare {draft : Draft Statement} (h : draft.Aligned named) :
    (Draft.prepare draft).Fits named :=
  Draft.Yields.prepare h

theorem select_fits (hd : d.resolve = .ok schema) {p : Plan} (hm : p.model ∈ schema.models)
    {q : Prepared} (h : select schema p = .ok q) :
    q.Fits fun name => schema.Names name ∨ ∃ i < p.extra.length, name = extraName i := by
  obtain ⟨extra, hextra, h⟩ := bind_eq_ok_iff.1 h
  obtain ⟨conditions, hconditions, h⟩ := bind_eq_ok_iff.1 h
  obtain ⟨sort, hsort, h⟩ := bind_eq_ok_iff.1 h
  cases h
  generalize hkind : (fun name => schema.Names name ∨ ∃ i < p.extra.length, name = extraName i) =
    named
  have hnamed : ∀ n, schema.Names n → named n := fun n hn => hkind ▸ .inl hn
  have hlist := selectList_fits hnamed hm fun n hn => qualified_fits .main hn
  have hextra := extraPieces_fits hd hnamed hm
    (fun i hi => hkind ▸ .inr ⟨i, hi, by rw [Nat.zero_add]⟩) hextra
  have hselected : (Statement.join ", " (selectList (qualified .main) p.model :: extra)).Fits
      named [] := (Statement.FitEach.cons hlist hextra).join (by decide)
  have horder := order_fits hd hnamed hm hsort
  obtain ⟨hlimit, hlimitOpens⟩ : (boundary "LIMIT" p.limit).Fits named [] ∧ _ :=
    boundary_fits (by decide) p.limit
  obtain ⟨hoffset, hoffsetOpens⟩ : (boundary "OFFSET" p.offset).Fits named [] ∧ _ :=
    boundary_fits (by decide) p.offset
  refine Draft.Aligned.prepare ((whereDraft_aligned hd hnamed hm hconditions).map ?_)
  rintro start values s ⟨hs, hopens⟩
  have hfrom : Statement.Fits named [] ([Piece.words "SELECT "] ++
      Statement.join ", " (selectList (qualified .main) p.model :: extra) ++
      [Piece.words " FROM "] ++ Statement.table p.model ++ [Piece.words " main"]) :=
    ((hselected.led (by decide)).glued (table_fits hnamed hm) (by decide)).trailed (by decide)
  have hordered := (hfrom.append hs (.inr hopens)).glued (w := " ORDER BY ") horder (by decide)
  have h := (hordered.append hlimit (.inr hlimitOpens)).append hoffset (.inr hoffsetOpens)
  simpa only [List.append_nil, List.nil_append] using h

theorem count_fits (hd : d.resolve = .ok schema) {p : Plan} (hm : p.model ∈ schema.models)
    {q : Prepared} (h : count schema p = .ok q) : q.Fits schema.Names := by
  obtain ⟨conditions, hconditions, h⟩ := bind_eq_ok_iff.1 h
  cases h
  have hnamed : ∀ n, schema.Names n → schema.Names n := fun _ hn => hn
  refine Draft.Aligned.prepare ((whereDraft_aligned hd hnamed hm hconditions).map ?_)
  rintro start values s ⟨hs, hopens⟩
  have hfrom : Statement.Fits schema.Names [] ([Piece.words "SELECT COUNT(*) FROM "] ++
      Statement.table p.model ++ [Piece.words " main"]) :=
    ((table_fits hnamed hm).led (by decide)).trailed (by decide)
  exact hfrom.append hs (.inr hopens)

end

/-! ## Statements that write -/

section

variable {d : SchemaDecl} {schema : Schema} {m : Model}

theorem insert_fits (hm : m ∈ schema.models) (values : Record) :
    (insert m values).Fits schema.Names := by
  have hnamed : ∀ n, schema.Names n → schema.Names n := fun _ hn => hn
  have htable := (table_fits hnamed hm).led (w := "INSERT INTO ") (by decide)
  have hreturning : (selectList (fun name => [.name name]) m).Fits schema.Names [] :=
    selectList_fits hnamed hm fun _ hn => .name hn
  have hcolumns : Statement.FitEach schema.Names []
      ((insertedColumns m values).map fun c => [.name c.name]) := by
    refine .of_forall fun s hs => ?_
    obtain ⟨c, hc, rfl⟩ := List.mem_map.1 hs
    exact .name (names_of_mem_columns hm (List.mem_filter.1 hc).1)
  have hvalues : Draft.EachAligned schema.Names
      ((insertedColumns m values).mapM fun c => placeholder c (values.get c.name)) :=
    .mapM fun c _ => placeholder_aligned c _
  cases hcs : insertedColumns m values with
  | nil =>
      have hdefaults := htable.trailed (w := " DEFAULT VALUES") (by decide)
      have h := hdefaults.glued_cons (w := " RETURNING ") hreturning (by decide)
      unfold insert
      rw [hcs]
      exact Draft.Aligned.prepare (.pure fun _ => h)
  | cons c rest =>
      have hinto := htable.glued (w := " (") (hcolumns.join (w := ", ") (by decide)) (by decide)
      unfold insert
      rw [hcs] at hinto hvalues ⊢
      refine Draft.Aligned.prepare (hvalues.map fun _ _ _ hs => ?_)
      have hlisted := hinto.glued (w := ") VALUES (") (hs.join (w := ", ") (by decide)) (by decide)
      have h := (hlisted.trailed (w := ")") (by decide)).glued_cons (w := " RETURNING ") hreturning
        (by decide)
      rwa [List.append_nil] at h

theorem equation_aligned {reference : String → Statement}
    (h : ∀ n, named n → (reference n).Fits named []) {c : Column} (hc : named c.name)
    (value : Value) : (equation reference c value).Aligned named :=
  (placeholder_aligned c value).map fun _ _ _ hs => (h _ hc).glued hs (by decide)

theorem assignments_aligned (hd : d.resolve = .ok schema) (hm : m ∈ schema.models)
    (changes : Record) : (assignments m changes).EachAligned schema.Names := by
  have hwf := (SchemaDecl.wellFormed hd).models m hm
  have hcolumns : Draft.EachAligned schema.Names ((updatedColumns m changes).mapM fun c =>
      equation (fun name => [.name name]) c (changes.get c.name)) :=
    .mapM fun c hc => equation_aligned (fun _ hn => .name hn)
      (names_of_mem_columns hm (List.mem_filter.1 hc).1) _
  have hversion : Statement.FitEach schema.Names [] (m.versionColumn.toList.map fun v =>
      [Piece.name v, .words " = "] ++ qualified .main v ++ [.words " + 1"]) := by
    refine .of_forall fun s hs => ?_
    obtain ⟨v, hv, rfl⟩ := List.mem_map.1 hs
    obtain ⟨c, hc, rfl⟩ := hwf.version v (Option.mem_toList.1 hv)
    have hname := names_of_mem_columns hm hc
    have hset := Statement.Fits.glued (w := " = ") (.name hname) (qualified_fits .main hname)
      (by decide)
    exact hset.trailed (by decide)
  refine Draft.Yields.fixed hcolumns fun start values columns hs => ?_
  dsimp only
  split
  · next hempty =>
    obtain ⟨rfl, -⟩ := List.append_eq_nil_iff.1 (List.isEmpty_iff.1 hempty)
    have hkey := names_of_mem_columns hm hwf.key_mem
    have hset := Statement.Fits.glued (w := " = ") (.name hkey) (qualified_fits .main hkey)
      (by decide)
    rw [hs.eq_nil]
    exact ⟨_, rfl, .cons hset .nil⟩
  · have h := hs.append hversion
    rw [List.append_nil] at h
    exact ⟨_, rfl, h⟩

theorem identity_aligned (hd : d.resolve = .ok schema) (hm : m ∈ schema.models)
    {reference : String → Statement}
    (href : ∀ n, schema.Names n → (reference n).Fits schema.Names []) {current : Record}
    {conditions : Draft Statement} (h : identity reference m current = .ok conditions) :
    conditions.Aligned schema.Names := by
  obtain ⟨version, hversion, h⟩ := bind_eq_ok_iff.1 h
  cases h
  have hconditions : Draft.EachAligned schema.Names ((m.primaryKey :: version).mapM fun c =>
      equation reference c (current.get c.name)) := by
    refine .mapM fun c hc => equation_aligned href (names_of_mem_columns hm ?_) _
    rcases List.mem_cons.1 hc with rfl | hc
    · exact ((SchemaDecl.wellFormed hd).models m hm).key_mem
    · obtain ⟨v, -, hv⟩ := mem_of_mapM_eq_ok hversion hc
      exact Model.mem_of_column? (columnOf_eq_ok_iff.1 hv)
  exact hconditions.map fun _ _ _ hs => hs.join (by decide)

theorem update_fits (hd : d.resolve = .ok schema) (hm : m ∈ schema.models)
    {current changes : Record} {q : Prepared} (h : update m current changes = .ok q) :
    q.Fits schema.Names := by
  obtain ⟨conditions, hconditions, h⟩ := bind_eq_ok_iff.1 h
  cases h
  have hnamed : ∀ n, schema.Names n → schema.Names n := fun _ hn => hn
  have htable := (table_fits hnamed hm).led (w := "UPDATE ") (by decide)
  have hreturning : (selectList (qualified .main) m).Fits schema.Names [] :=
    selectList_fits hnamed hm fun _ hn => qualified_fits .main hn
  have hconditions := identity_aligned hd hm (fun _ hn => qualified_fits .main hn) hconditions
  refine Draft.Aligned.prepare ((assignments_aligned hd hm changes).map₂ hconditions ?_)
  intro start values sets others s hsets hs
  have hset := htable.glued (w := " AS main SET ") (hsets.join (w := ", ") (by decide)) (by decide)
  have hwhere := (hset.glued (w := " WHERE ") hs (by decide)).glued (w := " RETURNING ") hreturning
    (by decide)
  rw [← range'_append_values]
  simpa only [List.append_nil, List.nil_append] using hwhere

theorem delete_fits (hd : d.resolve = .ok schema) (hm : m ∈ schema.models) {current : Record}
    {q : Prepared} (h : delete m current = .ok q) : q.Fits schema.Names := by
  obtain ⟨conditions, hconditions, h⟩ := bind_eq_ok_iff.1 h
  cases h
  have htable := (table_fits (fun _ hn => hn) hm).led (w := "DELETE FROM ") (by decide)
  have hconditions := identity_aligned hd hm (fun _ hn => .name hn) hconditions
  exact Draft.Aligned.prepare (hconditions.map fun _ _ _ hs => htable.glued hs (by decide))

end

/-- The text of a prepared statement can be read. Its markers are one for each parameter, in their
order, and its names are of a certain kind. -/
def Prepared.Aligned (named : String → Prop) (q : Prepared) : Prop :=
  ∃ tokens, tokens? q.text = some tokens ∧
    tokens.filterMap Token.marker? = List.range' 1 q.params.length ∧
    ∀ name ∈ tokens.filterMap Token.name?, named name

theorem Prepared.Fits.aligned {q : Prepared} (h : q.Fits named) : q.Aligned named := by
  obtain ⟨hlegible, hnames, hmarkers⟩ := h
  refine ⟨_, Statement.tokens?_text hlegible, ?_, fun name hname => hnames name ?_⟩
  · rw [Statement.filterMap_tokens (fun | .word _, _ | .sign _, _ => rfl) hlegible]
    exact hmarkers
  · rw [Statement.filterMap_tokens (fun | .word _, _ | .sign _, _ => rfl) hlegible] at hname
    obtain ⟨p, hp, hname⟩ := List.mem_filterMap.1 hname
    cases p with
    | name n =>
        cases hname
        exact hp
    | words w | marker n => cases hname

/-- The text of every statement for a resolved schema can be read: every quoted name in it ends, and
is a name of the schema or of a value beside the records, and the markers outside of the names are
those of the parameters, in their order and each once. -/
theorem statements_aligned {d : SchemaDecl} {schema : Schema} (hd : d.resolve = .ok schema) :
    (∀ p : Plan, p.model ∈ schema.models → ∀ q : Prepared,
      (select schema p = .ok q →
        q.Aligned fun name => schema.Names name ∨ ∃ i < p.extra.length, name = extraName i) ∧
      (count schema p = .ok q → q.Aligned schema.Names)) ∧
    ∀ m ∈ schema.models, ∀ current values : Record, (insert m values).Aligned schema.Names ∧
      ∀ q : Prepared, update m current values = .ok q ∨ delete m current = .ok q →
        q.Aligned schema.Names := by
  refine ⟨fun p hm q => ⟨fun h => (select_fits hd hm h).aligned,
    fun h => (count_fits hd hm h).aligned⟩, fun m hm current values =>
      ⟨(insert_fits hm values).aligned, fun q h => ?_⟩⟩
  exact (h.elim (update_fits hd hm) (delete_fits hd hm)).aligned

end Sql

/-! ## Names that look like markers -/

/-- A model with quotes and dollars in the names of its table and of a column. -/
def Model.oddlyNamed : Model where
  name := "odd"
  tableName := "odd\" $2"
  schemaName := none
  attributes := [.column ⟨"id", .integer, "integer", false, false, true⟩,
    .column ⟨"$1\" = ", .string, "text", true, false, false⟩]
  primaryKey := ⟨"id", .integer, "integer", false, false, true⟩
  unique := []
  versionColumn := none

/-- A schema with that model alone. -/
def Schema.oddlyNamed : Schema :=
  ⟨[.oddlyNamed], []⟩

/-- The description of a schema with that model alone. -/
def SchemaDecl.oddlyNamed : SchemaDecl where
  models := [{
    name := "odd"
    table := some "odd\" $2"
    schema := none
    primaryKey := "id"
    columns := [⟨"id", ⟨"integer", []⟩, false, false, none, none, none⟩,
      ⟨"$1\" = ", ⟨"text", []⟩, true, false, none, none, none⟩]
    relationships := []
    properties := []
    unique := []
    versionColumn := none
    comment := none }]

theorem SchemaDecl.resolve_oddlyNamed : SchemaDecl.oddlyNamed.resolve = .ok .oddlyNamed :=
  resolve_eq_of_parts (by decide +kernel)

namespace Sql

/-- The dollars in the names are no markers, and the only marker is that of the parameter. -/
theorem statements_aligned_oddlyNamed :
    ∃ q, count .oddlyNamed ((Plan.ofModel .oddlyNamed).filter (.eq "$1\" = " (.text "x"))) = .ok q ∧
      q.text = "SELECT COUNT(*) FROM \"odd\"\" $2\" main WHERE main.\"$1\"\" = \" = $1::text" ∧
      q.params.length = 1 ∧ q.Aligned Schema.oddlyNamed.Names := by
  refine ⟨_, rfl, by decide +kernel, rfl, ?_⟩
  obtain ⟨hplans, -⟩ := statements_aligned SchemaDecl.resolve_oddlyNamed
  exact (hplans ((Plan.ofModel .oddlyNamed).filter (.eq "$1\" = " (.text "x")))
    (List.mem_singleton.2 rfl) _).2 rfl

end Sql

end RecordApi
