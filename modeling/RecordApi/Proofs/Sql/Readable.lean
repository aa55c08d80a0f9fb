import RecordApi.Proofs.Sql.Aligned
import RecordApi.Proofs.Sql.Reading

/-!
# Fragments that can be read where they stand

Every fragment of a condition is read as the same condition in each place that it is written to:
between two `AND`s, behind a `NOT` and in parentheses. Its tokens make up whole parts (`Nests`),
none of which divides what stands around it (`Undivided`), and those parts are read as a single
condition (`Statement.ReadsAs`). The rest is one such lemma for every fragment: columns, values,
comparisons, lists, and the fragments that are made of others.
-/

namespace RecordApi.Sql

/-! ## Groups of tokens -/

/-- Tokens become parts of the group that is open where they stand. -/
def Nests (tokens : List Token) (parts : List Part) : Prop :=
  ∀ before outer rest, nest before outer (tokens ++ rest) = nest (before ++ parts) outer rest

namespace Nests

variable {tokens more : List Token} {parts others : List Part}

theorem nil : Nests [] [] := by
  intro before outer rest
  rw [List.nil_append, List.append_nil]

theorem append (h : Nests tokens parts) (hmore : Nests more others) :
    Nests (tokens ++ more) (parts ++ others) := by
  intro before outer rest
  rw [List.append_assoc, h, hmore, List.append_assoc]

theorem single (t : Token) (hopen : t ≠ .sign '(') (hclose : t ≠ .sign ')') :
    Nests [t] [.token t] := by
  intro before outer rest
  simp [nest, hopen, hclose]

/-- Tokens that are no parentheses stay as they are. -/
theorem of_forall (tokens : List Token) (h : ∀ t ∈ tokens, t ≠ .sign '(' ∧ t ≠ .sign ')') :
    Nests tokens (tokens.map .token) := by
  induction tokens with
  | nil => exact nil
  | cons t rest ih =>
      obtain ⟨⟨hopen, hclose⟩, hrest⟩ := List.forall_mem_cons.1 h
      exact (single t hopen hclose).append (ih hrest)

theorem group (h : Nests tokens parts) :
    Nests (.sign '(' :: (tokens ++ [.sign ')'])) [.close parts] := by
  intro before outer rest
  simp [nest, h [] (before :: outer)]

theorem of_eq (h : Nests tokens parts) (heq : more = tokens) : Nests more parts :=
  heq ▸ h

theorem nest_eq (h : Nests tokens parts) : nest [] [] tokens = some parts := by
  have h := h [] [] []
  rw [List.append_nil] at h
  exact h

end Nests

theorem parts?_text {q : Prepared} (h : q.statement.Legible) {parts : List Part}
    (hnests : Nests q.statement.tokens parts) : parts? q.text = some parts := by
  simp [parts?, Prepared.text, Statement.tokens?_text h, hnests.nest_eq]

/-! ## Parts that are not divided -/

/-- The tokens at which statements, conditions and lists are divided. -/
def dividers : List Token :=
  [.word "WHERE", .word "OR", .word "AND", .sign ',']

theorem dividers_plain : ∀ t ∈ dividers, t ≠ .sign '(' ∧ t ≠ .sign ')' := by
  decide

/-- No part is a token at which something is divided. -/
def Undivided (parts : List Part) : Prop :=
  ∀ t ∈ dividers, ∀ p ∈ parts, p.is t = false

instance (parts : List Part) : Decidable (Undivided parts) :=
  inferInstanceAs (Decidable (∀ t ∈ dividers, ∀ p ∈ parts, p.is t = false))

theorem Undivided.append {parts others : List Part} (h : Undivided parts)
    (hothers : Undivided others) : Undivided (parts ++ others) := by
  intro t ht p hp
  exact (List.mem_append.1 hp).elim (h t ht p) (hothers t ht p)

theorem undivided_close (parts : List Part) : Undivided [.close parts] := by
  intro t _ p hp
  obtain rfl := List.mem_singleton.1 hp
  rfl

namespace Statement

/-- A statement is made of parts that are not divided, and that are read as something. -/
def ReadsAs {α : Type} (read : List Part → Option α) (s : Statement) (a : α) : Prop :=
  ∃ parts, Nests s.tokens parts ∧ Undivided parts ∧ read parts = some a

end Statement

theorem nests_words {w : String} {ts : List Token} (h : tokens? w = some ts)
    (hplain : ∀ t ∈ ts, t ≠ .sign '(' ∧ t ≠ .sign ')') :
    Nests (Statement.tokens [.words w]) (ts.map .token) :=
  (Nests.of_forall ts hplain).of_eq (Statement.tokens_words h)

theorem tokens?_close : tokens? ")" = some [.sign ')'] := by
  decide

theorem tokens?_equals : tokens? " = " = some [.sign '='] := by
  decide

theorem tokens?_castText : tokens? "::text" = some [.sign ':', .sign ':', .word "text"] := by
  decide

theorem tokens?_where : tokens? " WHERE " = some [.word "WHERE"] := by
  decide

/-! ## Columns and values -/

/-- The parts of a column. -/
def Field.parts (f : Field) : List Part :=
  [.token (.word f.source), .token (.sign '.'), .token (.name f.column)]

theorem Alias.word_ne (source : Alias) {keyword : String}
    (h : keyword ∈ ["NOT", "WHERE", "OR", "AND"]) : source.word ≠ keyword := by
  have hlower : source.word.toList.head?.any Char.isLower = true := by
    cases source with
    | main => decide
    | sub number => simp [word]
  have hupper : ∀ k ∈ ["NOT", "WHERE", "OR", "AND"],
      k.toList.head?.any Char.isLower = false := by decide
  rintro rfl
  rw [hupper _ h] at hlower
  cases hlower

theorem nests_qualified (source : Alias) (n : String) :
    Nests (qualified source n).tokens (Field.parts ⟨source.word, n⟩) := by
  have hdot : tokens? (source.word ++ ".") = some [.word source.word, .sign '.'] :=
    tokens?_append (tokens?_aliasWord source) (by decide)
      (.inr fun _ => isOpen_of_opens (by decide))
  have h : (qualified source n).tokens = [.word source.word, .sign '.', .name n] := by
    simp [qualified, Statement.tokens, Piece.tokens, hdot]
  rw [h]
  exact .of_forall _ (by simp)

theorem undivided_field (source : Alias) (n : String) :
    Undivided (Field.parts ⟨source.word, n⟩) := by
  have hwhere : source.word ≠ "WHERE" := source.word_ne (by decide)
  have hor : source.word ≠ "OR" := source.word_ne (by decide)
  have hand : source.word ≠ "AND" := source.word_ne (by decide)
  simp [Undivided, dividers, Field.parts, Part.is, hwhere, hor, hand]

theorem tokens?_cast {type : ColumnType}
    (hgeometry : ∀ kind dimension, type ≠ .geometry kind dimension)
    (hother : ∀ name, type ≠ .other name) :
    ∃ ts, tokens? ("::" ++ type.cast) = some ts ∧ (∀ t ∈ ts, t ≠ .sign '(' ∧ t ≠ .sign ')') ∧
      Undivided (ts.map .token) ∧
        ∀ n, readMarker (.token (.marker n) :: ts.map .token) = some n := by
  cases type with
  | dateTime zone => cases zone <;> exact ⟨_, rfl, by decide, by decide, fun n => rfl⟩
  | geometry kind dimension => exact absurd rfl (hgeometry kind dimension)
  | other name => exact absurd rfl (hother name)
  | _ => exact ⟨_, rfl, by decide, by decide, fun n => rfl⟩

theorem nests_marker (n : Nat) : Nests [.marker n] [.token (.marker n)] :=
  Nests.single _ (by simp) (by simp)

theorem undivided_marker (n : Nat) : Undivided [.token (.marker n)] := by
  simp [Undivided, dividers, Part.is]

theorem readOperand_eq_readMarker {parts : List Part} {n : Nat} (h : readMarker parts = some n) :
    readOperand parts = some n := by
  unfold readOperand
  split
  · cases h
  · exact h

theorem marked_yields (value : Bound) : (Draft.marked value).Yields fun start values p =>
    values = [value] ∧ p = .marker (start + 1) :=
  .marked fun _ => ⟨rfl, rfl⟩

/-- The placeholder of a value reads as its number. -/
theorem placeholder_yields (c : Column) (value : Value) :
    (placeholder c value).Yields fun start values s =>
      values = [.ofValue c.type value] ∧ s.ReadsAs readOperand (start + 1) := by
  refine (marked_yields _).map ?_
  rintro start values p ⟨hvalues, rfl⟩
  refine ⟨hvalues, ?_⟩
  have hmarker := nests_marker (start + 1)
  split
  · have htext : tokens? "::text), 4326)" = some [.sign ':', .sign ':', .word "text", .sign ')',
        .sign ',', .word "4326", .sign ')'] := by decide
    have hcall : tokens? "ST_SetSRID(ST_GeomFromGeoJSON(" = some [.word "ST_SetSRID", .sign '(',
        .word "ST_GeomFromGeoJSON", .sign '('] := by decide
    have hcast := hmarker.append
      (.of_forall [.sign ':', .sign ':', .word "text"] (by decide))
    have hmade := (Nests.single (.word "ST_GeomFromGeoJSON") (by decide) (by decide)).append
      (hcast.group.append (.of_forall [.sign ',', .word "4326"] (by decide)))
    have h := (Nests.single (.word "ST_SetSRID") (by decide) (by decide)).append hmade.group
    refine ⟨_, h.of_eq ?_, ?_, rfl⟩
    · simp [Statement.tokens, Piece.tokens, htext, hcall]
    · exact Undivided.append (by decide) (undivided_close _)
  · exact ⟨_, hmarker, undivided_marker _, rfl⟩
  · next hgeometry hother =>
    obtain ⟨ts, hts, hplain, hundivided, hread⟩ := tokens?_cast hgeometry hother
    refine ⟨.token (.marker (start + 1)) :: ts.map .token, ?_, ?_, ?_⟩
    · simpa [Statement.tokens, Piece.tokens, hts] using hmarker.append (.of_forall ts hplain)
    · exact (undivided_marker _).append hundivided
    · exact readOperand_eq_readMarker (hread _)

/-- What reads as a value begins with a marker or with a call. -/
theorem head_of_readOperand {parts : List Part} {n : Nat} (h : readOperand parts = some n) :
    (∃ k rest, parts = .token (.marker k) :: rest) ∨
      ∃ inner condition query rest,
        parts = .token (.word "ST_SetSRID") :: .group inner condition query :: rest := by
  unfold readOperand at h
  split at h
  · exact .inr ⟨_, _, _, _, rfl⟩
  · unfold readMarker at h
    split at h
    · exact .inl ⟨_, _, rfl⟩
    · exact .inl ⟨_, _, rfl⟩
    · exact .inl ⟨_, _, rfl⟩
    · cases h

theorem readRelation_equal (field : Field) {parts : List Part} {n : Nat}
    (h : readOperand parts = some n) :
    readRelation field (.token (.sign '=') :: parts) = some (.equal field n) := by
  obtain ⟨k, rest, rfl⟩ | ⟨inner, condition, query, rest, rfl⟩ := head_of_readOperand h <;>
    simp [readRelation, readField, h]

/-- The tokens of the sign of a comparison. -/
def signTokens : Comparison → List Token
  | .less => [.sign '<']
  | .lessOrEqual => [.sign '<', .sign '=']
  | .greater => [.sign '>']
  | .greaterOrEqual => [.sign '>', .sign '=']

theorem tokens?_sign (comparison : Comparison) :
    tokens? (" " ++ comparison.sign ++ " ") = some (signTokens comparison) := by
  cases comparison <;> decide

theorem readRelation_compare (field : Field) (comparison : Comparison) {parts : List Part} {n : Nat}
    (h : readOperand parts = some n) :
    readRelation field ((signTokens comparison).map .token ++ parts) =
      some (.compare field comparison n) := by
  cases comparison <;>
    obtain ⟨k, rest, rfl⟩ | ⟨inner, condition, query, rest, rfl⟩ := head_of_readOperand h <;>
      simp [signTokens, readRelation, h]

/-! ## Single conditions -/

theorem readFactor_field {source : Alias} (column : String) (parts : List Part) :
    readFactor (Field.parts ⟨source.word, column⟩ ++ parts) =
      readRelation ⟨source.word, column⟩ parts := by
  have h : source.word ≠ "NOT" := source.word_ne (by decide)
  simp [Field.parts, readFactor, readField, h]

/-- What is said of a column is a single condition. -/
theorem field_readsAs (source : Alias) (column : String) {s : Statement} {parts : List Part}
    {r : Reading} (hnests : Nests s.tokens parts) (hundivided : Undivided parts)
    (hread : readRelation ⟨source.word, column⟩ parts = some r) :
    (qualified source column ++ s).ReadsAs readFactor r := by
  refine ⟨_, ((nests_qualified source column).append hnests).of_eq ?_, ?_, ?_⟩
  · exact Statement.tokens_append _ _
  · exact (undivided_field source column).append hundivided
  · rw [readFactor_field, hread]

/-- What words and a further part say of a column is a single condition. -/
theorem relation_readsAs (source : Alias) (column : String) {w : String} {ts : List Token}
    {s : Statement} {parts : List Part} {r : Reading} (hw : tokens? w = some ts)
    (hplain : ∀ t ∈ ts, t ≠ .sign '(' ∧ t ≠ .sign ')') (hwords : Undivided (ts.map .token))
    (hnests : Nests s.tokens parts) (hundivided : Undivided parts)
    (hread : readRelation ⟨source.word, column⟩ (ts.map .token ++ parts) = some r) :
    (qualified source column ++ [Piece.words w] ++ s).ReadsAs readFactor r := by
  have h := (nests_words hw hplain).append hnests
  rw [List.append_assoc]
  exact field_readsAs source column (h.of_eq (Statement.tokens_append _ _))
    (hwords.append hundivided) hread

theorem isNull_readsAs (source : Alias) (column : String) :
    (qualified source column ++ [Piece.words " IS NULL"]).ReadsAs readFactor
      (.isNull ⟨source.word, column⟩) := by
  have hw : tokens? " IS NULL" = some [.word "IS", .word "NULL"] := by decide
  exact field_readsAs source column (nests_words hw (by decide)) (by decide) rfl

theorem notNull_readsAs (source : Alias) (column : String) :
    (qualified source column ++ [Piece.words " IS NOT NULL"]).ReadsAs readFactor
      (.notNull ⟨source.word, column⟩) := by
  have hw : tokens? " IS NOT NULL" = some [.word "IS", .word "NOT", .word "NULL"] := by
    decide
  exact field_readsAs source column (nests_words hw (by decide)) (by decide) rfl

theorem like_readsAs (source : Alias) (column : String) (n : Nat) (ignoresCase : Bool) :
    (qualified source column ++
      [Piece.words (if ignoresCase then "::text ILIKE " else "::text LIKE "), Piece.marker n,
        Piece.words "::text"]).ReadsAs readFactor (.like ⟨source.word, column⟩ n ignoresCase) := by
  have hlike : tokens? "::text LIKE " =
      some [.sign ':', .sign ':', .word "text", .word "LIKE"] := by decide
  have hilike : tokens? "::text ILIKE " =
      some [.sign ':', .sign ':', .word "text", .word "ILIKE"] := by decide
  have hoperand : Nests (Statement.tokens [.marker n, .words "::text"]) _ :=
    (nests_marker n).append (nests_words tokens?_castText (by decide))
  have hundivided := (undivided_marker n).append
    (by decide : Undivided ([.sign ':', .sign ':', .word "text"].map .token))
  rw [List.append_cons]
  cases ignoresCase with
  | false =>
      exact relation_readsAs source column hlike (by decide) (by decide) hoperand hundivided rfl
  | true =>
      exact relation_readsAs source column hilike (by decide) (by decide) hoperand hundivided rfl

/-! ## Operators -/

theorem true_readsAs : Statement.ReadsAs readFactor [.words "TRUE"] (.all []) := by
  have hw : tokens? "TRUE" = some [.word "TRUE"] := by decide
  exact ⟨_, nests_words hw (by decide), by decide, rfl⟩

theorem false_readsAs : Statement.ReadsAs readFactor [.words "FALSE"] (.any []) := by
  have hw : tokens? "FALSE" = some [.word "FALSE"] := by decide
  exact ⟨_, nests_words hw (by decide), by decide, rfl⟩

section

variable {parts : List Part} {r : Reading} {rs : List Reading}

theorem readConjunction_of_readFactor (hundivided : Undivided parts)
    (h : readFactor parts = some r) : readConjunction parts = some r := by
  have hsplit : parts.splitOnP (Part.is (.word "AND")) = [parts] :=
    List.splitOnP_eq_singleton (hundivided _ (by decide))
  simp [readConjunction, hsplit, h, Reading.under]

theorem readCondition_of_readConjunction (hor : ∀ p ∈ parts, p.is (.word "OR") = false)
    (h : readConjunction parts = some r) : readCondition parts = some r := by
  have hsplit : parts.splitOnP (Part.is (.word "OR")) = [parts] := List.splitOnP_eq_singleton hor
  simp [readCondition, hsplit, h, Reading.under]

theorem readCondition_of_readFactor (hundivided : Undivided parts)
    (h : readFactor parts = some r) : readCondition parts = some r :=
  readCondition_of_readConjunction (hundivided _ (by decide))
    (readConjunction_of_readFactor hundivided h)

end

/-- Statements with a divider between them are read one by one where they are divided, and no other
divider stands between them. -/
theorem exists_join {α : Type} {read : List Part → Option α} {w : String} {t : Token}
    (hw : tokens? w = some [t]) (ht : t ∈ dividers) {ss : List Statement} {as : List α}
    (h : List.Forall₂ (fun s a => s.ReadsAs read a) ss as) (hne : ss ≠ []) :
    ∃ parts, Nests (Statement.join w ss).tokens parts ∧
      (parts.splitOnP (Part.is t)).mapM read = some as ∧
        ∀ u ∈ dividers, u ≠ t → ∀ p ∈ parts, p.is u = false := by
  induction h with
  | nil => exact absurd rfl hne
  | @cons s a ss as hs hss ih =>
      obtain ⟨parts, hnests, hundivided, hread⟩ := hs
      cases hss with
      | nil =>
          refine ⟨parts, by simpa [Statement.join] using hnests, ?_, fun u hu _ => hundivided u hu⟩
          rw [List.splitOnP_eq_singleton (hundivided t ht)]
          simp [hread]
      | cons hnext hrest =>
          obtain ⟨more, hmore, hall, hothers⟩ := ih (by simp)
          have hplain : ∀ u ∈ [t], u ≠ .sign '(' ∧ u ≠ .sign ')' :=
            List.forall_mem_singleton.2 (dividers_plain t ht)
          have hjoined : Nests _ (parts ++ .token t :: more) :=
            hnests.append ((nests_words hw hplain).append hmore)
          refine ⟨_, hjoined.of_eq ?_, ?_, fun u hu hne p hp => ?_⟩
          · rw [Statement.join_cons_cons, Statement.tokens_append, Statement.tokens_append]
          · rw [List.splitOnP_append_cons_of_forall_mem (hundivided t ht) (.token t)
              (by simp [Part.is])]
            simp [hread, hall]
          · simp only [List.mem_append, List.mem_cons] at hp
            rcases hp with hp | rfl | hp
            · exact hundivided u hu p hp
            · simpa [Part.is] using Ne.symm hne
            · exact hothers u hu hne p hp

section

variable {ss : List Statement} {rs : List Reading}

theorem exists_conjunction (h : List.Forall₂ (fun s r => s.ReadsAs readFactor r) ss rs)
    (hne : ss ≠ []) : ∃ parts, Nests (Statement.join " AND " ss).tokens parts ∧
      readCondition parts = some (.under .all rs) := by
  obtain ⟨parts, hnests, hread, hothers⟩ :=
    exists_join (t := .word "AND") (w := " AND ") (by decide) (by decide) h hne
  refine ⟨parts, hnests, readCondition_of_readConjunction ?_ ?_⟩
  · exact hothers (.word "OR") (by decide) (by decide)
  · simp [readConjunction, hread]

theorem exists_disjunction (h : List.Forall₂ (fun s r => s.ReadsAs readFactor r) ss rs)
    (hne : ss ≠ []) : ∃ parts, Nests (Statement.join " OR " ss).tokens parts ∧
      readCondition parts = some (.under .any rs) := by
  have hconjunctions : List.Forall₂ (fun s r => s.ReadsAs readConjunction r) ss rs :=
    h.imp fun _ _ ⟨parts, hnests, hundivided, hread⟩ =>
      ⟨parts, hnests, hundivided, readConjunction_of_readFactor hundivided hread⟩
  obtain ⟨parts, hnests, hread, -⟩ :=
    exists_join (t := .word "OR") (w := " OR ") (by decide) (by decide) hconjunctions hne
  exact ⟨parts, hnests, by simp [readCondition, hread]⟩

/-- What stands in parentheses is a single condition. -/
theorem readsAs_parentheses {s : Statement} {parts : List Part} {r : Reading}
    (hnests : Nests s.tokens parts) (hread : readCondition parts = some r) :
    Statement.ReadsAs readFactor ([Piece.words "("] ++ s ++ [Piece.words ")"]) r := by
  have hopen : tokens? "(" = some [.sign '('] := by decide
  refine ⟨_, hnests.group.of_eq ?_, undivided_close parts, ?_⟩
  · simp [Statement.tokens, Piece.tokens, hopen, tokens?_close]
  · simpa [Part.close, readFactor] using hread

/-- A group is a single condition, if its word for no conditions is one and its conditions are read
together where there are any. -/
theorem group_readsAs {divider empty : String} {connective : List Reading → Reading}
    (hempty : Statement.ReadsAs readFactor [.words empty] (connective []))
    (h : List.Forall₂ (fun s r => s.ReadsAs readFactor r) ss rs)
    (hjoin : ss ≠ [] → ∃ parts, Nests (Statement.join divider ss).tokens parts ∧
      readCondition parts = some (.under connective rs)) :
    (Condition.group divider empty ss).ReadsAs readFactor (.under connective rs) := by
  unfold Condition.group
  cases h with
  | nil => exact hempty
  | cons hs hss =>
      obtain ⟨parts, hnests, hread⟩ := hjoin (by simp)
      exact readsAs_parentheses hnests hread

end

theorem not_readsAs {s : Statement} {r : Reading} (h : s.ReadsAs readFactor r) :
    Statement.ReadsAs readFactor ([Piece.words "NOT ("] ++ s ++ [Piece.words ")"]) (.not r) := by
  obtain ⟨parts, hnests, hundivided, hread⟩ := h
  have hopen : tokens? "NOT (" = some [.word "NOT", .sign '('] := by decide
  have hnot := (Nests.single (.word "NOT") (by decide) (by decide)).append hnests.group
  refine ⟨_, hnot.of_eq ?_, Undivided.append (by decide) (undivided_close parts), ?_⟩
  · simp [Statement.tokens, Piece.tokens, hopen, tokens?_close]
  · simp [Part.close, readFactor, readCondition_of_readFactor hundivided hread]

/-! ## Queries -/

/-- The names of a table: its schema, if there is one, and its own. -/
def tableNames (m : Model) : List String :=
  m.schemaName.toList ++ [m.tableName]

/-- The parts of a table. -/
def tableParts (m : Model) : List Part :=
  match m.schemaName with
  | some schema => [.token (.name schema), .token (.sign '.'), .token (.name m.tableName)]
  | none => [.token (.name m.tableName)]

theorem nests_table (m : Model) : Nests (Statement.table m).tokens (tableParts m) := by
  have hdot : tokens? "." = some [.sign '.'] := by decide
  unfold Statement.table tableParts
  cases m.schemaName with
  | none => exact Nests.single _ (by simp) (by simp)
  | some schema =>
      have h := Nests.of_forall [.name schema, .sign '.', .name m.tableName] (by simp)
      exact h.of_eq (by simp [Statement.tokens, Piece.tokens, hdot])

theorem readTable_tableParts (m : Model) {p : Part} (hp : p.is (.sign '.') = false)
    (rest : List Part) :
    readTable (tableParts m ++ p :: rest) = some (tableNames m, p :: rest) := by
  unfold tableParts tableNames
  cases m.schemaName with
  | some schema => rfl
  | none =>
      have hdot : p ≠ .token (.sign '.') := by
        rintro rfl
        cases hp
      simp [readTable, hdot]

/-- A query reads as its table, its alias and its condition, whatever it selects. -/
theorem readQuery_eq {selected : List Part} (h : ∀ p ∈ selected, p.is (.word "FROM") = false)
    (m : Model) (source : String) {rest : List Part} {r : Reading} (hr : readWhere rest = some r) :
    readQuery (selected ++ .token (.word "FROM") ::
      (tableParts m ++ .token (.word source) :: rest)) = some ⟨tableNames m, source, r⟩ := by
  have hdrop : (selected ++ Part.token (.word "FROM") ::
      (tableParts m ++ .token (.word source) :: rest)).dropWhile (fun p => !p.is (.word "FROM")) =
      .token (.word "FROM") :: (tableParts m ++ .token (.word source) :: rest) := by
    rw [List.dropWhile_append_of_pos (by simpa using h), List.dropWhile_cons_of_neg (by decide)]
  simp [readQuery, hdrop, readTable_tableParts m (p := .token (.word source)) rfl, hr]

/-- A join with an alias reads as one table, on whose rows a column is equal to the outer one. -/
theorem linked_readsAs (target : Model) (inner outer : Alias) (remote near : String)
    {s : Statement} {r : Reading} (h : s.ReadsAs readFactor r) :
    Statement.ReadsAs readFactor ([Piece.words "EXISTS (SELECT 1 FROM "] ++
        Join.pieces ⟨target, inner, remote, outer, near⟩ ++ [Piece.words " AND "] ++ s ++
          [Piece.words ")"])
      (.present (tableNames target) inner.word
        (.all [.same ⟨inner.word, remote⟩ ⟨outer.word, near⟩, r])) := by
  have hblank : tokens? " " = some [] := by decide
  have hwhere : tokens? (" " ++ inner.word ++ " WHERE ") =
      some [.word inner.word, .word "WHERE"] :=
    tokens?_append (tokens?_append hblank (tokens?_aliasWord inner) (.inl (by decide)))
      tokens?_where (.inr fun _ => isOpen_of_opens (by decide))
  have hselect : tokens? "EXISTS (SELECT 1 FROM " =
      some [.word "EXISTS", .sign '(', .word "SELECT", .word "1", .word "FROM"] := by
    decide
  have hsame : Statement.ReadsAs readFactor
      (qualified inner remote ++ ([Piece.words " = "] ++ qualified outer near))
      (.same ⟨inner.word, remote⟩ ⟨outer.word, near⟩) := by
    rw [← List.append_assoc]
    refine relation_readsAs inner remote tokens?_equals (by decide) (by decide)
      (nests_qualified outer near) (undivided_field outer near) ?_
    simp [readRelation, Field.parts, readField]
  obtain ⟨parts, hnests, hread⟩ := exists_conjunction (.cons hsame (.cons h .nil)) (by simp)
  have hquery : readQuery ([.token (.word "SELECT"), .token (.word "1")] ++
      .token (.word "FROM") :: (tableParts target ++ .token (.word inner.word) ::
        .token (.word "WHERE") :: parts)) = some ⟨tableNames target, inner.word, _⟩ :=
    readQuery_eq (by decide) target inner.word hread
  have hrows := (Nests.of_forall [.word "SELECT", .word "1", .word "FROM"] (by decide)).append
    ((nests_table target).append
      ((Nests.of_forall [.word inner.word, .word "WHERE"] (by simp)).append hnests))
  have hexists := (Nests.single (.word "EXISTS") (by decide) (by decide)).append hrows.group
  refine ⟨_, hexists.of_eq ?_, Undivided.append (by decide) (undivided_close _), ?_⟩
  · simp [Join.pieces, Statement.join, Statement.tokens, Piece.tokens, hselect, hwhere,
      tokens?_close]
  · exact congrArg (Option.map fun q => Reading.present q.table q.source q.reading) hquery

/-! ## Lists of values -/

/-- A column in a list of values is a single condition. -/
theorem isIn_readsAs (source : Alias) (column : String) {ss : List Statement} {ns : List Nat}
    (h : List.Forall₂ (fun s n => s.ReadsAs readOperand n) ss ns) (hne : ss ≠ []) :
    Statement.ReadsAs readFactor (qualified source column ++ [Piece.words " IN ("] ++
      Statement.join ", " ss ++ [Piece.words ")"]) (.isIn ⟨source.word, column⟩ ns) := by
  have hopen : tokens? " IN (" = some [.word "IN", .sign '('] := by decide
  obtain ⟨parts, hnests, hread, -⟩ :=
    exists_join (t := .sign ',') (w := ", ") (by decide) (by decide) h hne
  have hin := (Nests.single (.word "IN") (by decide) (by decide)).append hnests.group
  rw [List.append_assoc, List.append_assoc]
  refine field_readsAs source column (hin.of_eq ?_)
    (Undivided.append (by decide) (undivided_close parts)) ?_
  · simp [Statement.tokens, Piece.tokens, hopen, tokens?_close]
  · simp [Part.close, readRelation, hread]

end RecordApi.Sql
