import RecordApi.Proofs.Sql.Said

/-!
# What a statement writes

The columns that a statement writes are read from its text: those that an insertion lists, with the
markers for their values (`readInsertion`), and what each column is set to by a change
(`readChange`). An insertion binds the columns that are set but for a key that is null, a change
sets those that are set but for the key and the version, and the version to the next one.
-/

namespace RecordApi.Sql

/-! ## Reading what is written -/

/-- A single name. -/
def readName : List Part → Option String
  | [.token (.name n)] => some n
  | _ => none

/-- The columns that an insertion lists, and the numbers of the markers for their values. Nothing is
listed where all columns have their defaults. -/
def readInsertion : List Part → Option (List String × List Nat)
  | .token (.word "INSERT") :: .token (.word "INTO") :: rest => do
    let (_, rest) ← readTable rest
    match rest with
    | .token (.word "DEFAULT") :: .token (.word "VALUES") :: _ => some ([], [])
    | .group names _ _ :: .token (.word "VALUES") :: .group values _ _ :: _ => do
      let names ← (names.splitOnP (Part.is (.sign ','))).mapM readName
      let numbers ← (values.splitOnP (Part.is (.sign ','))).mapM readOperand
      pure (names, numbers)
    | _ => none
  | _ => none

/-- What a column is set to: the value that is bound to a marker, the number that follows the one it
has, or what it has. -/
inductive Setting where
  | bound (number : Nat)
  | next
  | own
  deriving DecidableEq

/-- What one column of the rows with an alias is set to. -/
def readSetting (source : String) : List Part → Option (String × Setting)
  | .token (.name column) :: .token (.sign '=') :: parts =>
    match readField parts with
    | some (field, []) => if field = ⟨source, column⟩ then some (column, .own) else none
    | some (field, [.token (.sign '+'), .token (.word "1")]) =>
      if field = ⟨source, column⟩ then some (column, .next) else none
    | _ => (readOperand parts).map (column, .bound ·)
  | _ => none

/-- The columns that a change sets, and what it sets them to. -/
def readChange : List Part → Option (List (String × Setting))
  | .token (.word "UPDATE") :: rest => do
    let (_, rest) ← readTable rest
    match rest with
    | .token (.word "AS") :: .token (.word source) :: .token (.word "SET") :: rest =>
      let settings := rest.takeWhile fun p => !p.is (.word "WHERE")
      (settings.splitOnP (Part.is (.sign ','))).mapM (readSetting source)
    | _ => none
  | _ => none

/-- What a text inserts. -/
def readInserted (s : String) : Option (List String × List Nat) := do
  let parts ← parts? s
  readInsertion parts

/-- What a text changes. -/
def readChanged (s : String) : Option (List (String × Setting)) := do
  let parts ← parts? s
  readChange parts

/-! ## Columns that are returned -/

/-- A statement is made of parts that are not divided. -/
def Statement.Whole (s : Statement) : Prop :=
  s.ReadsAs (fun _ => some ()) ()

theorem Statement.Whole.append {s t : Statement} (hs : s.Whole) (ht : t.Whole) :
    (s ++ t).Whole := by
  obtain ⟨parts, hnests, hundivided, -⟩ := hs
  obtain ⟨more, hmore, hothers, -⟩ := ht
  exact ⟨_, (hnests.append hmore).of_eq (Statement.tokens_append s t), hundivided.append hothers,
    rfl⟩

theorem whole_words {w : String} {ts : List Token} (h : tokens? w = some ts)
    (hplain : ∀ t ∈ ts, t ≠ .sign '(' ∧ t ≠ .sign ')') (hundivided : Undivided (ts.map .token)) :
    Statement.Whole [.words w] :=
  ⟨_, nests_words h hplain, hundivided, rfl⟩

theorem whole_name (n : String) : Statement.Whole [.name n] :=
  ⟨[.token (.name n)], Nests.single _ (by simp) (by simp), by simp [Undivided, dividers, Part.is],
    rfl⟩

theorem whole_qualified (source : Alias) (n : String) : (qualified source n).Whole :=
  ⟨_, nests_qualified source n, undivided_field source n, rfl⟩

theorem whole_readColumn {reference : Statement} (h : reference.Whole) (c : Column) :
    (readColumn reference c).Whole := by
  unfold readColumn
  split
  · obtain ⟨parts, hnests, -, -⟩ := h
    have hcall : tokens? "ST_AsGeoJSON(" = some [.word "ST_AsGeoJSON", .sign '('] := by
      decide
    have hmade := (Nests.single (.word "ST_AsGeoJSON") (by decide) (by decide)).append hnests.group
    refine ⟨_, hmade.of_eq ?_, Undivided.append (by decide) (undivided_close parts), rfl⟩
    simp [Statement.tokens, Piece.tokens, hcall, tokens?_close]
  · exact h.append (whole_words tokens?_castText (by decide) (by decide))
  · next hgeometry hother =>
    obtain ⟨ts, hts, hplain, hundivided, -⟩ := tokens?_cast hgeometry hother
    exact h.append (whole_words hts hplain hundivided)

theorem exists_nests_selectList {reference : String → Statement}
    (h : ∀ n, (reference n).Whole) {m : Model} (hm : m.WellFormed) :
    ∃ parts, Nests (selectList reference m).tokens parts := by
  have has : tokens? " AS " = some [.word "AS"] := by decide
  have hitems : ∀ c ∈ m.columns,
      (readColumn (reference c.name) c ++ [Piece.words " AS ", .name c.name]).Whole := by
    intro c _
    refine (whole_readColumn (h c.name) c).append ?_
    exact (whole_words has (by decide) (by decide)).append (whole_name c.name)
  obtain ⟨parts, hnests, -⟩ := exists_join (t := .sign ',') (w := ", ") (by decide)
    (by decide) (List.forall₂_map_left_iff.2 (List.forall₂_map_right_iff.2
      (List.forall₂_same.2 hitems))) (by simpa using List.ne_nil_of_mem hm.key_mem)
  exact ⟨parts, hnests⟩

/-! ## Insertions -/

section

variable {schema : Schema} {d : SchemaDecl} {m : Model}

theorem name_readsAs (n : String) : Statement.ReadsAs readName [.name n] n :=
  ⟨[.token (.name n)], Nests.single _ (by simp) (by simp), by simp [Undivided, dividers, Part.is],
    rfl⟩

theorem nests_insertInto (m : Model) :
    Nests (Statement.tokens ([.words "INSERT INTO "] ++ Statement.table m))
      (.token (.word "INSERT") :: .token (.word "INTO") :: tableParts m) := by
  have hinto : tokens? "INSERT INTO " = some [.word "INSERT", .word "INTO"] := by decide
  have h := (Nests.of_forall [.word "INSERT", .word "INTO"] (by decide)).append (nests_table m)
  exact h.of_eq (by simp [Statement.tokens, Piece.tokens, hinto])

theorem exists_nests_returning {s : Statement} {parts : List Part} (h : Nests s.tokens parts) :
    ∃ returned, Nests (Statement.tokens ([.words " RETURNING "] ++ s)) returned := by
  have hreturning : tokens? " RETURNING " = some [.word "RETURNING"] := by decide
  have hnests := (nests_words hreturning (by decide)).append h
  exact ⟨_, hnests.of_eq (Statement.tokens_append _ _)⟩

theorem exists_insertion_defaults (m : Model) {returning : Statement} {returned : List Part}
    (h : Nests returning.tokens returned) :
    ∃ parts, Nests (Statement.tokens ([.words "INSERT INTO "] ++ Statement.table m ++
        [.words " DEFAULT VALUES"] ++ returning)) parts ∧ readInsertion parts = some ([], []) := by
  have hdefaults : tokens? " DEFAULT VALUES" = some [.word "DEFAULT", .word "VALUES"] := by
    decide
  have hnests := (nests_insertInto m).append ((nests_words hdefaults (by decide)).append h)
  refine ⟨_, hnests.of_eq ?_, ?_⟩
  · simp only [Statement.tokens_append, List.append_assoc]
  · simp [readInsertion, readTable_tableParts m (p := .token (.word "DEFAULT")) rfl]

theorem exists_insertion_listed (m : Model) {columns : List Column} (hne : columns ≠ [])
    {placeholders : List Statement} {numbers : List Nat}
    (hlength : placeholders.length = columns.length)
    (hread : List.Forall₂ (fun s n => s.ReadsAs readOperand n) placeholders numbers)
    {returning : Statement} {returned : List Part} (h : Nests returning.tokens returned) :
    ∃ parts, Nests (Statement.tokens ([.words "INSERT INTO "] ++ Statement.table m ++
        [.words " ("] ++ Statement.join ", " (columns.map fun c => [.name c.name]) ++
        [.words ") VALUES ("] ++ Statement.join ", " placeholders ++ [.words ")"] ++
          returning)) parts ∧
      readInsertion parts = some (columns.map Column.name, numbers) := by
  have hopen : tokens? " (" = some [.sign '('] := by decide
  have hbetween : tokens? ") VALUES (" = some [.sign ')', .word "VALUES", .sign '('] := by
    decide
  have hcomma : tokens? ", " = some [.sign ','] := by decide
  obtain ⟨names, hnames, hreadNames, -⟩ := exists_join hcomma (by decide)
    (List.forall₂_map_left_iff.2 (List.forall₂_map_right_iff.2
      (List.forall₂_same.2 fun c (_ : c ∈ columns) => name_readsAs c.name)))
    (by simpa using hne)
  obtain ⟨values, hvalues, hreadValues, -⟩ := exists_join hcomma (by decide) hread
    (by rw [← List.length_pos_iff, hlength]; exact List.length_pos_iff.2 hne)
  have hnests := (nests_insertInto m).append (hnames.group.append
    ((Nests.single (.word "VALUES") (by decide) (by decide)).append (hvalues.group.append h)))
  refine ⟨_, hnests.of_eq ?_, ?_⟩
  · simp [Statement.tokens, Piece.tokens, hopen, hbetween, tokens?_close]
  · have htable := readTable_tableParts m (p := .close names) rfl
    unfold Part.close at htable
    simp [readInsertion, htable, Part.close, hreadNames, hreadValues]

/-- Markers stand for the values of some columns. -/
def Binds (columns : List Column) (values : Record) (params : List Bound) (numbers : List Nat) :
    Prop :=
  List.Forall₂ (fun c n => bound? params n = some (.ofValue c.type (values.get c.name))) columns
    numbers

theorem exists_parts_insert (hm : m.WellFormed) (values : Record) :
    ∃ parts numbers, Nests (insert m values).statement.tokens parts ∧
      readInsertion parts = some ((insertedColumns m values).map Column.name, numbers) ∧
      Binds (insertedColumns m values) values (insert m values).params numbers := by
  obtain ⟨selected, hselected⟩ := exists_nests_selectList whole_name hm
  obtain ⟨returned, hreturned⟩ := exists_nests_returning hselected
  have hplaceholders := Draft.Yields.each (a := fun _ n => n)
    fun c (_ : c ∈ insertedColumns m values) => placeholder_yields c (values.get c.name)
  refine Draft.Yields.prepare (P := fun start bound s => ∀ params, bound <+: params.drop start →
      ∃ parts numbers, Nests s.tokens parts ∧
        readInsertion parts = some ((insertedColumns m values).map Column.name, numbers) ∧
        Binds (insertedColumns m values) values params numbers) (hplaceholders.fixed ?_) _
    (List.prefix_refl _)
  rintro start bound placeholders ⟨hlength, numbers, hplaceholders, hbound⟩
  split
  · next hempty =>
    obtain ⟨parts, hnests, hread⟩ := exists_insertion_defaults m hreturned
    refine ⟨_, rfl, fun _ _ => ⟨parts, [], hnests, ?_, ?_⟩⟩
    · rw [List.isEmpty_iff.1 hempty]
      exact hread
    · rw [List.isEmpty_iff.1 hempty]
      exact .nil
  · next hempty =>
    obtain ⟨parts, hnests, hread⟩ := exists_insertion_listed m
      (fun h => hempty (List.isEmpty_iff.2 h)) hlength hplaceholders hreturned
    refine ⟨_, rfl, fun params hparams => ⟨parts, numbers, hnests, hread, ?_⟩⟩
    refine (hbound params hparams).imp ?_
    rintro c n ⟨k, rfl, hv⟩
    exact hv

/-- The text of an insertion lists the columns that are to be written, and its markers stand for
their values. -/
theorem readInserted_insert (hd : d.resolve = .ok schema) (hm : m ∈ schema.models)
    (values : Record) : ∃ numbers,
      readInserted (insert m values).text =
        some ((insertedColumns m values).map Column.name, numbers) ∧
      Binds (insertedColumns m values) values (insert m values).params numbers := by
  obtain ⟨parts, numbers, hnests, hread, hbinds⟩ :=
    exists_parts_insert ((SchemaDecl.wellFormed hd).models m hm) values
  have hparts := parts?_text (insert_fits hm values).legible hnests
  exact ⟨numbers, Option.bind_eq_some_iff.2 ⟨parts, hparts, hread⟩, hbinds⟩

/-! ## Changes -/

/-- A column, an equals sign and what the column is set to are read as a setting. -/
theorem setting_readsAs {column : String} {s : Statement} {parts : List Part} {a : Setting}
    (hnests : Nests s.tokens parts) (hundivided : Undivided parts)
    (hread : readSetting "main" (.token (.name column) :: .token (.sign '=') :: parts) =
      some (column, a)) :
    Statement.ReadsAs (readSetting "main") ([Piece.name column, .words " = "] ++ s)
      (column, a) := by
  have h := (Nests.of_forall [.name column, .sign '='] (by simp)).append hnests
  refine ⟨_, h.of_eq ?_, Undivided.append ?_ hundivided, hread⟩
  · simp [Statement.tokens, Piece.tokens, tokens?_equals]
  · simp [Undivided, dividers, Part.is]

theorem equation_sets (c : Column) (value : Value) :
    (equation (fun name => [.name name]) c value).Yields fun start values s =>
      values = [.ofValue c.type value] ∧
        s.ReadsAs (readSetting "main") (c.name, .bound (start + 1)) := by
  refine (placeholder_yields c value).map ?_
  rintro start values s ⟨rfl, parts, hnests, hundivided, hread⟩
  refine ⟨rfl, setting_readsAs hnests hundivided ?_⟩
  obtain ⟨k, rest, rfl⟩ | ⟨inner, condition, query, rest, rfl⟩ := head_of_readOperand hread <;>
    simp [readSetting, readField, hread]

theorem equation_compares (c : Column) (value : Value) :
    (equation (qualified .main) c value).Yields fun start values s =>
      values = [.ofValue c.type value] ∧
        s.ReadsAs readFactor (.equal ⟨"main", c.name⟩ (start + 1)) := by
  refine (placeholder_yields c value).map ?_
  rintro start values s ⟨hvalues, parts, hnests, hundivided, hread⟩
  exact ⟨hvalues, relation_readsAs .main c.name tokens?_equals (by decide) (by decide) hnests
    hundivided (readRelation_equal _ hread)⟩

theorem next_sets (v : String) :
    Statement.ReadsAs (readSetting "main")
      ([Piece.name v, .words " = "] ++ qualified .main v ++ [.words " + 1"]) (v, .next) := by
  have hplus : tokens? " + 1" = some [.sign '+', .word "1"] := by decide
  have hnests := (nests_qualified .main v).append (nests_words hplus (by decide))
  rw [List.append_assoc]
  refine setting_readsAs (hnests.of_eq (Statement.tokens_append _ _))
    ((undivided_field .main v).append (by decide)) ?_
  simp [readSetting, readField, Field.parts, Alias.word]

theorem own_sets (v : String) :
    Statement.ReadsAs (readSetting "main") ([Piece.name v, .words " = "] ++ qualified .main v)
      (v, .own) := by
  refine setting_readsAs (nests_qualified .main v) (undivided_field .main v) ?_
  simp [readSetting, readField, Field.parts, Alias.word]

/-- What a change sets: the columns that it writes to their values, the version to the next one, and
where there is nothing of this the key to itself. -/
inductive Sets (m : Model) (changes : Record) (params : List Bound) :
    List (String × Setting) → Prop
  | written {columns : List (String × Setting)}
      (hne : columns ++ m.versionColumn.toList.map (·, .next) ≠ [])
      (bound : List.Forall₂ (fun c s => ∃ n, s = (c.name, .bound n) ∧
        bound? params n = some (.ofValue c.type (changes.get c.name))) (updatedColumns m changes)
          columns) :
      Sets m changes params (columns ++ m.versionColumn.toList.map (·, .next))
  | nothing (hcolumns : updatedColumns m changes = []) (hversion : m.versionColumn = none) :
      Sets m changes params [(m.primaryKey.name, .own)]

theorem assignments_set (m : Model) (changes : Record) :
    (assignments m changes).Yields fun start values sets => sets ≠ [] ∧
      ∃ settings,
        List.Forall₂ (fun s a => Statement.ReadsAs (readSetting "main") s a) sets settings ∧
        ∀ params, values <+: params.drop start → Sets m changes params settings := by
  have hcolumns := Draft.Yields.each (a := fun (c : Column) n => (c.name, Setting.bound n))
    fun c (_ : c ∈ updatedColumns m changes) => equation_sets c (changes.get c.name)
  have hversion : List.Forall₂ (fun s a => Statement.ReadsAs (readSetting "main") s a)
      (m.versionColumn.toList.map fun v =>
        [Piece.name v, .words " = "] ++ qualified .main v ++ [.words " + 1"])
      (m.versionColumn.toList.map (·, Setting.next)) :=
    List.forall₂_map_left_iff.2 (List.forall₂_map_right_iff.2
      (List.forall₂_same.2 fun v _ => next_sets v))
  refine hcolumns.fixed ?_
  rintro start values columns ⟨hlength, settings, hread, hbound⟩
  dsimp only
  split
  · next hempty =>
    obtain ⟨rfl, hnone⟩ := List.append_eq_nil_iff.1 (List.isEmpty_iff.1 hempty)
    refine ⟨_, rfl, by simp, _, .cons (own_sets _) .nil, fun params hparams => ?_⟩
    refine .nothing (List.eq_nil_of_length_eq_zero hlength.symm) ?_
    simpa using hnone
  · next hne =>
    have hsets : List.Forall₂ (fun s a => Statement.ReadsAs (readSetting "main") s a)
        (columns ++ _) (settings ++ _) := List.rel_append hread hversion
    refine ⟨_, rfl, fun h => hne (List.isEmpty_iff.2 h), _, hsets, fun params hparams =>
      .written ?_ (hbound params hparams)⟩
    intro h
    rw [h, List.forall₂_nil_right_iff] at hsets
    exact hne (List.isEmpty_iff.2 hsets)

/-- What identifies the record that was read is a conjunction of comparisons. -/
theorem identity_nests {current : Record} {conditions : Draft Statement}
    (h : identity (qualified .main) m current = .ok conditions) :
    conditions.Yields fun _ _ s => ∃ parts, Nests s.tokens parts := by
  obtain ⟨version, -, h⟩ := bind_eq_ok_iff.1 h
  cases h
  have hequations := Draft.Yields.each (a := fun (c : Column) n => Reading.equal ⟨"main", c.name⟩ n)
    fun c (_ : c ∈ m.primaryKey :: version) => equation_compares c (current.get c.name)
  refine hequations.map ?_
  rintro start values parts ⟨hlength, readings, hread, -⟩
  have hne : parts ≠ [] := by
    rintro rfl
    cases hlength
  obtain ⟨parts, hnests, -⟩ := exists_conjunction hread hne
  exact ⟨parts, hnests⟩

theorem exists_change (m : Model) {sets : List Statement} (hne : sets ≠ [])
    {settings : List (String × Setting)}
    (hread : List.Forall₂ (fun s a => s.ReadsAs (readSetting "main") a) sets settings)
    {conditions selected : Statement} {compared returned : List Part}
    (hcompared : Nests conditions.tokens compared) (hreturned : Nests selected.tokens returned) :
    ∃ parts, Nests (Statement.tokens ([.words "UPDATE "] ++ Statement.table m ++
        [.words " AS main SET "] ++ Statement.join ", " sets ++ [.words " WHERE "] ++ conditions ++
          [.words " RETURNING "] ++ selected)) parts ∧ readChange parts = some settings := by
  have hupdate : tokens? "UPDATE " = some [.word "UPDATE"] := by decide
  have hset : tokens? " AS main SET " = some [.word "AS", .word "main", .word "SET"] := by
    decide
  obtain ⟨returning, hreturning⟩ := exists_nests_returning hreturned
  obtain ⟨parts, hparts, hsplit, hundivided⟩ :=
    exists_join (t := .sign ',') (w := ", ") (by decide) (by decide) hread hne
  have hnests := (nests_words hupdate (by decide)).append ((nests_table m).append
    ((nests_words hset (by decide)).append (hparts.append
      ((nests_words tokens?_where (by decide)).append (hcompared.append hreturning)))))
  refine ⟨_, hnests.of_eq ?_, ?_⟩
  · simp only [Statement.tokens_append, List.append_assoc]
  · have htable := readTable_tableParts m (p := .token (.word "AS")) rfl
    have htake : ∀ p ∈ parts, (!p.is (.word "WHERE")) = true := fun p hp => by
      rw [hundivided _ (by decide) (by decide) p hp]
      rfl
    have htaken : (parts ++ .token (.word "WHERE") :: (compared ++ returning)).takeWhile
        (fun p => !p.is (.word "WHERE")) = parts := by
      rw [List.takeWhile_append_of_pos htake, List.takeWhile_cons_of_neg (by decide),
        List.append_nil]
    simp [readChange, htable, htaken, hsplit]

theorem exists_parts_update (hm : m.WellFormed) {current changes : Record} {q : Prepared}
    (h : update m current changes = .ok q) :
    ∃ parts settings, Nests q.statement.tokens parts ∧ readChange parts = some settings ∧
      Sets m changes q.params settings := by
  obtain ⟨conditions, hconditions, h⟩ := bind_eq_ok_iff.1 h
  cases h
  obtain ⟨selected, hselected⟩ := exists_nests_selectList (whole_qualified .main) hm
  refine Draft.Yields.prepare (P := fun start bound s => ∀ params, bound <+: params.drop start →
      ∃ parts settings, Nests s.tokens parts ∧ readChange parts = some settings ∧
        Sets m changes params settings)
    ((assignments_set m changes).map₂ (identity_nests hconditions) ?_) _ (List.prefix_refl _)
  rintro start values sets more s ⟨hne, settings, hread, hsets⟩ ⟨compared, hcompared⟩ params hparams
  obtain ⟨parts, hnests, hchange⟩ := exists_change m hne hread hcompared hselected
  exact ⟨parts, settings, hnests, hchange,
    hsets params ((List.prefix_append _ _).trans hparams)⟩

theorem exists_update (hm : m.WellFormed) (current changes : Record) :
    ∃ q, update m current changes = .ok q := by
  have hversion : ∃ version, m.versionColumn.toList.mapM (columnOf m) = .ok version := by
    cases hv : m.versionColumn with
    | none => exact ⟨[], rfl⟩
    | some name =>
        obtain ⟨c, hc, rfl⟩ := hm.version name hv
        refine ⟨[c], ?_⟩
        rw [Option.toList_some, List.mapM_cons, columnOf_eq_ok_iff.2 (hm.column?_of_mem hc)]
        rfl
  obtain ⟨version, hversion⟩ := hversion
  exact ⟨_, bind_eq_ok_iff.2 ⟨_, bind_eq_ok_iff.2 ⟨version, hversion, rfl⟩, rfl⟩⟩

/-- There is a statement for a change, and its text sets what is to be set. -/
theorem readChanged_update (hd : d.resolve = .ok schema) (hm : m ∈ schema.models)
    (current changes : Record) : ∃ q settings, update m current changes = .ok q ∧
      readChanged q.text = some settings ∧ Sets m changes q.params settings := by
  have hwf := (SchemaDecl.wellFormed hd).models m hm
  obtain ⟨q, hq⟩ := exists_update hwf current changes
  obtain ⟨parts, settings, hnests, hread, hsets⟩ := exists_parts_update hwf hq
  have hparts := parts?_text (update_fits hd hm hq).legible hnests
  exact ⟨q, settings, hq, Option.bind_eq_some_iff.2 ⟨parts, hparts, hread⟩, hsets⟩

namespace Sets

variable {changes : Record} {params : List Bound} {settings : List (String × Setting)}
  {name : String}

/-- A column is set to a value that the change has for it, to the next number if it is the version,
or to itself. -/
theorem cases_of_mem (h : Sets m changes params settings) {s : Setting}
    (hs : (name, s) ∈ settings) :
    (∃ c ∈ updatedColumns m changes, c.name = name ∧ ∃ n, s = .bound n ∧
      bound? params n = some (.ofValue c.type (changes.get name))) ∨
    (m.versionColumn = some name ∧ s = .next) ∨ s = .own := by
  cases h with
  | nothing =>
      obtain ⟨-, rfl⟩ := Prod.mk.inj (List.mem_singleton.1 hs)
      exact .inr (.inr rfl)
  | written _ hbound =>
      rcases List.mem_append.1 hs with hs | hs
      · obtain ⟨c, hc, n, hset, hvalue⟩ := exists_mem_of_forall₂ hbound hs
        cases hset
        exact .inl ⟨c, hc, rfl, n, rfl, hvalue⟩
      · obtain ⟨v, hv, hset⟩ := List.mem_map.1 hs
        cases hset
        exact .inr (.inl ⟨Option.mem_toList.1 hv, rfl⟩)

/-- What is not set to itself is a column that the change writes, or the version. -/
theorem exists_iff (h : Sets m changes params settings) :
    (∃ s, (name, s) ∈ settings ∧ s ≠ .own) ↔
      (∃ c ∈ updatedColumns m changes, c.name = name) ∨ m.versionColumn = some name := by
  constructor
  · rintro ⟨s, hs, hown⟩
    rcases h.cases_of_mem hs with ⟨c, hc, hname, -⟩ | ⟨hversion, -⟩ | rfl
    · exact .inl ⟨c, hc, hname⟩
    · exact .inr hversion
    · exact absurd rfl hown
  · cases h with
    | nothing hcolumns hversion =>
        rw [hcolumns, hversion]
        rintro (⟨c, hc, -⟩ | hnone)
        · cases hc
        · cases hnone
    | written _ hbound =>
        rintro (⟨c, hc, rfl⟩ | hversion)
        · obtain ⟨s, hs, n, rfl, -⟩ := exists_mem_of_forall₂ hbound.flip hc
          exact ⟨_, List.mem_append_left _ hs, Setting.noConfusion⟩
        · refine ⟨.next, List.mem_append_right _ (List.mem_map.2 ⟨name, ?_, rfl⟩),
            Setting.noConfusion⟩
          exact Option.mem_toList.2 hversion

end Sets

end

end RecordApi.Sql
