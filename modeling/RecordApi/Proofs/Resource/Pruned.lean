import RecordApi.Proofs.Resource.Bodies
import RecordApi.Proofs.Schema.Resolved

/-!
# Names that are not known

A member of an object whose name is not known is passed over or refused, as the resource is
configured. `Schema.pruned` is an object without such members, and without those of the objects
behind its relationships, if these are followed. To pass them over is to read the pruned object, and
an object that is read where they are refused is pruned (`Config.lenient_parses_pruned`).
-/

namespace RecordApi

variable {σ : Type}

/-! ## Pruned objects -/

/-- A member of an object of a model, unless its name is not known. Relationships are known where
`follow?` says what is left of their values. -/
def Model.prunedMember? (m : Model) (follow? : Option (Relationship → Json → Json))
    (member : String × Json) : Option (String × Json) :=
  match m.attribute? member.1, follow? with
  | none, _ | some (.relationship _), none => none
  | some (.relationship r), some follow => some (member.1, follow r member.2)
  | some (.column _), _ | some (.property _), _ => some member

/-- The members of an object with names that are known where relationships are not followed. -/
def Model.prunedFlat (m : Model) (members : Json.Members) : Json.Members :=
  members.filterMap (m.prunedMember? none)

/-- A value whose members, if it is an object, are those with names that are known. -/
def Model.prunedItem (m : Model) : Json → Json
  | .object members => .object (m.prunedFlat members)
  | v => v

/-- What is left of the value of a relationship: of objects that are followed, the members with
names that are known. -/
def Schema.prunedLink (schema : Schema) (r : Relationship) (v : Json) : Json :=
  match schema.model? r.target with
  | none => v
  | some target =>
    match r.isToMany, v with
    | true, .array items => .array (items.map target.prunedItem)
    | true, v => v
    | false, v => target.prunedItem v

/-- An object without the members whose names are not known, here and in the objects behind
relationships that are followed. -/
def Schema.pruned (schema : Schema) (m : Model) (recurse : Bool) (members : Json.Members) :
    Json.Members :=
  if recurse then members.filterMap (m.prunedMember? (some schema.prunedLink))
  else m.prunedFlat members

namespace Config

/-- The configuration where members with names that are not known are passed over. -/
def lenient (config : Config σ) : Config σ :=
  { config with rejectUnknown := false }

/-- The configuration where members with names that are not known are refused. -/
def strict (config : Config σ) : Config σ :=
  { config with rejectUnknown := true }

variable {config : Config σ} {m : Model} {b b' : ParsedBody} {member : String × Json}
  {members : Json.Members}

/-! ## Objects behind a relationship -/

theorem mapM_objectOr_map_prunedItem (target : Model) (fault : ApiError) (items : List Json) :
    (items.map target.prunedItem).mapM (objectOr fault) =
      (items.mapM (objectOr fault)).map (·.map target.prunedFlat) := by
  induction items with
  | nil => rfl
  | cons item items ih =>
      rw [List.map_cons, List.mapM_cons, List.mapM_cons, ih]
      cases item with
      | object members => cases items.mapM (objectOr fault) <;> rfl
      | _ => rfl

/-- The objects of a pruned value are the objects of the value, pruned. -/
theorem linkedObjects_prunedLink {r : Relationship} {target : Model}
    (ht : config.schema.model? r.target = some target) (v : Json) :
    linkedObjects r (config.schema.prunedLink r v) =
      (linkedObjects r v).map (·.map target.prunedFlat) := by
  unfold linkedObjects Schema.prunedLink
  rw [ht]
  cases r.isToMany with
  | true =>
      cases v with
      | array items => exact mapM_objectOr_map_prunedItem target _ items
      | _ => rfl
  | false => cases v <;> rfl

/-- A value is pruned if its objects are. -/
theorem prunedLink_eq_self {r : Relationship} {target : Model}
    (ht : config.schema.model? r.target = some target) {v : Json} {objects : List Json.Members}
    (h : linkedObjects r v = .ok objects)
    (hobjects : ∀ object ∈ objects, target.prunedFlat object = object) :
    config.schema.prunedLink r v = v := by
  have hitem : ∀ {item : Json} {object : Json.Members} {fault : ApiError},
      objectOr fault item = .ok object → object ∈ objects → target.prunedItem item = item := by
    intro item object fault hitem hobject
    cases item with
    | object members =>
        cases hitem
        exact congrArg Json.object (hobjects _ hobject)
    | _ => cases hitem
  unfold linkedObjects at h
  unfold Schema.prunedLink
  rw [ht]
  cases hmany : r.isToMany with
  | true =>
      cases v with
      | array items =>
          rw [hmany] at h
          have hitems : items.map target.prunedItem = items := by
            refine (List.map_congr_left fun item hmem => ?_).trans (List.map_id items)
            obtain ⟨object, hobject, heq⟩ := mem_of_mem_of_mapM_eq_ok h hmem
            exact hitem heq hobject
          exact congrArg Json.array hitems
      | _ => rfl
  | false =>
      cases v with
      | object members =>
          rw [hmany] at h
          cases h
          exact congrArg Json.object (hobjects _ (List.mem_singleton.2 rfl))
      | _ => rfl

/-! ## Members -/

/-- Two ways of following relationships, and a way of pruning their values: to follow in the first
way is to follow pruned objects in the second, which takes no others. -/
inductive Prunes (config : Config σ) :
    Option (Model → Json.Members → Except ApiError ParsedBody) →
    Option (Model → Json.Members → Except ApiError ParsedBody) →
    Option (Relationship → Json → Json) → Prop
  | unfollowed : Prunes config none none none
  | followed {pass refuse : Model → Json.Members → Except ApiError ParsedBody}
    (passes : ∀ target object, pass target object = refuse target (target.prunedFlat object))
    (refuses : ∀ target object b, refuse target object = .ok b →
      target.prunedFlat object = object) :
    Prunes config (some pass) (some refuse) (some config.schema.prunedLink)

section Members

variable {pass? refuse? : Option (Model → Json.Members → Except ApiError ParsedBody)}
  {prune? : Option (Relationship → Json → Json)}

/-- To pass over what is not known of a member is to read what is left of it. -/
theorem Prunes.parseMember_lenient (h : config.Prunes pass? refuse? prune?) (b : ParsedBody)
    (member : String × Json) :
    config.lenient.parseMember m pass? b member =
      match m.prunedMember? prune? member with
      | some left => config.strict.parseMember m refuse? b left
      | none => pure b := by
  unfold parseMember Model.prunedMember?
  cases hattribute : m.attribute? member.1 with
  | none => rfl
  | some a =>
      cases a with
      | column c =>
          dsimp only
          rw [hattribute]
          rfl
      | property p =>
          dsimp only
          rw [hattribute]
          rfl
      | relationship r =>
          cases h with
          | unfollowed => rfl
          | @followed pass refuse passes refuses =>
              dsimp only
              rw [hattribute]
              dsimp only
              change (match config.schema.model? r.target with | none => _ | some target => _) =
                match config.schema.model? r.target with | none => _ | some target => _
              cases ht : config.schema.model? r.target with
              | none => rfl
              | some target =>
                  dsimp only
                  rw [linkedObjects_prunedLink ht]
                  cases linkedObjects r member.2 with
                  | error e => rfl
                  | ok objects =>
                      have hobjects : objects.mapM (pass target) =
                          (objects.map target.prunedFlat).mapM (refuse target) := by
                        rw [List.mapM_map]
                        exact congrArg (fun f => objects.mapM f) (funext (passes target))
                      exact congrArg (fun read => do
                        let records ← read
                        pure (b.link member.1 records)) hobjects

/-- A member that is read where others are refused is pruned. -/
theorem Prunes.prunedMember?_eq_some (h : config.Prunes pass? refuse? prune?)
    (hparse : config.strict.parseMember m refuse? b member = .ok b') :
    m.prunedMember? prune? member = some member := by
  unfold parseMember at hparse
  unfold Model.prunedMember?
  cases hattribute : m.attribute? member.1 with
  | none =>
      rw [hattribute] at hparse
      cases hparse
  | some a =>
      rw [hattribute] at hparse
      cases a with
      | column c => rfl
      | property p => rfl
      | relationship r =>
          cases h with
          | unfollowed => cases hparse
          | @followed pass refuse passes refuses =>
              dsimp only at hparse ⊢
              change (match config.schema.model? r.target with | none => _ | some target => _) =
                _ at hparse
              cases ht : config.schema.model? r.target with
              | none =>
                  rw [ht] at hparse
                  cases hparse
              | some target =>
                  rw [ht] at hparse
                  obtain ⟨objects, hobjects, hparse⟩ := bind_eq_ok_iff.1 hparse
                  obtain ⟨records, hrecords, -⟩ := bind_eq_ok_iff.1 hparse
                  rw [prunedLink_eq_self ht hobjects]
                  intro object hobject
                  obtain ⟨record, -, hrecord⟩ := mem_of_mem_of_mapM_eq_ok hrecords hobject
                  exact refuses target object record hrecord

/-! ## Objects -/

theorem Prunes.foldlM_lenient (h : config.Prunes pass? refuse? prune?) (members : Json.Members)
    (b : ParsedBody) :
    members.foldlM (config.lenient.parseMember m pass?) b =
      (members.filterMap (m.prunedMember? prune?)).foldlM
        (config.strict.parseMember m refuse?) b := by
  rw [List.foldlM_filterMap]
  congr 1
  funext b member
  rw [h.parseMember_lenient]
  cases m.prunedMember? prune? member <;> rfl

theorem Prunes.filterMap_eq_self (h : config.Prunes pass? refuse? prune?)
    (hparse : members.foldlM (config.strict.parseMember m refuse?) b = .ok b') :
    members.filterMap (m.prunedMember? prune?) = members := by
  induction members generalizing b with
  | nil => rfl
  | cons member members ih =>
      rw [List.foldlM_cons, bind_eq_ok_iff] at hparse
      obtain ⟨c, hmember, hparse⟩ := hparse
      rw [List.filterMap_cons_some (h.prunedMember?_eq_some hmember), ih hparse]

end Members

theorem parseFlat_lenient (config : Config σ) (m : Model) (members : Json.Members) :
    config.lenient.parseFlat m members = config.strict.parseFlat m (m.prunedFlat members) :=
  Prunes.unfollowed.foldlM_lenient members .empty

theorem prunes_parseFlat (config : Config σ) :
    config.Prunes (some config.lenient.parseFlat) (some config.strict.parseFlat)
      (some config.schema.prunedLink) :=
  .followed config.parseFlat_lenient fun _ _ _ h => Prunes.unfollowed.filterMap_eq_self h

/-- The records behind a relationship have none behind theirs. -/
theorem linked_of_mem_linked {recurse : Bool} (h : config.parseObject m recurse members = .ok b)
    {group : LinkedGroup} (hgroup : group ∈ b.linked) {child : ParsedBody}
    (hchild : child ∈ group.records) : child.linked = [] := by
  cases recurse with
  | false =>
      rw [linked_of_parseFlat h] at hgroup
      cases hgroup
  | true =>
      obtain ⟨hresolves, hchildren⟩ := childrenOf_parseObject h
      obtain ⟨r, target, hr, ht⟩ := hresolves group hgroup
      have hmem : ⟨r, target, child⟩ ∈ config.linkedChildren m b.linked := by
        refine List.mem_flatMap.2 ⟨group, hgroup, ?_⟩
        simpa [hr, ht] using hchild
      obtain ⟨object, -, hof⟩ := exists_mem_of_forall₂ hchildren hmem
      exact linked_of_parseFlat hof.parsed

/-- To read an object where members with names that are not known are passed over is to read the
pruned object where they are refused. Where they are refused, exactly the pruned objects are read
that are read where they are passed over, with the same result. And what is behind a relationship
has nothing behind a relationship of its own. -/
theorem lenient_parses_pruned (config : Config σ) (m : Model) (recurse : Bool)
    (members : Json.Members) :
    config.lenient.parseObject m recurse members =
        config.strict.parseObject m recurse (config.schema.pruned m recurse members) ∧
      (∀ b, config.strict.parseObject m recurse members = .ok b ↔
        config.lenient.parseObject m recurse members = .ok b ∧
          config.schema.pruned m recurse members = members) ∧
      ∀ b, config.parseObject m recurse members = .ok b →
        ∀ group ∈ b.linked, ∀ child ∈ group.records, child.linked = [] := by
  have hread : config.lenient.parseObject m recurse members =
      config.strict.parseObject m recurse (config.schema.pruned m recurse members) := by
    cases recurse with
    | false => exact config.parseFlat_lenient m members
    | true => exact config.prunes_parseFlat.foldlM_lenient members .empty
  have hpruned : ∀ b, config.strict.parseObject m recurse members = .ok b →
      config.schema.pruned m recurse members = members := by
    intro b hb
    cases recurse with
    | false => exact Prunes.unfollowed.filterMap_eq_self hb
    | true => exact config.prunes_parseFlat.filterMap_eq_self hb
  refine ⟨hread, fun b => ⟨fun hb => ?_, fun ⟨hb, heq⟩ => ?_⟩, fun b hb group hgroup child =>
    linked_of_mem_linked hb hgroup⟩
  · have heq := hpruned b hb
    exact ⟨by rw [hread, heq, hb], heq⟩
  · rw [← hb, hread, heq]

/-- An employee with a nickname, which is not known, and a boss who has a boss. -/
def bossOfBoss : Json.Members :=
  [("boss", .object [("boss", .object [("id", .int 9)]), ("id", .int 3)]), ("id", .int 4),
    ("nick", .string "x")]

/-- The boss of the boss is passed over like the nickname, and both are reasons to refuse. -/
theorem lenient_parses_pruned_bossOfBoss :
    (ofModel Unit .employees .employee).lenient.parseObject .employee true bossOfBoss =
        .ok ⟨.ofList [("id", .int 4)], [⟨"boss", [⟨.ofList [("id", .int 3)], []⟩]⟩]⟩ ∧
      ∀ b, (ofModel Unit .employees .employee).strict.parseObject .employee true bossOfBoss ≠
        .ok b := by
  obtain ⟨hread, hrefused, -⟩ :=
    lenient_parses_pruned (ofModel Unit .employees .employee) .employee true bossOfBoss
  have hshorter : (Schema.employees.pruned .employee true bossOfBoss).length = 2 := by decide
  refine ⟨hread, fun b hb => ?_⟩
  have hsame : Schema.employees.pruned .employee true bossOfBoss = bossOfBoss :=
    ((hrefused b).1 hb).2
  rw [hsame] at hshorter
  exact absurd hshorter (by decide)

end Config

end RecordApi
