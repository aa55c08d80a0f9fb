import RecordApi.Proofs.Resource.Named

/-!
# The records that a body asks for

Every object behind a relationship of an object of a body becomes one record to create
(`Config.childrenOf_parseObject`), and the records behind a stored one are created one after the
other (`Config.link_eq_foldlM`). What is behind a relationship of these is not looked at.
-/

namespace RecordApi

variable {σ : Type} {m : Model}

/-- A record to create behind a relationship: the model that it is of, and what it is given. -/
structure LinkedChild where
  relationship : Relationship
  target : Model
  body : ParsedBody

namespace Config

variable {config : Config σ}

/-- The objects behind the relationships of an object, each with its relationship. -/
def objectLinks (m : Model) (members : Json.Members) : List (Relationship × Json.Members) :=
  members.flatMap fun (name, v) =>
    match m.relationship? name with
    | none => []
    | some r => ((linkedObjects r v).toOption.getD []).map (r, ·)

/-- The records to create behind the relationships of a record of a model. -/
def linkedChildren (config : Config σ) (m : Model) (groups : List LinkedGroup) :
    List LinkedChild :=
  groups.flatMap fun group =>
    match m.relationship? group.relationship with
    | none => []
    | some r =>
      match config.schema.model? r.target with
      | none => []
      | some target => group.records.map (⟨r, target, ·⟩)

/-- A group of records is behind a relationship of a model to a model of the schema. -/
def Resolves (config : Config σ) (m : Model) (group : LinkedGroup) : Prop :=
  ∃ r target, m.relationship? group.relationship = some r ∧
    config.schema.model? r.target = some target

theorem linkedChildren_cons {r : Relationship} {target : Model} {group : LinkedGroup}
    {groups : List LinkedGroup} (hr : m.relationship? group.relationship = some r)
    (ht : config.schema.model? r.target = some target) :
    config.linkedChildren m (group :: groups) =
      group.records.map (⟨r, target, ·⟩) ++ config.linkedChildren m groups := by
  simp only [linkedChildren, List.flatMap_cons, hr, ht]

/-- The records behind a record are created one after the other. -/
theorem link_eq_foldlM {groups : List LinkedGroup} (h : ∀ g ∈ groups, config.Resolves m g)
    (parent : Record) :
    config.link m parent groups = (config.linkedChildren m groups).foldlM
      (fun parent x => createLinked (σ := σ) m x.target x.relationship parent x.body) parent := by
  induction groups generalizing parent with
  | nil => rfl
  | cons group groups ih =>
      obtain ⟨⟨r, target, hr, ht⟩, hrest⟩ := List.forall_mem_cons.1 h
      have hgroup : config.createGroup m parent group =
          group.records.foldlM (createLinked (σ := σ) m target r) parent := by
        simp only [createGroup, hr, ht]
      unfold link at ih ⊢
      rw [linkedChildren_cons hr ht, List.foldlM_append, List.foldlM_map, List.foldlM_cons, hgroup]
      exact bind_congr fun parent => ih hrest parent

/-! ## Parsing -/

/-- A record to create is that of an object behind a relationship. -/
structure ChildOf (config : Config σ) (x : Relationship × Json.Members) (y : LinkedChild) :
    Prop where
  relationship : y.relationship = x.1
  target : config.schema.model? x.1.target = some y.target
  parsed : config.parseFlat y.target x.2 = .ok y.body

/-- A member of an object adds the records behind its relationship, if it is one. -/
theorem linked_of_parseMember {b b' : ParsedBody} {member : String × Json}
    (h : config.parseMember m (some config.parseFlat) b member = .ok b') :
    ∃ groups, b'.linked = b.linked ++ groups ∧ (∀ g ∈ groups, config.Resolves m g) ∧
      List.Forall₂ config.ChildOf (objectLinks m [member]) (config.linkedChildren m groups) := by
  have hnone : m.relationship? member.1 = none → b'.linked = b.linked →
      ∃ groups, b'.linked = b.linked ++ groups ∧ (∀ g ∈ groups, config.Resolves m g) ∧
        List.Forall₂ config.ChildOf (objectLinks m [member]) (config.linkedChildren m groups) := by
    intro hr hlinked
    refine ⟨[], by rw [hlinked, List.append_nil], by simp, ?_⟩
    simp [objectLinks, linkedChildren, hr]
  unfold parseMember at h
  split at h
  · next c hc =>
    obtain ⟨v, -, rfl⟩ := map_eq_ok_iff.1 h
    exact hnone (by simp [Model.relationship?, hc, Attribute.relationship?]) rfl
  · next p hp =>
    refine hnone (by simp [Model.relationship?, hp, Attribute.relationship?]) ?_
    unfold parseProperty at h
    split at h
    · cases h
      rfl
    · split at h
      · cases h
      · obtain ⟨v, -, rfl⟩ := map_eq_ok_iff.1 h
        rfl
  · next r follow hr hfollow =>
    cases hfollow
    have hfound : m.relationship? member.1 = some r := by
      simp [Model.relationship?, hr, Attribute.relationship?]
    split at h
    · cases h
    · next target ht =>
      obtain ⟨objects, hobjects, h⟩ := bind_eq_ok_iff.1 h
      obtain ⟨records, hrecords, h⟩ := bind_eq_ok_iff.1 h
      obtain rfl := pure_eq_ok_iff.1 h
      refine ⟨[⟨member.1, records⟩], rfl, ?_, ?_⟩
      · exact List.forall_mem_singleton.2 ⟨r, target, hfound, ht⟩
      · rw [linkedChildren_cons hfound ht]
        simp only [objectLinks, linkedChildren, List.flatMap_cons, List.flatMap_nil, hfound,
          hobjects, List.append_nil]
        refine List.forall₂_map_left_iff.2 (List.forall₂_map_right_iff.2 ?_)
        exact (mapM_eq_ok_iff.1 hrecords).imp fun object record hparsed => ⟨rfl, ht, hparsed⟩
  · next hcolumn hproperty hrelationship =>
    have hr : m.relationship? member.1 = none := by
      unfold Model.relationship?
      cases ha : m.attribute? member.1 with
      | none => rfl
      | some a =>
          cases a with
          | column c => rfl
          | property p => rfl
          | relationship r => exact (hrelationship r _ ha rfl).elim
    refine hnone hr ?_
    unfold unknownMember at h
    split at h
    · cases h
    · cases h
      rfl

theorem linked_of_foldlM {members : Json.Members} {b b' : ParsedBody}
    (h : members.foldlM (config.parseMember m (some config.parseFlat)) b = .ok b') :
    ∃ groups, b'.linked = b.linked ++ groups ∧ (∀ g ∈ groups, config.Resolves m g) ∧
      List.Forall₂ config.ChildOf (objectLinks m members) (config.linkedChildren m groups) := by
  induction members generalizing b with
  | nil =>
      cases h
      exact ⟨[], (List.append_nil _).symm, by simp, .nil⟩
  | cons member members ih =>
      rw [List.foldlM_cons, bind_eq_ok_iff] at h
      obtain ⟨c, hc, h⟩ := h
      obtain ⟨first, hfirst, hresolves, hchildren⟩ := linked_of_parseMember hc
      obtain ⟨groups, hgroups, hresolves', hchildren'⟩ := ih h
      refine ⟨first ++ groups, by rw [hgroups, hfirst, List.append_assoc],
        List.forall_mem_append.2 ⟨hresolves, hresolves'⟩, ?_⟩
      have hlinks : objectLinks m (member :: members) =
          objectLinks m [member] ++ objectLinks m members := by
        simp [objectLinks]
      rw [hlinks, linkedChildren, List.flatMap_append]
      exact List.rel_append hchildren hchildren'

/-- Each object behind a relationship of an object becomes one record to create. -/
theorem childrenOf_parseObject {members : Json.Members} {b : ParsedBody}
    (h : config.parseObject m true members = .ok b) :
    (∀ g ∈ b.linked, config.Resolves m g) ∧
      List.Forall₂ config.ChildOf (objectLinks m members) (config.linkedChildren m b.linked) := by
  obtain ⟨groups, hgroups, hall⟩ := linked_of_foldlM h
  have hlinked : b.linked = groups := hgroups
  rw [hlinked]
  exact hall

end Config

end RecordApi
