import ApiDoc.Proofs.DocComment.Values
import ApiDoc.Proofs.Request.Query
import ApiDoc.Proofs.Document.Read
import ApiDoc.Request.Body
import ApiDoc.Request.Template
import ApiDoc.Route

/-!
# Tidy requests

The schemas of rules are tidy, and the tree of a body and the parameters of a query
that are made from them keep this.
-/

namespace ApiDoc

theorem FieldRules.distinct_limit? {type : String} {plain : Option String}
    {documented : Option Bound} {j : Json} (h : limit? type plain documented = some j) :
    j.Distinct := by
  unfold limit? at h
  split at h
  · exact Option.some.inj h ▸ Scalar.distinct_coerce _ _
  · split at h
    · obtain ⟨raw, -, rfl⟩ := Option.map_eq_some_iff.mp h
      exact Scalar.distinct_coerce _ _
    · cases h

theorem FieldRules.distinct_sample {now : Moment} {rules : FieldRules} {j : Json}
    (h : (rules.schema now).sample = some j) : j.Distinct := by
  simp only [schema] at h
  split at h
  · exact Option.some.inj h ▸ Scalar.distinct_coerce _ _
  · exact Scalar.distinct_exampleFor now _ _ j h

theorem FieldRules.tidy_schema (now : Moment) (rules : FieldRules) :
    (rules.schema now).Tidy := by
  refine .intro ⟨Schema.forall_mem_values.mpr ⟨?_, ?_, ?_, ?_, ?_⟩, ?_, ?_⟩ ?_ ?_
  · intro js hjs j hj
    obtain ⟨values, -, rfl⟩ := Option.map_eq_some_iff.mp hjs
    obtain ⟨raw, -, rfl⟩ := List.mem_map.mp hj
    exact Scalar.distinct_coerce _ _
  · intro j hj
    obtain ⟨raw, -, rfl⟩ := Option.map_eq_some_iff.mp hj
    exact Scalar.distinct_coerce _ _
  · exact fun j hj => distinct_sample hj
  · exact fun j hj => distinct_limit? hj
  · exact fun j hj => distinct_limit? hj
  · exact fun _ hnone => nomatch hnone
  · exact Json.extends_nil _
  · exact fun _ hnone => nomatch hnone
  · intro items hitems
    simp only [schema] at hitems
    split at hitems
    · obtain rfl := Option.some.inj hitems
      simp [Items.schemas]
    · cases hitems

namespace Body

theorem tidy_ensureContainer {s : Schema} (h : s.Tidy) : (ensureContainer s).Tidy := by
  rw [ensureContainer]
  split
  · exact h.withItems (by simp [Items.schemas])
  · split
    · exact h.withProperties List.Pairwise.nil (by simp)
    · exact h

theorem tidy_upgrade {s : Schema} (h : s.Tidy) (type : String) : (upgrade s type).Tidy := by
  have htyped : Schema.Tidy { s with type := some type } := h.congr rfl rfl rfl rfl
  refine tidy_ensureContainer ?_
  split
  · exact .intro ⟨htyped.here.values, htyped.here.properties, htyped.here.extensions⟩
      htyped.inProperties (by simp)
  · exact htyped

theorem tidy_newNode (now : Moment) (rest : List String) (rules : FieldRules) :
    (newNode now rest rules).Tidy := by
  unfold newNode
  split
  · exact rules.tidy_schema now
  · exact tidy_ensureContainer (Schema.tidy_typed _)

theorem tidy_elementSlot (now : Moment) (rest : List String) (rules : FieldRules)
    {items : Option (Items Schema)} (h : ∀ i ∈ items, ∀ item ∈ i.schemas, item.Tidy) :
    (elementSlot now rest rules items).1.Tidy ∧
      ∀ s : Schema, s.Tidy →
        ∀ item ∈ ((elementSlot now rest rules items).2 s).schemas, item.Tidy := by
  unfold elementSlot
  split
  · exact ⟨tidy_newNode now rest rules, fun s hs => List.forall_mem_singleton.mpr hs⟩
  · exact ⟨tidy_newNode now rest rules, fun s hs => List.forall_mem_singleton.mpr hs⟩
  · obtain ⟨hslot, hslots⟩ := List.forall_mem_cons.mp (h _ rfl)
    exact ⟨tidy_upgrade hslot _, fun s hs => List.forall_mem_cons.mpr ⟨hs, hslots⟩⟩
  · exact ⟨tidy_upgrade (h _ rfl _ List.mem_cons_self) _,
      fun s hs => List.forall_mem_singleton.mpr hs⟩

theorem tidy_propertyNode {now : Moment} {rest : List String} {rules : FieldRules}
    {property : Option Schema} (h : ∀ s ∈ property, s.Tidy) :
    (propertyNode now rest rules property).Tidy := by
  unfold propertyNode
  split
  · exact tidy_newNode now rest rules
  · next s =>
      split
      · exact h s rfl
      · exact tidy_upgrade (h s rfl) _

/-- The properties of a tidy schema, which may be missing. -/
theorem tidy_getD_properties {s : Schema} (h : s.Tidy) :
    Dict.Increasing (s.properties.getD []) ∧
      ∀ entry ∈ s.properties.getD [], entry.2.Tidy := by
  cases hproperties : s.properties with
  | none => exact ⟨List.Pairwise.nil, by simp⟩
  | some ps => exact ⟨h.here.properties ps hproperties, h.inProperties ps hproperties⟩

theorem tidy_setProperty {s child : Schema} (h : s.Tidy) (hchild : child.Tidy)
    (name : String) :
    Schema.Tidy { s with properties := some (Dict.insert (s.properties.getD []) name child) } := by
  obtain ⟨hincreasing, hold⟩ := tidy_getD_properties h
  exact h.withProperties (hincreasing.insert name child)
    (Dict.forall_mem_insert (p := fun entry : String × Schema => entry.2.Tidy) hchild hold)

theorem tidy_find?_properties {s : Schema} (h : s.Tidy) (name : String) :
    ∀ child ∈ Dict.find? (s.properties.getD []) name, child.Tidy := fun _ hchild =>
  (tidy_getD_properties h).2 _ (Dict.mem_of_find? hchild)

theorem tidy_insert {now : Moment} {rules : FieldRules} {path : List String} {s : Schema}
    (h : s.Tidy) : (insert now rules path s).Tidy := by
  induction path generalizing s with
  | nil => exact h
  | cons token rest ih =>
      rw [insert]
      split
      · obtain ⟨hslot, hput⟩ := tidy_elementSlot now rest rules h.inItems
        exact h.withItems (hput _ (ih hslot))
      · exact tidy_setProperty h (ih (tidy_propertyNode (tidy_find?_properties h token))) token

theorem tidy_markRequired {path : List String} {s : Schema} (h : s.Tidy) :
    (markRequired path s).1.Tidy := by
  induction path generalizing s with
  | nil => exact h
  | cons token rest ih =>
      rw [markRequired]
      split
      · dsimp only
        split
        · exact h
        · unfold onElement
          split
          · next slot slots hitems =>
              obtain ⟨hslot, hslots⟩ := List.forall_mem_cons.mp (h.inItems _ hitems)
              exact h.withItems (List.forall_mem_cons.mpr ⟨ih hslot, hslots⟩)
          · next item hitems =>
              exact h.withItems
                (List.forall_mem_singleton.mpr (ih (h.inItems _ hitems _ List.mem_cons_self)))
          · exact h
      · have hmark : ∀ marked : Schema × Bool, marked.1.Tidy →
            Schema.Tidy (if marked.2 then marked.1.markRequired token else marked.1) := by
          intro marked hmarked
          split
          · exact hmarked.congr rfl rfl rfl rfl
          · exact hmarked
        refine hmark _ ?_
        split
        · exact h
        · split
          · next child hchild =>
              exact tidy_setProperty h (ih (tidy_find?_properties h token child hchild)) token
          · exact h

theorem tidy_ofRules (now : Moment) (rules : RuleSet) : (ofRules now rules).Tidy := by
  have hdraft : (draft now rules).Tidy := by
    refine List.foldlRecOn (motive := Schema.Tidy) rules (addRules now) Schema.tidy_object ?_
    intro root hroot field _
    rw [addRules]
    split
    · exact tidy_markRequired (tidy_insert hroot)
    · exact tidy_insert hroot
  have hfinished := Schema.tidy_collapseProperties hdraft.here.properties
    fun ps hps entry hentry => (hdraft.inProperties ps hps entry hentry).collapse
  exact .intro
    ⟨hdraft.here.values, fun ps hps => (hfinished ps hps).1, hdraft.here.extensions⟩
    (fun ps hps => (hfinished ps hps).2) hdraft.inItems

theorem tidy_requestBody {now : Moment} {rules : List (String × Json)} {body : RequestBody}
    (h : requestBody now rules = .ok body) : body.Tidy := by
  obtain ⟨⟨type, root⟩, hschema, rfl⟩ := map_eq_ok_iff.mp h
  obtain ⟨fields, -, heq⟩ := map_eq_ok_iff.mp hschema
  obtain ⟨-, rfl⟩ := Prod.mk.inj heq
  exact ⟨⟨List.pairwise_singleton _ _,
    List.forall_mem_singleton.mpr ⟨tidy_ofRules now fields, Json.extends_nil _⟩⟩,
    Json.extends_nil _⟩

end Body

/-- A parameter without extensions. -/
theorem Parameter.clean_of_extensions_nil {p : Parameter} (hschema : p.schema.Tidy)
    (h : p.extensions = []) : p.Clean := by
  refine ⟨⟨hschema, ?_⟩, ?_⟩
  · rw [h]
    exact Json.extends_nil _
  · rw [h]
    exact List.not_mem_nil

theorem Query.clean_parameters {now : Moment} {rules : List (String × Json)}
    {ps : List Parameter} (h : parameters now rules = .ok ps) : ∀ p ∈ ps, p.Clean := by
  have hplain : ∀ p ∈ ps, p.schema.Tidy ∧ p.extensions = [] := by
    refine forall_mem_parameters (q := fun p => p.schema.Tidy ∧ p.extensions = []) ?_ ?_ ?_ h
    · exact fun field => ⟨(field.tidy_schema now).congr rfl rfl rfl rfl, rfl⟩
    · intro p field ⟨hschema, hnone⟩
      have hfield : Schema.Tidy { field.schema now with description := none } :=
        (field.tidy_schema now).congr rfl rfl rfl rfl
      exact ⟨hschema.withItems (List.forall_mem_singleton.mpr hfield), hnone⟩
    · intro p ⟨hschema, hnone⟩
      exact ⟨hschema.withItems (List.forall_mem_singleton.mpr (Schema.tidy_typed "string")),
        hnone⟩
  exact fun p hp => Parameter.clean_of_extensions_nil (hplain p hp).1 (hplain p hp).2

theorem Template.clean_parameters (uri : String) : ∀ p ∈ parameters uri, p.Clean := by
  intro p hp
  obtain ⟨name, -, rfl⟩ := List.mem_map.mp hp
  exact Parameter.clean_of_extensions_nil (Schema.tidy_typed "string") rfl

end ApiDoc
