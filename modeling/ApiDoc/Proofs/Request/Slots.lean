import ApiDoc.Proofs.Request.Draft

/-!
# Element slots of bodies

While rules are added, arrays have a list with at most one slot, and no property is named
by a star.  Finishing takes the lists away below the properties of a body, but not at the
body itself: a rule that starts with a star leaves a list of slots there.
-/

namespace ApiDoc.Body

variable {now : Moment} {rules : RuleSet} {field : FieldRules}

/-- A node as it is while rules are added. -/
structure Drafted (s : Schema) : Prop where
  slots : ∀ items ∈ s.items, ∃ slots, items = .list slots ∧ slots.length ≤ 1
  names : "*" ∉ Dict.keys (s.properties.getD [])
  increasing : Dict.Increasing (s.properties.getD [])

namespace Drafted

variable {s t : Schema}

theorem congr (h : Drafted s) (hproperties : t.properties.getD [] = s.properties.getD [])
    (hitems : ∀ items ∈ t.items, items ∈ s.items ∨ items = .list []) : Drafted t := by
  refine ⟨?_, hproperties ▸ h.names, hproperties ▸ h.increasing⟩
  intro items hmem
  rcases hitems items hmem with hold | rfl
  · exact h.slots items hold
  · exact ⟨[], rfl, Nat.zero_le 1⟩

theorem withSlots (h : Drafted s) {slots : List Schema} (hlength : slots.length ≤ 1) :
    Drafted { s with items := some (.list slots) } := by
  refine ⟨?_, h.names, h.increasing⟩
  rintro _ ⟨⟩
  exact ⟨slots, rfl, hlength⟩

theorem withProperty (h : Drafted s) {token : String} (hne : token ≠ "*") (child : Schema) :
    Drafted { s with
      properties := some (Dict.insert (s.properties.getD []) token child) } := by
  refine ⟨h.slots, ?_, h.increasing.insert token child⟩
  intro hmem
  obtain ⟨entry, hentry, hname⟩ := List.mem_map.mp hmem
  rcases Dict.mem_insert hentry with rfl | hold
  · exact hne hname
  · exact h.names (hname ▸ List.mem_map_of_mem hold)

/-- A node that leads on is populated. -/
theorem isPopulated (h : Drafted s) {token : String} {child : Schema}
    (hchild : s.child? token = some child) : isPopulated s = true := by
  rw [Body.isPopulated, Bool.or_eq_true]
  rcases Schema.inside_of_child?_eq_some hchild with
    ⟨items, hitems, hmem⟩ | ⟨properties, hproperties, hmem⟩
  · right
    obtain ⟨slots, rfl, -⟩ := h.slots items hitems
    rw [hitems]
    cases slots with
    | nil => cases hmem
    | cons slot slots => rfl
  · left
    rw [hproperties]
    cases properties with
    | nil => cases hmem
    | cons entry properties => rfl

end Drafted

theorem drafted_typed (type : String) : Drafted (.typed type) :=
  ⟨(fun _ hnone => nomatch hnone), List.not_mem_nil, List.Pairwise.nil⟩

theorem drafted_ensureContainer {s : Schema} (h : Drafted s) : Drafted (ensureContainer s) := by
  rw [ensureContainer]
  split
  · exact h.withSlots (Nat.zero_le 1)
  · split
    · next hobject =>
        have hnone : s.properties = none := by simpa using (Bool.and_eq_true_iff.mp hobject).2
        exact h.congr (by simp [hnone]) fun items hitems => .inl hitems
    · exact h

theorem drafted_upgrade {s : Schema} (h : Drafted s) (type : String) :
    Drafted (upgrade s type) := by
  refine drafted_ensureContainer ?_
  split
  · exact h.congr rfl fun items hnone => nomatch hnone
  · exact h.congr rfl fun items hitems => .inl hitems

theorem drafted_newNode (rest : List String) : Drafted (newNode now rest field) := by
  cases rest with
  | nil =>
      refine (drafted_typed "").congr rfl fun items hitems => .inr ?_
      rw [newNode, FieldRules.schema] at hitems
      by_cases harray : field.schemaType = "array"
      · simpa [harray, eq_comm] using hitems
      · simp [harray] at hitems
  | cons next more => exact drafted_ensureContainer (drafted_typed _)

theorem drafted_visit {token : String} {rest : List String} {node : Option Schema}
    (h : ∀ s ∈ node, Drafted s) : Drafted (visit now field token rest node) := by
  cases node with
  | none => exact drafted_newNode rest
  | some s =>
      rw [visit]
      split
      · exact h s rfl
      · exact drafted_upgrade (h s rfl) _

theorem drafted_insert {s : Schema} (h : Drafted s) (path : List String) :
    Drafted (insert now field path s) := by
  cases path with
  | nil => rwa [insert]
  | cons token rest =>
      rw [insert]
      by_cases hstar : token = "*"
      · rw [if_pos hstar]
        cases hitems : s.items with
        | none => exact h.withSlots (Nat.le_refl 1)
        | some items =>
            obtain ⟨slots, rfl, hlength⟩ := h.slots items hitems
            cases slots with
            | nil => exact h.withSlots (Nat.le_refl 1)
            | cons slot slots => exact h.withSlots (by simpa using hlength)
      · rw [if_neg hstar]
        exact h.withProperty hstar _

theorem drafted_onElement {s : Schema} (h : Drafted s) (f : Schema → Schema) :
    Drafted (onElement f s) := by
  unfold onElement
  split
  · next slot slots hitems =>
      obtain ⟨_, heq, hlength⟩ := h.slots _ hitems
      obtain rfl := Items.list.inj heq
      exact h.withSlots (by simpa using hlength)
  · next item hitems =>
      obtain ⟨_, heq, -⟩ := h.slots _ hitems
      cases heq
  · exact h

theorem drafted_markRequired {s : Schema} (h : Drafted s) (path : List String) :
    Drafted (markRequired path s).1 := by
  cases path with
  | nil => rwa [markRequired_nil]
  | cons token rest =>
      by_cases hstar : token = "*"
      · rw [hstar, markRequired_star]
        exact drafted_onElement h _
      · have hproperty : Drafted (markProperty token rest s).1 := by
          unfold markProperty
          split
          · exact h
          · split
            · exact h.withProperty hstar _
            · exact h
        rw [markRequired_of_ne hstar]
        dsimp only
        split
        · exact hproperty.congr rfl fun items hitems => .inl hitems
        · exact hproperty

theorem drafted_settle {s : Schema} (h : Drafted s) (rest : List String) :
    Drafted (settle now field rest s) := by
  rw [settle]
  split
  · exact drafted_markRequired (drafted_insert h rest) rest
  · exact drafted_insert h rest

/-- Every node of a body is as it should be while rules are added. -/
theorem drafted_draft {p : List String} {node : Schema}
    (h : (draft now rules).at? p = some node) : Drafted node := by
  induction rules using List.reverseRecOn generalizing p node with
  | nil =>
      have hobject : Drafted .object :=
        ⟨(fun _ hnone => nomatch hnone), List.not_mem_nil, List.Pairwise.nil⟩
      rcases exists_prefix_of_at?_draft h with rfl | ⟨field, hfield, -⟩
      · exact Option.some.inj h ▸ hobject
      · cases hfield
  | append_singleton rules field ih =>
      rw [draft_concat] at h
      rcases at?_addRules_cases h with ⟨-, hold⟩ | ⟨rfl, rfl⟩ | ⟨front, token, rest, rfl, -, rfl⟩
      · exact ih hold
      · exact drafted_settle (ih (Schema.at?_nil _)) _
      · exact drafted_settle (drafted_visit fun s hs => ih hs) rest

/-! ## Lists of slots that are left -/

/-- The elements of a body itself are described by rules that start with a star. -/
theorem items_draft_eq_none_iff (now : Moment) :
    (draft now rules).items = none ↔
      ∀ field ∈ rules, (tokens field.field).head? ≠ some "*" := by
  induction rules using List.reverseRecOn with
  | nil => exact iff_of_true rfl (List.forall_mem_nil _)
  | append_singleton rules field ih =>
      rw [draft_concat, addRules_eq_settle, List.forall_mem_append, ← ih,
        List.forall_mem_singleton]
      cases hpath : tokens field.field with
      | nil => exact absurd hpath (tokens_ne_nil _)
      | cons token rest =>
          by_cases hstar : token = "*"
          · subst hstar
            obtain ⟨items, hsettle⟩ := settle_star now field rest
              (draft now rules)
            simp [hsettle]
          · obtain ⟨properties, required, hsettle⟩ := settle_of_ne now field
              hstar rest (draft now rules)
            simp [hsettle, hstar]

theorem finished_of_mem_ofRules {entry : String × Schema}
    (h : entry ∈ (ofRules now rules).properties.getD []) : entry.2.Finished := by
  rw [ofRules, Schema.collapseProperties_eq_map] at h
  cases hproperties : (draft now rules).properties with
  | none => simp [hproperties] at h
  | some properties =>
      rw [hproperties] at h
      obtain ⟨old, -, rfl⟩ := List.mem_map.mp h
      exact Schema.finished_collapse old.2

theorem finished_ofRules_iff :
    (ofRules now rules).Finished ↔ ∀ field ∈ rules, (tokens field.field).head? ≠ some "*" := by
  have hitems : (ofRules now rules).items = (draft now rules).items := rfl
  rw [← items_draft_eq_none_iff now, ← hitems]
  constructor
  · intro hfinished
    cases hroot : (ofRules now rules).items with
    | none => rfl
    | some items =>
        have hdrafted : Drafted (draft now rules) := drafted_draft (Schema.at?_nil _)
        obtain ⟨slots, rfl, -⟩ := hdrafted.slots items (hitems.symm.trans hroot)
        cases hfinished with
        | intro here _ _ =>
            obtain ⟨item, heq⟩ := here _ hroot
            cases heq
  · intro hnone
    refine .intro ?_ ?_ ?_
    · simp [hnone]
    · intro properties hproperties entry hentry
      have hmem : entry ∈ (ofRules now rules).properties.getD [] := by
        rwa [hproperties]
      exact finished_of_mem_ofRules hmem
    · simp [hnone]

/-- Rules that can be read have a body. -/
theorem schema_of_read {rules : List (String × Json)} {fields : RuleSet}
    (h : RuleSet.read rules = .ok fields) :
    schema now rules = .ok (mediaType (ofRules now fields), ofRules now fields) := by
  rw [schema, h]
  rfl

/-- Below its properties a body has no list of slots; it has none at all, exactly if no
field starts with a star. -/
theorem finished_schema_iff {rules : List (String × Json)} {type : String} {root : Schema}
    (h : schema now rules = .ok (type, root)) :
    (∀ entry ∈ root.properties.getD [], entry.2.Finished) ∧
      (root.Finished ↔ ∀ rule ∈ rules, (tokens rule.1).head? ≠ some "*") := by
  obtain ⟨fields, hread, heq⟩ := map_eq_ok_iff.mp h
  obtain ⟨-, rfl⟩ := Prod.mk.inj heq
  refine ⟨fun entry hentry => finished_of_mem_ofRules hentry, ?_⟩
  rw [finished_ofRules_iff]
  exact RuleSet.forall_field_iff (q := fun name => (tokens name).head? ≠ some "*") hread

/-- Arrays without rules for their elements, and with two levels of elements. -/
theorem finished_schema_tags :
    ∃ type root, schema ⟨"", ""⟩ [("tags", .str "array"), ("rows.*.*.id", .str "integer")] =
      .ok (type, root) ∧ root.Finished := by
  obtain ⟨⟨type, root⟩, hmade⟩ : ∃ made,
      schema ⟨"", ""⟩ [("tags", .str "array"), ("rows.*.*.id", .str "integer")] = .ok made :=
    ⟨_, rfl⟩
  exact ⟨type, root, hmade, (finished_schema_iff hmade).2.mpr (by decide +kernel)⟩

/-- A rule that starts with a star leaves a list of slots. -/
theorem not_finished_schema_star :
    ∃ type root, schema ⟨"", ""⟩ [("*", .str "string")] = .ok (type, root) ∧
      ¬ root.Finished := by
  refine ⟨_, _, rfl, fun hfinished => ?_⟩
  exact finished_ofRules_iff.mp hfinished _ List.mem_cons_self (by decide +kernel)

end ApiDoc.Body
