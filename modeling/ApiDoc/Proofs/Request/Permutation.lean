import ApiDoc.Proofs.Request.PrefixFree

/-!
# The order of rules

Rules that stand apart describe the same body in every order, up to the order of required
names.  Two drafts of permuted rules have nodes at the same paths, and these agree; so the
drafts are equal when their required names are sorted, and finishing keeps that.
-/

namespace ApiDoc.Body

open Schema (sortNames sortRequired sortProperties sortItems)

variable {now : Moment} {rules others : RuleSet} {field : FieldRules}

/-! ## Nodes that agree -/

/-- Two nodes of drafts agree but for what is below them and for the order of required
names. -/
structure Agree (s t : Schema) : Prop where
  drafted : Drafted s ∧ Drafted t
  plain : s.plain = t.plain
  required : s.required.map sortNames = t.required.map sortNames
  properties : s.properties = none ↔ t.properties = none
  items : s.items = none ↔ t.items = none

/-- Two drafts have nodes at the same paths, and these agree. -/
def Alike (s t : Schema) : Prop :=
  ∀ p, Option.Rel Agree (s.at? p) (t.at? p)

theorem Alike.agree {s t : Schema} (h : Alike s t) : Agree s t :=
  Option.rel_some_some.mp (h [])

theorem Alike.child {s t : Schema} (h : Alike s t) (token : String) :
    Option.Rel Alike (s.child? token) (t.child? token) := by
  have hstep := h [token]
  rw [Schema.at?_cons, Schema.at?_cons] at hstep
  cases hleft : s.child? token with
  | none =>
      cases hright : t.child? token with
      | none => exact .none
      | some other =>
          rw [hleft, hright] at hstep
          cases hstep
  | some child =>
      cases hright : t.child? token with
      | none =>
          rw [hleft, hright] at hstep
          cases hstep
      | some other =>
          refine .some fun p => ?_
          have hbelow := h (token :: p)
          rwa [Schema.at?_cons, Schema.at?_cons, hleft, hright] at hbelow

/-- A draft has no property that is named by a star. -/
theorem Drafted.find?_star {s : Schema} (h : Drafted s) :
    Dict.find? (s.properties.getD []) "*" = none :=
  Dict.find?_eq_none_iff.mpr fun _ hvalue => h.names (List.mem_map_of_mem hvalue)

/-- A draft with elements has one slot, or none. -/
theorem Drafted.sortItems_eq {s : Schema} (h : Drafted s) {items : Items Schema}
    (hitems : s.items = some items) :
    sortItems s.items = some (.list (s.item?.map sortRequired).toList) := by
  obtain ⟨slots, rfl, hlength⟩ := h.slots items hitems
  rw [Schema.item?, hitems]
  cases slots with
  | nil => rfl
  | cons slot rest =>
      cases rest with
      | nil => rfl
      | cons second more => simp at hlength

section Children

variable {s t : Schema}

theorem sortProperties_eq (h : Agree s t)
    (hchild : ∀ token, (s.child? token).map sortRequired = (t.child? token).map sortRequired) :
    sortProperties s.properties = sortProperties t.properties := by
  obtain ⟨hs, ht⟩ := h.drafted
  have hsorted : Dict.mapValues sortRequired (s.properties.getD []) =
      Dict.mapValues sortRequired (t.properties.getD []) := by
    apply (hs.increasing.mapValues _).ext (ht.increasing.mapValues _)
    intro name
    rw [Dict.find?_mapValues, Dict.find?_mapValues]
    by_cases hstar : name = "*"
    · rw [hstar, hs.find?_star, ht.find?_star]
    · have hname := hchild name
      rwa [Schema.child?_of_ne _ hstar, Schema.child?_of_ne _ hstar] at hname
  rw [Schema.sortProperties_eq_map, Schema.sortProperties_eq_map]
  cases hleft : s.properties with
  | none => rw [h.properties.mp hleft]
  | some properties =>
      cases hright : t.properties with
      | none =>
          rw [h.properties.mpr hright] at hleft
          cases hleft
      | some fellows =>
          rw [hleft, hright] at hsorted
          exact congrArg some hsorted

theorem sortItems_eq (h : Agree s t)
    (hchild : (s.child? "*").map sortRequired = (t.child? "*").map sortRequired) :
    sortItems s.items = sortItems t.items := by
  cases hleft : s.items with
  | none => rw [h.items.mp hleft]
  | some items =>
      cases hright : t.items with
      | none =>
          rw [h.items.mpr hright] at hleft
          cases hleft
      | some others =>
          rw [← hleft, ← hright, h.drafted.1.sortItems_eq hleft, h.drafted.2.sortItems_eq hright,
            ← Schema.child?_star, ← Schema.child?_star, hchild]

end Children

/-- Drafts that are alike are equal when their required names are sorted. -/
theorem Alike.sortRequired_eq {s t : Schema} (h : Alike s t) :
    s.sortRequired = t.sortRequired := by
  induction s using Schema.induction_child generalizing t with
  | h s ih =>
      have hchild : ∀ token,
          (s.child? token).map sortRequired = (t.child? token).map sortRequired := by
        intro token
        have hstep := h.child token
        generalize t.child? token = other at hstep
        cases hleft : s.child? token with
        | none =>
            rw [hleft] at hstep
            cases hstep
            rfl
        | some child =>
            rw [hleft] at hstep
            cases hstep with
            | some hbelow => exact congrArg some (ih token child hleft hbelow)
      calc s.sortRequired
          = { s.plain with
              properties := sortProperties s.properties
              items := sortItems s.items
              required := s.required.map sortNames } := s.sortRequired_eq
        _ = { t.plain with
              properties := sortProperties t.properties
              items := sortItems t.items
              required := t.required.map sortNames } := by
            rw [h.agree.plain, sortProperties_eq h.agree hchild, sortItems_eq h.agree (hchild "*"),
              h.agree.required]
        _ = t.sortRequired := t.sortRequired_eq.symm

/-! ## Drafts of permuted rules -/

theorem Lists.sortNames_eq {required other : Option (List String)} {wanted : String → Prop}
    (h : Lists required wanted) (hother : Lists other wanted) :
    required.map sortNames = other.map sortNames := by
  have hperm : (required.getD []).Perm (other.getD []) :=
    (List.perm_ext_iff_of_nodup h.nodup hother.nodup).mpr fun name =>
      (h.mem_iff name).trans (hother.mem_iff name).symm
  cases required with
  | none =>
      cases other with
      | none => rfl
      | some names =>
          obtain rfl := hperm.nil_eq
          exact absurd rfl hother.nonempty
  | some names =>
      cases other with
      | none =>
          obtain rfl := hperm.eq_nil
          exact absurd rfl h.nonempty
      | some fellows => exact congrArg some (Schema.sortNames_eq_of_perm hperm)

/-- A node at or below the end of a path stands at the end. -/
theorem eq_tokens_of_isPrefix (hfree : PrefixFree rules) (hfield : field ∈ rules) {p : List String}
    (hstart : tokens field.field <+: p) {node : Schema}
    (h : (draft now rules).at? p = some node) : p = tokens field.field := by
  rcases exists_prefix_of_at?_draft h with rfl | ⟨other, hother, hp⟩
  · exact absurd (List.prefix_nil.mp hstart) (tokens_ne_nil _)
  · obtain rfl := hfree.eq_of_isPrefix hfield hother (hstart.trans hp)
    exact hp.eq_of_length_le hstart.length_le

/-- Nodes of one path in drafts of permuted rules agree. -/
theorem agree_draft (hperm : rules.Perm others) (hrules : Separate rules) {p : List String}
    {s t : Schema} (hs : (draft now rules).at? p = some s)
    (ht : (draft now others).at? p = some t) : Agree s t := by
  have hothers : Separate others := hrules.of_perm hperm
  have hdrafted : Drafted s ∧ Drafted t := ⟨drafted_draft hs, drafted_draft ht⟩
  have hrequires : ∀ name, Requires rules p name ↔ Requires others p name := fun name =>
    ⟨.mono fun f hf => hperm.mem_iff.mp hf, .mono fun f hf => hperm.mem_iff.mpr hf⟩
  have hrequired : s.required.map sortNames = t.required.map sortNames :=
    (lists_required_draft hrules.unmixed hs).sortNames_eq
      ((lists_required_draft hothers.unmixed ht).congr hrequires)
  have hobject : IsObject s → IsObject t → Agree s t := by
    rintro ⟨properties, required, rfl⟩ ⟨properties, required, rfl⟩
    exact ⟨hdrafted, rfl, hrequired, by simp, .rfl⟩
  by_cases hend : ∃ field ∈ rules, tokens field.field <+: p
  · obtain ⟨field, hfield, hstart⟩ := hend
    obtain rfl := eq_tokens_of_isPrefix hrules.free hfield hstart hs
    have hmem : field ∈ others := hperm.mem_iff.mp hfield
    rw [at?_draft_of_mem hrules.free hrules.unmixed hfield] at hs
    rw [at?_draft_of_mem hothers.free hothers.unmixed hmem] at ht
    obtain rfl := Option.some.inj hs
    obtain rfl := Option.some.inj ht
    exact ⟨hdrafted, rfl, rfl, .rfl, .rfl⟩
  · have hnot : ∀ field ∈ rules, ¬ tokens field.field <+: p := fun field hfield hstart =>
      hend ⟨field, hfield, hstart⟩
    by_cases hp : p = []
    · subst hp
      obtain rfl := Option.some.inj hs
      obtain rfl := Option.some.inj ht
      exact hobject (isObject_draft hrules.named) (isObject_draft hothers.named)
    · obtain ⟨next, hnext⟩ := exists_continues hp hs hnot
      have hnextOthers : Continues others p next := hnext.mono fun f hf => hperm.mem_iff.mp hf
      have hleft : IsContainer next s :=
        isContainer_draft hrules.free hrules.unmixed hp hnext hs
      have hright : IsContainer next t :=
        isContainer_draft hothers.free hothers.unmixed hp hnextOthers ht
      by_cases hslot : next = "*"
      · rw [hslot, isContainer_star] at hleft hright
        obtain ⟨items, rfl⟩ := hleft
        obtain ⟨items, rfl⟩ := hright
        exact ⟨hdrafted, rfl, rfl, .rfl, by simp⟩
      · exact hobject ((isContainer_of_ne hslot).mp hleft) ((isContainer_of_ne hslot).mp hright)

theorem alike_draft (hperm : rules.Perm others) (hrules : Separate rules) :
    Alike (draft now rules) (draft now others) := by
  intro p
  have hsame : (∃ node, (draft now rules).at? p = some node) ↔
      ∃ node, (draft now others).at? p = some node := by
    rw [exists_at?_draft_iff hrules.unmixed, exists_at?_draft_iff (hrules.of_perm hperm).unmixed]
    simp only [hperm.mem_iff]
  cases hs : (draft now rules).at? p with
  | none =>
      cases ht : (draft now others).at? p with
      | none => exact .none
      | some t =>
          obtain ⟨node, hnode⟩ := hsame.mpr ⟨t, ht⟩
          rw [hs] at hnode
          cases hnode
  | some s =>
      obtain ⟨t, ht⟩ := hsame.mp ⟨s, hs⟩
      rw [ht]
      exact .some (agree_draft hperm hrules hs ht)

/-! ## Bodies of permuted rules -/

theorem sortRequired_ofRules_of_perm (hperm : rules.Perm others) (hrules : Separate rules) :
    (ofRules now others).sortRequired = (ofRules now rules).sortRequired := by
  have hdraft : (draft now rules).sortRequired = (draft now others).sortRequired :=
    (alike_draft hperm hrules).sortRequired_eq
  rw [ofRules_eq_collapse hrules.named, ofRules_eq_collapse (hrules.of_perm hperm).named,
    Schema.sortRequired_collapse, Schema.sortRequired_collapse, hdraft]

theorem isBinary_sortRequired (s : Schema) : isBinary s.sortRequired = isBinary s := by
  rw [Schema.sortRequired_eq, isBinary, isBinary]

theorem holdsFile_sortRequired (s : Schema) : holdsFile s.sortRequired = holdsFile s := by
  rw [holdsFile, holdsFile, isBinary_sortRequired, Schema.item?_sortRequired, Option.map_map]
  exact congrArg (fun f => isBinary s || (s.item?.map f).getD false)
    (funext isBinary_sortRequired)

theorem any_holdsFile_sortRequired (s : Schema) :
    (s.sortRequired.properties.getD []).any (fun (_, s) => holdsFile s) =
      (s.properties.getD []).any fun (_, s) => holdsFile s := by
  rw [Schema.sortRequired_eq, Schema.sortProperties_eq_map]
  cases s.properties with
  | none => rfl
  | some properties =>
      simp only [Option.map_some, Option.getD_some, Dict.mapValues, List.any_map]
      exact congrArg (List.any properties) (funext fun entry => holdsFile_sortRequired entry.2)

/-- The media type does not depend on the order of required names. -/
theorem mediaType_sortRequired (s : Schema) : mediaType s.sortRequired = mediaType s := by
  rw [mediaType, mediaType, any_holdsFile_sortRequired]

/-- The body of rules that stand apart: what a rule describes is at the end of its path,
all nodes above carry nothing of their own, and the order of the rules can only be seen in
the order of required names. -/
theorem schema_of_prefixFree (now : Moment) {rules : List (String × Json)} {fields : RuleSet}
    (hread : RuleSet.read rules = .ok fields) (hfree : PrefixFree fields)
    (hunmixed : Unmixed fields)
    (hstar : ∀ field ∈ fields, (tokens field.field).head? ≠ some "*") :
    ∃ type root, schema now rules = .ok (type, root) ∧
      (∀ field ∈ fields, root.at? (tokens field.field) = some
        { field.schema now with
          items := if field.schemaType = "array" then some (.single (.typed "string"))
            else none }) ∧
      (∀ p node, root.at? p = some node → (∀ field ∈ fields, ¬ tokens field.field <+: p) →
        Interior node) ∧
      ∀ permuted, permuted.Perm rules → ∃ other, schema now permuted = .ok (type, other) ∧
        other.sortRequired = root.sortRequired := by
  have hrules : Separate fields := ⟨hfree, hunmixed, hstar⟩
  refine ⟨_, _, schema_of_read hread, ?_, ?_, ?_⟩
  · intro field hfield
    have hend : (draft now fields).at? (tokens field.field) = some (field.schema now) :=
      at?_draft_of_mem hfree hunmixed hfield
    rw [ofRules_eq_collapse hstar, Schema.at?_collapse hend, collapse_schema]
  · intro p node hnode hnot
    exact interior_ofRules hrules hnode hnot
  · intro permuted hpermuted
    obtain ⟨others, hothers, hperm⟩ := RuleSet.exists_read_of_perm hpermuted hread
    have hsame : (ofRules now others).sortRequired = (ofRules now fields).sortRequired :=
      sortRequired_ofRules_of_perm hperm hrules
    have htype : mediaType (ofRules now others) = mediaType (ofRules now fields) := by
      rw [← mediaType_sortRequired, hsame, mediaType_sortRequired]
    refine ⟨ofRules now others, ?_, hsame⟩
    rw [schema_of_read hothers, htype]

/-- An array that only one rule describes, two required rules below the elements of another
one, and all three in the other order. -/
theorem schema_of_prefixFree_rows :
    let rules := [("tags", Json.str "array"), ("rows.*.id", .str "required|integer"),
      ("rows.*.name", .str "required|string")]
    let tags : FieldRules := ⟨"tags", [.type .array]⟩
    let id : FieldRules := ⟨"rows.*.id", [.required, .type .integer]⟩
    let name : FieldRules := ⟨"rows.*.name", [.required, .type .string]⟩
    RuleSet.read rules = .ok [tags, id, name] ∧ PrefixFree [tags, id, name] ∧
      Unmixed [tags, id, name] ∧
      (∀ field ∈ [tags, id, name], (tokens field.field).head? ≠ some "*") ∧
      ∃ type root node other, schema ⟨"", ""⟩ rules = .ok (type, root) ∧
        root.at? (tokens "tags") =
          some { tags.schema ⟨"", ""⟩ with items := some (.single (.typed "string")) } ∧
        root.at? ["rows", "*"] = some node ∧ Interior node ∧
        schema ⟨"", ""⟩ rules.reverse = .ok (type, other) ∧
        other.sortRequired = root.sortRequired := by
  intro rules tags id name
  have hread : RuleSet.read rules = .ok [tags, id, name] := rfl
  have hfree : PrefixFree [tags, id, name] := by decide +kernel
  have hunmixed : Unmixed [tags, id, name] := by decide +kernel
  have hstar : ∀ field ∈ [tags, id, name], (tokens field.field).head? ≠ some "*" := by
    decide +kernel
  obtain ⟨type, root, hschema, hends, habove, hpermuted⟩ :=
    schema_of_prefixFree ⟨"", ""⟩ hread hfree hunmixed hstar
  have hid : tokens id.field = ["rows", "*"] ++ ["id"] := by decide +kernel
  have hend := hends id (List.mem_cons_of_mem _ List.mem_cons_self)
  rw [hid] at hend
  obtain ⟨node, hnode, -⟩ := Schema.exists_at?_of_append hend
  have hnot : ∀ field ∈ [tags, id, name], ¬ tokens field.field <+: ["rows", "*"] := by
    decide +kernel
  obtain ⟨other, hother, hsame⟩ := hpermuted rules.reverse rules.reverse_perm
  exact ⟨hread, hfree, hunmixed, hstar, type, root, node, other, hschema,
    hends tags List.mem_cons_self, hnode, habove _ node hnode hnot, hother, hsame⟩

end ApiDoc.Body
