import ApiDoc.Proofs.Request.Slots

/-!
# Paths into finished bodies

Finishing a body finishes everything below its properties and leaves its own elements as
they are.  So every path leads in the finished body to the node to which it led before,
with the same fields, required names and names of properties; and what is new are only the
strings of arrays that had no slot.
-/

namespace ApiDoc.Body

variable {now : Moment} {rules : RuleSet}

/-- A node when the body around it is finished: what is below it is finished or left, and
nothing else changes. -/
structure Finishes (old new : Schema) : Prop where
  plain : new.plain = old.plain
  required : new.required = old.required
  properties : new.properties = old.properties ∨
    new.properties = Schema.collapseProperties old.properties
  items : new.items = old.items ∨ new.items = Schema.collapseItems old.items

namespace Finishes

variable {old new : Schema}

theorem refl (s : Schema) : Finishes s s :=
  ⟨rfl, rfl, .inl rfl, .inl rfl⟩

theorem collapse (s : Schema) : Finishes s s.collapse := by
  rw [Schema.collapse_eq]
  exact ⟨rfl, rfl, .inr rfl, .inr rfl⟩

theorem root (now : Moment) (rules : RuleSet) : Finishes (draft now rules) (ofRules now rules) :=
  ⟨rfl, rfl, .inr rfl, .inl rfl⟩

/-- The properties that are finished have the names that they had. -/
theorem keys (h : Finishes old new) :
    Dict.keys (new.properties.getD []) = Dict.keys (old.properties.getD []) := by
  rcases h.properties with heq | heq
  · rw [heq]
  · rw [heq, Schema.collapseProperties_eq_map]
    cases old.properties with
    | none => rfl
    | some properties => exact List.map_map

/-- A path leads to everything in a node that is finished. -/
theorem routed (h : Finishes old new) (hold : Drafted old) : new.Routed := by
  have hincreasing : Dict.Increasing (new.properties.getD []) := by
    rw [Dict.increasing_iff_keys, h.keys]
    exact Dict.increasing_iff_keys.mp hold.increasing
  refine ⟨?_, ?_⟩
  · intro entry hentry
    have hne : entry.1 ≠ "*" := by
      intro hstar
      apply hold.names
      rw [← h.keys, ← hstar]
      exact List.mem_map_of_mem hentry
    rw [Schema.child?_of_ne _ hne]
    exact Dict.find?_of_mem hincreasing hentry
  · intro items hitems item hitem
    rw [Schema.child?_star, Schema.item?, Option.mem_def.mp hitems]
    rcases h.items with heq | heq
    · obtain ⟨slots, rfl, hlength⟩ := hold.slots items (heq ▸ hitems)
      cases slots with
      | nil => cases hitem
      | cons slot rest =>
          cases rest with
          | nil =>
              rw [List.mem_singleton.mp hitem]
              rfl
          | cons second more => simp at hlength
    · obtain ⟨only, rfl, -⟩ :=
        Schema.exists_of_collapseItems_eq_some (heq.symm.trans hitems)
      rw [List.mem_singleton.mp hitem]

end Finishes

theorem child?_ofRules_star : (ofRules now rules).child? "*" = (draft now rules).child? "*" := by
  rw [Schema.child?_star, Schema.child?_star]
  rfl

theorem child?_ofRules_of_ne {token : String} (h : token ≠ "*") :
    (ofRules now rules).child? token = ((draft now rules).child? token).map Schema.collapse := by
  have hcollapse := Schema.child?_collapse (s := draft now rules) fun hstar => absurd hstar h
  rw [← hcollapse, Schema.collapse_eq, Schema.child?_of_ne _ h, Schema.child?_of_ne _ h]
  rfl

/-- Every path leads where it led. -/
theorem exists_at?_ofRules {p : List String} {node : Schema}
    (h : (draft now rules).at? p = some node) :
    ∃ finished, (ofRules now rules).at? p = some finished ∧ Finishes node finished := by
  cases p with
  | nil =>
      obtain rfl := Option.some.inj h
      exact ⟨_, rfl, .root now rules⟩
  | cons token rest =>
      obtain ⟨child, hchild, hrest⟩ := Option.bind_eq_some_iff.mp h
      rw [Schema.at?_cons]
      by_cases hstar : token = "*"
      · subst hstar
        rw [child?_ofRules_star, hchild]
        exact ⟨node, hrest, .refl node⟩
      · rw [child?_ofRules_of_ne hstar, hchild]
        exact ⟨node.collapse, Schema.at?_collapse hrest, .collapse node⟩

/-- A path into a finished body led somewhere before, or it leads to the strings of an array
that had no slot. -/
theorem exists_of_at?_ofRules {p : List String} {node : Schema}
    (h : (ofRules now rules).at? p = some node) :
    (∃ old, (draft now rules).at? p = some old ∧ Finishes old node) ∨
      ∃ front array, p = front ++ ["*"] ∧ (draft now rules).at? front = some array ∧
        array.items = some (.list []) ∧ node = .typed "string" := by
  cases p with
  | nil =>
      obtain rfl := Option.some.inj h
      exact .inl ⟨_, rfl, .root now rules⟩
  | cons token rest =>
      rw [Schema.at?_cons] at h ⊢
      by_cases hstar : token = "*"
      · subst hstar
        rw [child?_ofRules_star] at h
        exact .inl ⟨node, h, .refl node⟩
      · rw [child?_ofRules_of_ne hstar] at h
        obtain ⟨finished, hfinished, hrest⟩ := Option.bind_eq_some_iff.mp h
        obtain ⟨child, hchild, rfl⟩ := Option.map_eq_some_iff.mp hfinished
        rw [hchild, Option.bind_some]
        rcases Schema.exists_of_at?_collapse hrest with ⟨old, hold, rfl⟩ |
          ⟨front, array, rfl, harray, hslotless, rfl⟩
        · exact .inl ⟨old, hold, .collapse old⟩
        · refine .inr ⟨token :: front, array, rfl, ?_, hslotless, rfl⟩
          rw [Schema.at?_cons, hchild, Option.bind_some, harray]

/-- Paths lead to everything in a finished body. -/
theorem routed_at?_ofRules {p : List String} {node : Schema}
    (h : (ofRules now rules).at? p = some node) : node.Routed := by
  rcases exists_of_at?_ofRules h with ⟨old, hold, hfinishes⟩ | ⟨front, array, rfl, -, -, rfl⟩
  · exact hfinishes.routed (drafted_draft hold)
  · exact ⟨List.forall_mem_nil _, fun _ hnone => nomatch hnone⟩

end ApiDoc.Body
