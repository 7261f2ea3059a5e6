import ApiDoc.Proofs.Request.Draft

/-!
# The nodes that stand

A rule makes the nodes on its path that are not there yet.  A later rule takes a node away
again if it leads on to a property where the path of the node goes to elements: there the
array becomes an object.  So the rules alone say which nodes stand at the end, and which
rule has made each of them, also where paths are mixed.
-/

namespace ApiDoc.Body

variable {rules before after : RuleSet} {field : FieldRules} {p : List String}

/-! ## Nodes that stand -/

/-- Some rule goes through a node, and no later one takes it away. -/
def Stands (rules : RuleSet) (p : List String) : Prop :=
  ∃ before field after, rules = before ++ field :: after ∧ p <+: tokens field.field ∧
    ∀ later ∈ after, ¬ Removes (tokens later.field) p

theorem not_stands_nil (p : List String) : ¬ Stands [] p := by
  rintro ⟨before, field, after, heq, -⟩
  simp at heq

/-- After one more rule, its own nodes stand and the old ones that it does not take away. -/
theorem stands_concat_iff : Stands (rules ++ [field]) p ↔
    p <+: tokens field.field ∨ (Stands rules p ∧ ¬ Removes (tokens field.field) p) := by
  constructor
  · rintro ⟨before, through, after, heq, hp, hstays⟩
    rcases List.eq_nil_or_concat' after with rfl | ⟨middle, last, rfl⟩
    · obtain ⟨-, rfl⟩ := List.append_singleton_inj.mp heq
      exact .inl hp
    · rw [← List.cons_append, ← List.append_assoc] at heq
      obtain ⟨rfl, rfl⟩ := List.append_singleton_inj.mp heq
      obtain ⟨hmiddle, hlast⟩ := List.forall_mem_append.mp hstays
      exact .inr ⟨⟨before, through, middle, rfl, hp, hmiddle⟩, hlast _ List.mem_cons_self⟩
  · rintro (hp | ⟨⟨before, through, after, rfl, hp, hstays⟩, hlast⟩)
    · exact ⟨rules, field, [], rfl, hp, List.forall_mem_nil _⟩
    · refine ⟨before, through, after ++ [field], ?_, hp, ?_⟩
      · rw [List.append_assoc, List.cons_append]
      · exact List.forall_mem_append.mpr ⟨hstays, List.forall_mem_singleton.mpr hlast⟩

/-- The nodes of a body, below it, are the ones that stand. -/
theorem exists_at?_draft_iff_stands (now : Moment) (hp : p ≠ []) :
    (∃ node, (draft now rules).at? p = some node) ↔ Stands rules p := by
  induction rules using List.reverseRecOn with
  | nil =>
      refine iff_of_false ?_ (not_stands_nil p)
      rintro ⟨node, hnode⟩
      obtain ⟨field, hnone, -⟩ := (exists_prefix_of_at?_draft hnode).resolve_left hp
      cases hnone
  | append_singleton rules last ih =>
      rw [draft_concat, stands_concat_iff, ← ih]
      by_cases hstart : p <+: tokens last.field
      · refine iff_of_true ?_ (.inl hstart)
        obtain ⟨rest, hrest⟩ := hstart
        obtain ⟨front, token, rfl⟩ := (List.eq_nil_or_concat' p).resolve_left hp
        have hpath : tokens last.field = front ++ token :: rest := by
          rw [← hrest, List.append_assoc, List.singleton_append]
        exact ⟨_, at?_addRules_concat hpath _⟩
      · rw [or_iff_right hstart]
        by_cases hremoved : Removes (tokens last.field) p
        · rw [at?_addRules_of_removes hremoved]
          simp [hremoved]
        · rw [at?_addRules_of_not_removes hstart hremoved, and_iff_left hremoved]

theorem at?_draft_eq_none (now : Moment) (hp : p ≠ []) (h : ¬ Stands rules p) :
    (draft now rules).at? p = none := by
  rw [Option.eq_none_iff_forall_ne_some]
  intro node hnode
  exact h ((exists_at?_draft_iff_stands now hp).mp ⟨node, hnode⟩)

/-! ## Rules that make nodes -/

/-- Among the rules `before ++ field :: after`, the one that makes the node that is at a path
in the end. -/
structure Founds (before : RuleSet) (field : FieldRules) (after : RuleSet)
    (p : List String) : Prop where
  through : p <+: tokens field.field
  missing : ¬ Stands before p
  stays : ∀ later ∈ after, ¬ Removes (tokens later.field) p

theorem Founds.concat {last : FieldRules} (h : Founds before field after p)
    (hlast : ¬ Removes (tokens last.field) p) : Founds before field (after ++ [last]) p :=
  ⟨h.through, h.missing, List.forall_mem_append.mpr ⟨h.stays, List.forall_mem_singleton.mpr hlast⟩⟩

theorem Founds.of_concat {last : FieldRules} (h : Founds before field (after ++ [last]) p) :
    Founds before field after p ∧ ¬ Removes (tokens last.field) p := by
  obtain ⟨hafter, hlast⟩ := List.forall_mem_append.mp h.stays
  exact ⟨⟨h.through, h.missing, hafter⟩, hlast _ List.mem_cons_self⟩

/-- Every node that stands has been made by a rule. -/
theorem exists_founds_of_stands (h : Stands rules p) :
    ∃ before field after, rules = before ++ field :: after ∧ Founds before field after p := by
  induction rules using List.reverseRecOn with
  | nil => exact absurd h (not_stands_nil p)
  | append_singleton rules last ih =>
      by_cases hold : Stands rules p ∧ ¬ Removes (tokens last.field) p
      · obtain ⟨before, field, after, rfl, hfounds⟩ := ih hold.1
        refine ⟨before, field, after ++ [last], ?_, hfounds.concat hold.2⟩
        rw [List.append_assoc, List.cons_append]
      · have hthrough : p <+: tokens last.field := (stands_concat_iff.mp h).resolve_right hold
        have hmissing : ¬ Stands rules p := fun hstands =>
          hold ⟨hstands, fun hremoved => hremoved.not_isPrefix hthrough⟩
        exact ⟨rules, last, [], rfl, hthrough, hmissing, List.forall_mem_nil _⟩

end ApiDoc.Body
