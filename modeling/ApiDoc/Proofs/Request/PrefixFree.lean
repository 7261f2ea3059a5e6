import ApiDoc.Proofs.Request.Required
import ApiDoc.Proofs.Request.Slots
import ApiDoc.Proofs.Schema.Sorted
import Mathlib.Data.List.Pairwise

/-!
# Bodies of rules that stand apart

Where the path of no rule is a part of another one's, every node has one task.  At the end
of a path stands what its rule describes, and above the ends stand objects and arrays that
carry nothing of their own but required names.  So the order of the rules cannot be seen
in the body, except in the order of the required names.
-/

namespace ApiDoc.Body

variable {now : Moment} {rules : RuleSet} {field : FieldRules}

/-- Of two rules neither goes through the end of the other. -/
def Beside (field other : FieldRules) : Prop :=
  ¬ tokens field.field <+: tokens other.field ∧ ¬ tokens other.field <+: tokens field.field

instance : Std.Symm Beside :=
  ⟨fun _ _ => And.symm⟩

instance : DecidableRel Beside := fun _ _ => instDecidableAnd

/-- The path of no rule is a part of another one's. -/
def PrefixFree (rules : RuleSet) : Prop :=
  rules.Pairwise Beside

instance : DecidablePred PrefixFree := fun rules =>
  inferInstanceAs (Decidable (rules.Pairwise Beside))

theorem PrefixFree.eq_of_isPrefix (h : PrefixFree rules) {other : FieldRules}
    (hfield : field ∈ rules) (hother : other ∈ rules)
    (hstart : tokens field.field <+: tokens other.field) : field = other := by
  by_contra hne
  exact (List.Pairwise.forall h hfield hother hne).1 hstart

theorem PrefixFree.of_concat (h : PrefixFree (rules ++ [field])) :
    PrefixFree rules ∧ ∀ other ∈ rules, Beside other field := by
  obtain ⟨hrules, -, hlast⟩ := List.pairwise_append.mp h
  exact ⟨hrules, fun other hother => hlast other hother field List.mem_cons_self⟩

theorem PrefixFree.of_perm {others : RuleSet} (h : PrefixFree rules) (hperm : rules.Perm others) :
    PrefixFree others :=
  (hperm.pairwise_iff fun hbeside => hbeside.symm).mp h

/-- Rules that stand apart: no path ends inside another one, none is mixed, and none starts
with a star. -/
structure Separate (rules : RuleSet) : Prop where
  free : PrefixFree rules
  unmixed : Unmixed rules
  named : ∀ field ∈ rules, (tokens field.field).head? ≠ some "*"

theorem Separate.of_perm {others : RuleSet} (h : Separate rules) (hperm : rules.Perm others) :
    Separate others :=
  ⟨h.free.of_perm hperm, h.unmixed.mono fun _ => hperm.mem_iff.mpr,
    fun field hfield => h.named field (hperm.mem_iff.mpr hfield)⟩

/-- From a node above the ends of all paths some rule leads on. -/
theorem exists_continues {p : List String} (hp : p ≠ []) {node : Schema}
    (h : (draft now rules).at? p = some node)
    (hnot : ∀ field ∈ rules, ¬ tokens field.field <+: p) : ∃ next, Continues rules p next := by
  obtain ⟨field, hfield, rest, hrest⟩ := (exists_prefix_of_at?_draft h).resolve_left hp
  cases rest with
  | nil =>
      rw [List.append_nil] at hrest
      exact absurd (hrest ▸ List.prefix_refl p) (hnot field hfield)
  | cons next more => exact ⟨next, continues_of_append hfield hrest.symm⟩

/-! ## Ends of paths -/

/-- At the end of its path stands what a rule describes. -/
theorem at?_draft_of_mem (hfree : PrefixFree rules) (hunmixed : Unmixed rules)
    (hfield : field ∈ rules) :
    (draft now rules).at? (tokens field.field) = some (field.schema now) := by
  induction rules using List.reverseRecOn with
  | nil => cases hfield
  | append_singleton rules last ih =>
      obtain ⟨hbefore, hapart⟩ := hfree.of_concat
      rw [draft_concat]
      rcases List.mem_append.mp hfield with hmem | hmem
      · have hclash : ¬ Clash (tokens field.field) (tokens last.field) :=
          hunmixed.not_clash hfield (List.mem_append_right _ List.mem_cons_self)
            (List.prefix_refl _)
        rw [at?_addRules_of_not_removes (hapart field hmem).1 (mt Removes.clash hclash)]
        exact ih hbefore (hunmixed.mono fun f hf => List.mem_append_left _ hf) hmem
      · obtain rfl := List.mem_singleton.mp hmem
        obtain ⟨front, token, hpath⟩ := exists_tokens_eq_concat field.field
        have hnone : (draft now rules).at? (front ++ [token]) = none := by
          rw [Option.eq_none_iff_forall_ne_some, ← hpath]
          intro node hnode
          rcases exists_prefix_of_at?_draft hnode with hnil | ⟨other, hother, hstart⟩
          · exact tokens_ne_nil _ hnil
          · exact (hapart other hother).2 hstart
        rw [hpath, at?_addRules_concat hpath, settle_nil, hnone]
        rfl

/-! ## Above the ends -/

/-- An object with nothing but properties and required names. -/
def IsObject (node : Schema) : Prop :=
  ∃ properties required,
    node = { type := some "object", properties := some properties, required := required }

/-- An array with nothing but elements. -/
def IsArray (node : Schema) : Prop :=
  ∃ items, node = { type := some "array", items := some items }

/-- The container that the next segment asks for, with nothing else. -/
def IsContainer (next : String) (node : Schema) : Prop :=
  if next = "*" then IsArray node else IsObject node

theorem isContainer_star {node : Schema} : IsContainer "*" node ↔ IsArray node := by
  rw [IsContainer, if_pos rfl]

theorem isContainer_of_ne {next : String} (h : next ≠ "*") {node : Schema} :
    IsContainer next node ↔ IsObject node := by
  rw [IsContainer, if_neg h]

theorem isContainer_congr {next other : String} (h : containerType next = containerType other)
    {node : Schema} : IsContainer next node ↔ IsContainer other node := by
  have hstar : next = "*" ↔ other = "*" := by
    rw [← not_iff_not, ← ne_eq, ← ne_eq, ← containerType_eq_object_iff,
      ← containerType_eq_object_iff, h]
  simp only [IsContainer, hstar]

theorem isContainer_newNode (now : Moment) (field : FieldRules) (next : String)
    (more : List String) :
    IsContainer next (newNode now (next :: more) field) := by
  by_cases hstar : next = "*"
  · rw [hstar, isContainer_star]
    exact ⟨.list [], rfl⟩
  · rw [isContainer_of_ne hstar, newNode, containerType, if_neg hstar]
    exact ⟨[], none, rfl⟩

/-- A container keeps its type. -/
theorem upgrade_of_isContainer {next : String} {node : Schema} (h : IsContainer next node) :
    upgrade node (containerType next) = node := by
  by_cases hstar : next = "*"
  · rw [hstar, isContainer_star] at h
    obtain ⟨items, rfl⟩ := h
    rw [hstar]
    rfl
  · obtain ⟨properties, required, rfl⟩ := (isContainer_of_ne hstar).mp h
    rw [containerType, if_neg hstar]
    rfl

/-- A rule that asks for the same container finds it or makes it. -/
theorem isContainer_visit {token next : String} (more : List String) {node : Option Schema}
    (h : ∀ old ∈ node, IsContainer next old) :
    IsContainer next (visit now field token (next :: more) node) := by
  cases node with
  | none => exact isContainer_newNode now field next more
  | some old =>
      rw [visit, if_neg (by simp), nodeType, upgrade_of_isContainer (h old rfl)]
      exact h old rfl

/-- What a rule adds below a container leaves it one. -/
theorem isContainer_settle {next : String} (more : List String) {node : Schema}
    (h : IsContainer next node) : IsContainer next (settle now field (next :: more) node) := by
  by_cases hstar : next = "*"
  · subst hstar
    obtain ⟨items, hsettle⟩ := settle_star now field more node
    obtain ⟨old, rfl⟩ := isContainer_star.mp h
    rw [hsettle, isContainer_star]
    exact ⟨items, rfl⟩
  · obtain ⟨properties, required, hsettle⟩ := settle_of_ne now field
      hstar more node
    obtain ⟨old, marked, rfl⟩ := (isContainer_of_ne hstar).mp h
    rw [hsettle, isContainer_of_ne hstar]
    exact ⟨properties, required, rfl⟩

/-- Where no rule starts with a star, the body itself is an object. -/
theorem isObject_draft (hstar : ∀ field ∈ rules, (tokens field.field).head? ≠ some "*") :
    IsObject (draft now rules) := by
  induction rules using List.reverseRecOn with
  | nil => exact ⟨[], none, rfl⟩
  | append_singleton rules field ih =>
      have hlast : (tokens field.field).head? ≠ some "*" :=
        hstar field (List.mem_append_right _ List.mem_cons_self)
      have hothers : ∀ other ∈ rules, (tokens other.field).head? ≠ some "*" :=
        fun other hother => hstar other (List.mem_append_left _ hother)
      obtain ⟨old, marked, hold⟩ := ih hothers
      rw [draft_concat, addRules_eq_settle]
      cases hpath : tokens field.field with
      | nil => exact absurd hpath (tokens_ne_nil _)
      | cons token rest =>
          have hne : token ≠ "*" := by
            rintro rfl
            exact hlast (by rw [hpath, List.head?_cons])
          obtain ⟨properties, required, hsettle⟩ := settle_of_ne now field
            hne rest (draft now rules)
          rw [hsettle, hold]
          exact ⟨properties, required, rfl⟩

/-- Below the body itself a node above the ends is the container for what comes next. -/
theorem isContainer_draft (hfree : PrefixFree rules) (hunmixed : Unmixed rules)
    {p : List String} (hp : p ≠ []) {next : String} (hnext : Continues rules p next)
    {node : Schema} (h : (draft now rules).at? p = some node) : IsContainer next node := by
  induction rules using List.reverseRecOn generalizing next node with
  | nil =>
      obtain ⟨_, hnone, -⟩ := hnext
      cases hnone
  | append_singleton rules last ih =>
      have hsub : ∀ f ∈ rules, f ∈ rules ++ [last] := fun f hf => List.mem_append_left _ hf
      obtain ⟨hbefore, hapart⟩ := hfree.of_concat
      rw [draft_concat] at h
      rcases at?_addRules_cases h with ⟨hbeside, hold⟩ | ⟨hroot, -⟩ |
        ⟨_, token, rest, -, hpath, rfl⟩
      · have hnot : ¬ p ++ [next] <+: tokens last.field := fun hlonger =>
          hbeside ((List.prefix_append _ _).trans hlonger)
        exact ih hbefore (hunmixed.mono hsub) (hnext.of_concat hnot) hold
      · exact absurd hroot hp
      · have hlast : last ∈ rules ++ [last] := List.mem_append_right _ List.mem_cons_self
        cases rest with
        | nil =>
            -- The last rule would end above the end of a longer one.
            rw [List.append_nil] at hpath
            obtain ⟨longer, hlonger, hmore⟩ := hnext
            have hstart : tokens last.field <+: tokens longer.field :=
              hpath ▸ (List.prefix_append p [next]).trans hmore
            obtain rfl := hfree.eq_of_isPrefix hlast hlonger hstart
            have hlength := hmore.length_le
            simp [hpath] at hlength
        | cons first tail =>
            have hfirst : Continues (rules ++ [last]) p first := continues_of_append hlast hpath
            rw [isContainer_congr (hunmixed.containerType_eq hnext hfirst)]
            apply isContainer_settle
            apply isContainer_visit
            intro old hold
            have hnot : ∀ other ∈ rules, ¬ tokens other.field <+: p := by
              intro other hother hshort
              exact (hapart other hother).1 (hshort.trans ⟨first :: tail, hpath.symm⟩)
            obtain ⟨second, hsecond⟩ := exists_continues hp hold hnot
            have hsame : containerType second = containerType first :=
              hunmixed.containerType_eq (hsecond.mono hsub) hfirst
            exact (isContainer_congr hsame).mp (ih hbefore (hunmixed.mono hsub) hsecond hold)

/-! ## Finished bodies -/

theorem ofRules_eq_collapse (hstar : ∀ field ∈ rules, (tokens field.field).head? ≠ some "*") :
    ofRules now rules = (draft now rules).collapse := by
  have hitems : (draft now rules).items = none := (items_draft_eq_none_iff now).mpr hstar
  have hnone : Schema.collapseItems (draft now rules).items = (draft now rules).items := by
    rw [hitems]
    rfl
  rw [Schema.collapse_eq, hnone]
  rfl

/-- Finishing makes strings of the elements of an array that only one rule describes. -/
theorem collapse_schema (field : FieldRules) :
    (field.schema now).collapse =
      { field.schema now with
        items := if field.schemaType = "array" then some (.single (.typed "string"))
          else none } := by
  have hproperties : (field.schema now).properties = none := rfl
  have hitems : Schema.collapseItems (field.schema now).items =
      if field.schemaType = "array" then some (.single (.typed "string")) else none := by
    have hown : (field.schema now).items =
        if field.schemaType = "array" then some (.list []) else none := rfl
    rw [hown]
    by_cases harray : field.schemaType = "array"
    · rw [if_pos harray, if_pos harray]
      rfl
    · rw [if_neg harray, if_neg harray]
      rfl
  rw [Schema.collapse_eq, hitems, hproperties, Schema.collapseProperties]
  rfl

theorem IsObject.collapse {node : Schema} (h : IsObject node) : IsObject node.collapse := by
  obtain ⟨properties, required, rfl⟩ := h
  exact ⟨_, required, rfl⟩

/-- A node that carries nothing but its type, its properties or its elements, and required
names. -/
def Interior (node : Schema) : Prop :=
  IsObject node ∨ ∃ item, node = .arrayOf item

theorem IsContainer.interior_collapse {next : String} {node : Schema} (h : IsContainer next node) :
    Interior node.collapse := by
  by_cases hstar : next = "*"
  · rw [hstar, isContainer_star] at h
    obtain ⟨items, rfl⟩ := h
    obtain ⟨finished, hfinished⟩ :
        ∃ finished, Schema.collapseItems (some items) = some finished := by
      cases items with
      | single item => exact ⟨_, rfl⟩
      | list slots => cases slots <;> exact ⟨_, rfl⟩
    obtain ⟨item, rfl, -⟩ := Schema.exists_of_collapseItems_eq_some hfinished
    refine .inr ⟨item, ?_⟩
    rw [Schema.collapse_eq, hfinished]
    rfl
  · exact .inl ((isContainer_of_ne hstar).mp h).collapse

/-- Nodes above the ends of all paths carry nothing of their own. -/
theorem interior_ofRules (hrules : Separate rules) {p : List String} {node : Schema}
    (h : (ofRules now rules).at? p = some node)
    (hnot : ∀ field ∈ rules, ¬ tokens field.field <+: p) : Interior node := by
  rw [ofRules_eq_collapse hrules.named] at h
  rcases Schema.exists_of_at?_collapse h with ⟨old, hold, rfl⟩ |
    ⟨front, array, rfl, harray, hslots, -⟩
  · by_cases hp : p = []
    · subst hp
      obtain rfl := Option.some.inj hold
      exact .inl (isObject_draft hrules.named).collapse
    · obtain ⟨next, hnext⟩ := exists_continues hp hold hnot
      exact (isContainer_draft hrules.free hrules.unmixed hp hnext hold).interior_collapse
  · -- An array without a slot stands at the end of a path.
    exfalso
    have hfront : front ≠ [] := by
      rintro rfl
      obtain rfl := Option.some.inj harray
      rw [(items_draft_eq_none_iff now).mpr hrules.named] at hslots
      cases hslots
    have habove : ∀ field ∈ rules, ¬ tokens field.field <+: front := fun field hfield hshort =>
      hnot field hfield (hshort.trans (List.prefix_append _ _))
    obtain ⟨next, hnext⟩ := exists_continues hfront harray habove
    have hcontainer := isContainer_draft hrules.free hrules.unmixed hfront hnext harray
    by_cases hnextStar : next = "*"
    · obtain ⟨field, hfield, hstart⟩ := hnext
      obtain ⟨slot, hslot⟩ := exists_at?_draft now hrules.unmixed hfield hstart
      rw [hnextStar, Schema.at?_concat, harray, Option.bind_some,
        Schema.child?_eq_none_of_slotless hslots] at hslot
      cases hslot
    · obtain ⟨properties, required, rfl⟩ := (isContainer_of_ne hnextStar).mp hcontainer
      cases hslots

end ApiDoc.Body
