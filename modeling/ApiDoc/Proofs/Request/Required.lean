import ApiDoc.Proofs.Request.Draft

/-!
# Required names of bodies

A required rule marks every segment of its path behind the last star.  Where no path is
mixed, the required names of a node are, at any time, the names that the rules so far have
marked there, each of them once.
-/

namespace ApiDoc.Body

variable {now : Moment} {rules : RuleSet} {field : FieldRules}

/-- A required rule goes through a path to a property, and no star comes from there on. -/
def Requires (rules : RuleSet) (p : List String) (name : String) : Prop :=
  ∃ field ∈ rules, field.isRequired = true ∧
    ∃ rest, tokens field.field = p ++ name :: rest ∧ "*" ∉ name :: rest

theorem Requires.mono {others : RuleSet} (hsub : ∀ field ∈ rules, field ∈ others)
    {p : List String} {name : String} (h : Requires rules p name) : Requires others p name := by
  obtain ⟨field, hfield, hrequired⟩ := h
  exact ⟨field, hsub field hfield, hrequired⟩

theorem requires_concat_iff {p : List String} {name : String} :
    Requires (rules ++ [field]) p name ↔
      Requires rules p name ∨
        (field.isRequired = true ∧
          ∃ rest, tokens field.field = p ++ name :: rest ∧ "*" ∉ name :: rest) := by
  simp only [Requires, List.mem_append, List.mem_singleton, or_and_right, exists_or,
    exists_eq_left]

/-- A list of required names has exactly the wanted names, each of them once; without any
there is no list. -/
structure Lists (required : Option (List String)) (wanted : String → Prop) : Prop where
  nodup : (required.getD []).Nodup
  mem_iff : ∀ name, name ∈ required.getD [] ↔ wanted name
  nonempty : required ≠ some []

namespace Lists

variable {required : Option (List String)} {wanted : String → Prop}

theorem none_of_not (h : ∀ name, ¬ wanted name) : Lists none wanted :=
  ⟨List.nodup_nil, fun name => iff_of_false List.not_mem_nil (h name), nofun⟩

theorem congr (h : Lists required wanted) {others : String → Prop}
    (heq : ∀ name, others name ↔ wanted name) : Lists required others :=
  ⟨h.nodup, fun name => (h.mem_iff name).trans (heq name).symm, h.nonempty⟩

/-- A mark adds one name. -/
theorem mark {s : Schema} (h : Lists s.required wanted) (name : String) :
    Lists (s.markRequired name).required fun other => wanted other ∨ other = name := by
  rw [Schema.markRequired]
  by_cases hmem : name ∈ s.required.getD []
  · rw [if_pos (List.contains_iff_mem.mpr hmem)]
    refine ⟨h.nodup, ?_, ?_⟩
    · intro other
      rw [Option.getD_some, h.mem_iff other, iff_self_or]
      rintro rfl
      exact (h.mem_iff other).mp hmem
    · intro hnone
      rw [Option.some.inj hnone] at hmem
      cases hmem
  · rw [if_neg (fun hcontains => hmem (List.contains_iff_mem.mp hcontains))]
    refine ⟨?_, ?_, ?_⟩
    · exact List.nodup_append'.mpr
        ⟨h.nodup, List.nodup_singleton name, List.disjoint_singleton.mpr hmem⟩
    · intro other
      rw [Option.getD_some, List.mem_append, List.mem_singleton, h.mem_iff other]
    · intro hnone
      exact List.append_ne_nil_of_right_ne_nil _ (List.cons_ne_nil _ _) (Option.some.inj hnone)

end Lists

/-! ## Required names of one node -/

theorem required_visit {token : String} {rest : List String} (node : Option Schema) :
    (visit now field token rest node).required = node.bind Schema.required := by
  have hensure : ∀ s : Schema, (ensureContainer s).required = s.required := by
    intro s
    rw [ensureContainer]
    split
    · rfl
    · split <;> rfl
  cases node with
  | none =>
      cases rest with
      | nil => rfl
      | cons next more => exact hensure _
  | some s =>
      rw [visit, Option.bind_some]
      split
      · rfl
      · rw [upgrade, hensure]
        split <;> rfl

/-- A required rule marks the next segment, if no star comes from there on. -/
theorem required_settle (token : String) (rest : List String) (node : Schema) :
    (settle now field (token :: rest) node).required =
      if field.isRequired = true ∧ "*" ∉ token :: rest then (node.markRequired token).required
      else node.required := by
  rw [settle]
  by_cases hrequired : field.isRequired = true
  · obtain ⟨last, hlast⟩ : ∃ last, (insert now field (token :: rest) node).at?
        (token :: rest) = some last := by
      obtain ⟨front, last, hpath⟩ : ∃ front last, token :: rest = front ++ [last] :=
        (List.eq_nil_or_concat' _).resolve_left (List.cons_ne_nil _ _)
      rw [hpath]
      exact ⟨_, at?_insert_concat front last [] node⟩
    rw [if_pos hrequired, required_markRequired hlast, required_insert]
    by_cases hstar : "*" ∈ token :: rest
    · rw [if_pos hstar, if_neg fun h => h.2 hstar]
    · rw [if_neg hstar, if_pos ⟨hrequired, hstar⟩, Schema.markRequired, Schema.markRequired,
        required_insert]
  · rw [if_neg hrequired, if_neg fun h => hrequired h.1, required_insert]

/-- One rule adds to the required names of a node on its path what it requires there. -/
theorem lists_settle {p rest : List String} (hpath : tokens field.field = p ++ rest)
    {node : Schema} (h : Lists node.required (Requires rules p)) :
    Lists (settle now field rest node).required (Requires (rules ++ [field]) p) := by
  cases rest with
  | nil =>
      rw [settle_nil]
      refine h.congr fun name => ?_
      rw [requires_concat_iff, hpath]
      simp
  | cons token rest =>
      have hown : ∀ name, (∃ more, tokens field.field = p ++ name :: more ∧ "*" ∉ name :: more) ↔
          name = token ∧ "*" ∉ token :: rest := by
        intro name
        rw [hpath]
        constructor
        · rintro ⟨more, heq, hstar⟩
          obtain ⟨rfl, rfl⟩ := List.cons.inj (List.append_cancel_left heq)
          exact ⟨rfl, hstar⟩
        · rintro ⟨rfl, hstar⟩
          exact ⟨rest, rfl, hstar⟩
      rw [required_settle]
      by_cases hmarks : field.isRequired = true ∧ "*" ∉ token :: rest
      · rw [if_pos hmarks]
        refine (h.mark token).congr fun name => ?_
        rw [requires_concat_iff, hown]
        exact or_congr_right ⟨fun hname => hname.2.1, fun hname => ⟨hmarks.1, hname, hmarks.2⟩⟩
      · rw [if_neg hmarks]
        refine h.congr fun name => ?_
        rw [requires_concat_iff, hown, or_iff_left]
        rintro ⟨hrequired, -, hstar⟩
        exact hmarks ⟨hrequired, hstar⟩

/-! ## Required names of bodies -/

/-- The required names of a node are the ones that the rules require there. -/
theorem lists_required_draft (hunmixed : Unmixed rules) {p : List String} {node : Schema}
    (h : (draft now rules).at? p = some node) : Lists node.required (Requires rules p) := by
  induction rules using List.reverseRecOn generalizing p node with
  | nil =>
      have hnone : ∀ name, ¬ Requires [] p name := by
        rintro name ⟨_, hfield, -⟩
        cases hfield
      rcases exists_prefix_of_at?_draft h with rfl | ⟨field, hfield, -⟩
      · obtain rfl := Option.some.inj h
        exact .none_of_not hnone
      · cases hfield
  | append_singleton rules field ih =>
      have hbefore : Unmixed rules := hunmixed.mono fun f hf => List.mem_append_left _ hf
      rw [draft_concat] at h
      rcases at?_addRules_cases h with ⟨hbeside, hold⟩ | ⟨rfl, rfl⟩ |
        ⟨front, token, rest, rfl, hpath, rfl⟩
      · refine (ih hbefore hold).congr fun name => ?_
        rw [requires_concat_iff, or_iff_left]
        rintro ⟨-, rest, hpath, -⟩
        exact hbeside ⟨name :: rest, hpath.symm⟩
      · exact lists_settle rfl (ih hbefore (Schema.at?_nil _))
      · apply lists_settle hpath
        rw [required_visit]
        cases hold : (draft now rules).at? (front ++ [token]) with
        | some old => exact ih hbefore hold
        | none =>
            -- A rule that requires a name here would have made the node.
            refine .none_of_not ?_
            rintro name ⟨other, hother, -, more, hmore, -⟩
            obtain ⟨old, hsome⟩ := exists_at?_draft now hbefore hother
              (p := front ++ [token]) ⟨name :: more, hmore.symm⟩
            rw [hold] at hsome
            cases hsome

end ApiDoc.Body
