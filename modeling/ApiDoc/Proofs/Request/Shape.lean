import ApiDoc.Proofs.Request.Finish

/-!
# The shapes of nodes

A rule that leads on from a node asks for an array or for an object there, and a rule that
ends at the node asks for its own type.  At a property the rules that lead on win, in
whatever order the rules come, for a populated property is left as it is.  An element slot
is not asked whether it is populated: there the last rule wins.
-/

namespace ApiDoc.Body

variable {now : Moment} {rules : RuleSet} {field : FieldRules}

theorem type_eq_of_plain_eq {s t : Schema} (h : s.plain = t.plain) : s.type = t.type :=
  (congrArg Schema.type h : s.plain.type = t.plain.type)

@[simp] theorem type_settle (rest : List String) (node : Schema) :
    (settle now field rest node).type = node.type :=
  type_eq_of_plain_eq (plain_settle rest node)

theorem plain_ensureContainer (s : Schema) : (ensureContainer s).plain = s.plain := by
  rw [ensureContainer]
  split
  · rfl
  · split <;> rfl

theorem type_upgrade (s : Schema) (type : String) : (upgrade s type).type = some type := by
  rw [upgrade, type_eq_of_plain_eq (plain_ensureContainer _)]
  split <;> rfl

theorem type_newNode (rest : List String) :
    (newNode now rest field).type = some (nodeType rest field) := by
  cases rest with
  | nil => rfl
  | cons next more => exact type_eq_of_plain_eq (plain_ensureContainer _)

/-- A visited node has the type that the rule gives, if it is a slot, the rule leads on or
the node is new. -/
theorem type_visit {token : String} {rest : List String} {node : Option Schema}
    (h : token = "*" ∨ rest ≠ [] ∨ node = none) :
    (visit now field token rest node).type = some (nodeType rest field) := by
  cases node with
  | none => exact type_newNode rest
  | some s =>
      have hnot : ¬ (token ≠ "*" ∧ rest = [] ∧ isPopulated s = true) := by
        rintro ⟨hne, hend, -⟩
        rcases h with hstar | hlead | hnone
        · exact hne hstar
        · exact hlead hend
        · cases hnone
      rw [visit, if_neg hnot, type_upgrade]

/-- A property that rules lead on from has the container that they ask for. -/
theorem type_property_draft (hunmixed : Unmixed rules) {front : List String} {token : String}
    (hne : token ≠ "*") {next : String} (hnext : Continues rules (front ++ [token]) next)
    {node : Schema} (h : (draft now rules).at? (front ++ [token]) = some node) :
    node.type = some (containerType next) := by
  induction rules using List.reverseRecOn generalizing node with
  | nil =>
      obtain ⟨_, hnone, -⟩ := hnext
      cases hnone
  | append_singleton rules last ih =>
      have hbefore : Unmixed rules := hunmixed.mono fun f hf => List.mem_append_left _ hf
      rw [draft_concat] at h
      rcases at?_addRules_cases h with ⟨hbeside, hold⟩ | ⟨hroot, -⟩ |
        ⟨_, _, rest, heq, hlast, hnode⟩
      · have hnot : ¬ front ++ [token] ++ [next] <+: tokens last.field := fun hlonger =>
          hbeside ((List.prefix_append _ _).trans hlonger)
        exact ih hbefore (hnext.of_concat hnot) hold
      · simp at hroot
      · obtain ⟨rfl, rfl⟩ := List.append_singleton_inj.mp heq
        rw [hnode, type_settle]
        cases rest with
        | nil =>
            -- The last rule ends here, so another one leads on and has populated the node.
            have hnot : ¬ front ++ [token] ++ [next] <+: tokens last.field := by
              intro hlonger
              have hlength := hlonger.length_le
              simp [hlast] at hlength
            have hothers : Continues rules (front ++ [token]) next := hnext.of_concat hnot
            obtain ⟨longer, hmem, hlonger⟩ := hothers
            obtain ⟨child, hchild⟩ := exists_at?_draft now hbefore hmem hlonger
            obtain ⟨old, hold, hstep⟩ := Schema.exists_at?_of_append hchild
            have hpopulated : isPopulated old = true := by
              obtain ⟨first, hfirst, -⟩ := Option.bind_eq_some_iff.mp hstep
              exact (drafted_draft hold).isPopulated hfirst
            rw [hold, visit, if_pos ⟨hne, rfl, hpopulated⟩]
            exact ih hbefore ⟨longer, hmem, hlonger⟩ hold
        | cons first tail =>
            rw [type_visit (.inr (.inl (List.cons_ne_nil _ _)))]
            have hfirst : Continues (rules ++ [last]) (front ++ [token]) first :=
              continues_of_append (List.mem_append_right _ List.mem_cons_self) hlast
            exact congrArg some (hunmixed.containerType_eq hfirst hnext)

/-- At the end of the path of a rule stands a node of the type that the last rule through it
gives, if the node is an element slot, or if the rule makes it and all later ones lead on. -/
theorem type_end_draft {before after : RuleSet} {shorter : FieldRules} {front : List String}
    {token : String} (hpath : tokens shorter.field = front ++ [token])
    (hlast : token = "*" ∨ ((draft now before).at? (front ++ [token]) = none ∧
      ∀ later ∈ after, tokens later.field ≠ tokens shorter.field)) {node : Schema}
    (h : (draft now (before ++ shorter :: after)).at? (front ++ [token]) = some node) :
    ((∀ later ∈ after, ¬ tokens shorter.field <+: tokens later.field) ∧
      node.type = some shorter.schemaType) ∨
    ∃ later ∈ after, ∃ rest, tokens later.field = tokens shorter.field ++ rest ∧
      node.type = some (nodeType rest later) := by
  induction after using List.reverseRecOn generalizing node with
  | nil =>
      rw [draft_concat, at?_addRules_concat hpath] at h
      refine .inl ⟨List.forall_mem_nil _, ?_⟩
      rw [← Option.some.inj h, type_settle, type_visit (hlast.imp_right fun hnew => .inr hnew.1)]
      rfl
  | append_singleton after last ih =>
      have hbefore : token = "*" ∨ ((draft now before).at? (front ++ [token]) = none ∧
          ∀ later ∈ after, tokens later.field ≠ tokens shorter.field) :=
        hlast.imp_right fun hnew => ⟨hnew.1, (List.forall_mem_append.mp hnew.2).1⟩
      rw [← List.cons_append, ← List.append_assoc, draft_concat] at h
      rcases at?_addRules_cases h with ⟨hbeside, hold⟩ | ⟨hroot, -⟩ |
        ⟨_, _, rest, heq, hthrough, hnode⟩
      · rcases ih hbefore hold with ⟨hnone, htype⟩ | ⟨later, hlater, rest, hrest, htype⟩
        · refine .inl ⟨?_, htype⟩
          intro later hlater
          rcases List.mem_append.mp hlater with hmem | hmem
          · exact hnone later hmem
          · rw [List.mem_singleton.mp hmem, hpath]
            exact hbeside
        · exact .inr ⟨later, List.mem_append_left _ hlater, rest, hrest, htype⟩
      · simp at hroot
      · obtain ⟨rfl, rfl⟩ := List.append_singleton_inj.mp heq
        rw [← hpath] at hthrough
        have hlead : token = "*" ∨ rest ≠ [] := hlast.imp_right fun hnew hend => by
          apply hnew.2 last (List.mem_append_right _ List.mem_cons_self)
          rw [hthrough, hend, List.append_nil]
        refine .inr ⟨last, List.mem_append_right _ List.mem_cons_self, rest, hthrough, ?_⟩
        rw [hnode, type_settle, type_visit (hlead.imp_right .inl)]

/-- Finishing keeps the types of the nodes. -/
theorem exists_type_at?_ofRules {p : List String} {node : Schema}
    (h : (draft now rules).at? p = some node) :
    ∃ finished, (ofRules now rules).at? p = some finished ∧ finished.type = node.type := by
  obtain ⟨finished, hfinished, hfinishes⟩ := exists_at?_ofRules h
  exact ⟨finished, hfinished, type_eq_of_plain_eq hfinishes.plain⟩

section Continued

variable {before after : RuleSet} {shorter longer : FieldRules} {next : String}
  {rest : List String}

/-- Another rule that comes after a rule and goes through its path leads on from there. -/
theorem ne_nil_of_after (hnames : ((before ++ shorter :: after).map (·.field)).Nodup)
    {later : FieldRules} (hlater : later ∈ after) {more : List String}
    (hmore : tokens later.field = tokens shorter.field ++ more) : more ≠ [] := by
  rintro rfl
  rw [List.map_append, List.map_cons] at hnames
  have honce : shorter.field ∉ after.map (·.field) :=
    (List.nodup_cons.mp (List.nodup_append'.mp hnames).2.1).1
  have hsame : later.field = shorter.field := by
    apply tokens_inj
    rw [hmore, List.append_nil]
  exact honce (hsame ▸ List.mem_map_of_mem hlater)

/-- When a slot gets the container of a longer rule: its own rule asks for it too, or is
not the last one. -/
theorem type_slot_iff (hnames : ((before ++ shorter :: after).map (·.field)).Nodup)
    (hunmixed : Unmixed (before ++ shorter :: after)) {front : List String}
    (hshorter : tokens shorter.field = front ++ ["*"])
    (hnext : Continues (before ++ shorter :: after) (tokens shorter.field) next) {node : Schema}
    (h : (draft now (before ++ shorter :: after)).at? (front ++ ["*"]) = some node) :
    node.type = some (containerType next) ↔
      shorter.schemaType = containerType next ∨
        ∃ later ∈ after, tokens shorter.field <+: tokens later.field := by
  rcases type_end_draft hshorter (.inl rfl) h with
    ⟨hnone, hown⟩ | ⟨later, hlater, more, hmore, hgiven⟩
  · rw [hown, Option.some.injEq]
    constructor
    · exact fun heq => .inl heq
    · rintro (heq | ⟨later, hlater, hstart⟩)
      · exact heq
      · exact absurd hstart (hnone later hlater)
  · refine iff_of_true ?_ (.inr ⟨later, hlater, more, hmore.symm⟩)
    have hmem : later ∈ before ++ shorter :: after :=
      List.mem_append_right _ (List.mem_cons_of_mem _ hlater)
    cases more with
    | nil => exact absurd rfl (ne_nil_of_after hnames hlater hmore)
    | cons first tail =>
        rw [hgiven]
        exact congrArg some (hunmixed.containerType_eq (continues_of_append hmem hmore) hnext)

/-- The node of a rule that another one leads on from has the container of the longer rule,
exactly if the node is a property, the rule has this type itself, or a longer rule comes
after it. -/
theorem type_continued_iff (now : Moment) {rules : List (String × Json)}
    (hread : RuleSet.read rules = .ok (before ++ shorter :: after))
    (hkeys : (Dict.keys rules).Nodup)
    (hunmixed : Unmixed (before ++ shorter :: after))
    (hlonger : longer ∈ before ++ shorter :: after)
    (hpath : tokens longer.field = tokens shorter.field ++ next :: rest) :
    ∃ type root node, schema now rules = .ok (type, root) ∧
      root.at? (tokens shorter.field) = some node ∧
      (node.type = some (containerType next) ↔
        (tokens shorter.field).getLast? ≠ some "*" ∨
          shorter.schemaType = containerType next ∨
          ∃ later ∈ after, tokens shorter.field <+: tokens later.field) := by
  have hnames : ((before ++ shorter :: after).map (·.field)).Nodup := by
    rw [RuleSet.map_field_of_read hread]
    exact hkeys
  have hnext : Continues (before ++ shorter :: after) (tokens shorter.field) next :=
    continues_of_append hlonger hpath
  obtain ⟨drafted, hdrafted⟩ := exists_at?_draft now hunmixed hlonger
    (p := tokens shorter.field) ⟨next :: rest, hpath.symm⟩
  obtain ⟨node, hnode, htype⟩ := exists_type_at?_ofRules hdrafted
  refine ⟨_, _, node, schema_of_read hread, hnode, ?_⟩
  rw [htype]
  obtain ⟨front, token, hshorter⟩ := exists_tokens_eq_concat shorter.field
  have hlast : (tokens shorter.field).getLast? = some token := by
    rw [hshorter, List.getLast?_append, List.getLast?_singleton, Option.or_of_isSome rfl]
  by_cases hstar : token = "*"
  · subst hstar
    have hnot : ¬ (tokens shorter.field).getLast? ≠ some "*" := fun hne => hne hlast
    rw [or_iff_right hnot]
    exact type_slot_iff hnames hunmixed hshorter hnext (hshorter ▸ hdrafted)
  · have hproperty : drafted.type = some (containerType next) := by
      rw [hshorter] at hdrafted hnext
      exact type_property_draft hunmixed hstar hnext hdrafted
    refine iff_of_true hproperty (.inl ?_)
    rw [hlast]
    exact fun heq => hstar (Option.some.inj heq)

/-- The rule of a slot before a rule that leads on from it. -/
theorem type_continued_rows :
    let rules := [("rows", Json.str "array"), ("rows.*", .str "string"),
      ("rows.*.id", .str "integer")]
    let before : RuleSet := [⟨"rows", [.type .array]⟩]
    let shorter : FieldRules := ⟨"rows.*", [.type .string]⟩
    let longer : FieldRules := ⟨"rows.*.id", [.type .integer]⟩
    RuleSet.read rules = .ok (before ++ [shorter, longer]) ∧ (Dict.keys rules).Nodup ∧
      Unmixed (before ++ [shorter, longer]) ∧
      tokens longer.field = tokens shorter.field ++ ["id"] ∧
      ∃ type root node, schema ⟨"", ""⟩ rules = .ok (type, root) ∧
        root.at? (tokens shorter.field) = some node ∧ node.type = some "object" := by
  intro rules before shorter longer
  have hread : RuleSet.read rules = .ok (before ++ [shorter, longer]) := rfl
  have hkeys : (Dict.keys rules).Nodup := by decide +kernel
  have hunmixed : Unmixed (before ++ [shorter, longer]) := by decide +kernel
  have hpath : tokens longer.field = tokens shorter.field ++ ["id"] := by decide +kernel
  obtain ⟨type, root, node, hschema, hnode, htype⟩ :=
    type_continued_iff ⟨"", ""⟩ hread hkeys hunmixed (by decide +kernel) hpath
  have hobject : containerType "id" = "object" := by decide +kernel
  have hlater : ∃ later ∈ [longer], tokens shorter.field <+: tokens later.field := by
    decide +kernel
  rw [hobject] at htype
  exact ⟨hread, hkeys, hunmixed, hpath, type, root, node, hschema, hnode,
    htype.mpr (.inr (.inr hlater))⟩

/-- A rule of a slot that comes last takes the object from it. -/
theorem not_container_rows :
    let rules := [("rows.*.id", Json.str "integer"), ("rows.*", .str "string")]
    let longer : FieldRules := ⟨"rows.*.id", [.type .integer]⟩
    let shorter : FieldRules := ⟨"rows.*", [.type .string]⟩
    RuleSet.read rules = .ok [longer, shorter] ∧ (Dict.keys rules).Nodup ∧
      Unmixed [longer, shorter] ∧ tokens longer.field = tokens shorter.field ++ ["id"] ∧
      ∃ type root node, schema ⟨"", ""⟩ rules = .ok (type, root) ∧
        root.at? (tokens shorter.field) = some node ∧
        node.type = some "string" ∧ node.type ≠ some (containerType "id") := by
  intro rules longer shorter
  have hread : RuleSet.read rules = .ok [longer, shorter] := rfl
  have htype : ((ofRules ⟨"", ""⟩ [longer, shorter]).at? (tokens shorter.field)).map
      Schema.type = some (some "string") := by
    decide +kernel
  obtain ⟨node, hnode, hstring⟩ := Option.map_eq_some_iff.mp htype
  refine ⟨hread, by decide +kernel, by decide +kernel, by decide +kernel, _, _, node,
    schema_of_read hread, hnode, hstring, ?_⟩
  rw [hstring]
  decide +kernel

end Continued

end ApiDoc.Body
