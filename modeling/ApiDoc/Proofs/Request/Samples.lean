import ApiDoc.Proofs.Request.Shape
import ApiDoc.Proofs.Request.Standing
import ApiDoc.Proofs.Scalar

/-!
# The examples in a body

A node gets its example from the rule that makes it, for the type that this rule gives, and
keeps it.  A later rule that leads on from the node makes it an array or an object, and no
example is a value of these.  So the examples agree with the types, exactly if no rule leads
on from a node that an earlier rule has made with an example.
-/

namespace ApiDoc

/-- The example of a schema is a value of its type. -/
def Schema.SampleFits (s : Schema) : Prop :=
  ∀ sample ∈ s.sample, ∃ type ∈ s.type, sample.hasType type = true

/-- What holds of all schemas inside holds of the ones that paths lead to. -/
theorem Schema.All.at? {q : Schema → Prop} {s node : Schema} {p : List String} (hall : s.All q)
    (h : s.at? p = some node) : q node := by
  induction p generalizing s with
  | nil =>
      obtain rfl := Option.some.inj h
      cases hall with
      | intro here _ _ => exact here
  | cons token rest ih =>
      obtain ⟨child, hchild, hrest⟩ := Option.bind_eq_some_iff.mp h
      apply ih _ hrest
      cases hall with
      | intro _ inProperties inItems =>
          rcases inside_of_child?_eq_some hchild with
            ⟨items, hitems, hmem⟩ | ⟨properties, hproperties, hmem⟩
          · exact inItems items hitems child hmem
          · exact inProperties properties hproperties _ hmem

namespace Body

variable {now : Moment} {rules before after : RuleSet} {field : FieldRules} {p : List String}

/-! ## Where examples come from -/

theorem sample_eq_of_plain_eq {s t : Schema} (h : s.plain = t.plain) : s.sample = t.sample :=
  (congrArg Schema.sample h : s.plain.sample = t.plain.sample)

theorem sample_upgrade (s : Schema) (type : String) : (upgrade s type).sample = s.sample := by
  rw [upgrade, sample_eq_of_plain_eq (plain_ensureContainer _)]
  split <;> rfl

/-- A visit leaves the example of a node that is there. -/
theorem sample_visit (token : String) (rest : List String) (s : Schema) :
    (visit now field token rest (some s)).sample = s.sample := by
  rw [visit]
  split
  · rfl
  · exact sample_upgrade s _

/-- A node keeps the example that it got when it was made. -/
theorem sample_draft_of_founds (now : Moment) (h : Founds before field after p) (hp : p ≠ [])
    {rest : List String} (hpath : tokens field.field = p ++ rest) :
    ∃ node, (draft now (before ++ field :: after)).at? p = some node ∧
      node.sample = (newNode now rest field).sample := by
  obtain ⟨front, token, rfl⟩ := (List.eq_nil_or_concat' p).resolve_left hp
  induction after using List.reverseRecOn with
  | nil =>
      rw [List.append_assoc, List.singleton_append] at hpath
      rw [draft_concat, at?_addRules_concat hpath, at?_draft_eq_none now hp h.missing]
      exact ⟨_, rfl, sample_eq_of_plain_eq (plain_settle rest _)⟩
  | append_singleton after last ih =>
      obtain ⟨hbefore, hstays⟩ := h.of_concat
      obtain ⟨old, hold, hsample⟩ := ih hbefore
      rw [← List.cons_append, ← List.append_assoc, draft_concat]
      by_cases hthrough : front ++ [token] <+: tokens last.field
      · obtain ⟨more, hmore⟩ := hthrough
        rw [List.append_assoc, List.singleton_append] at hmore
        rw [at?_addRules_concat hmore.symm, hold]
        refine ⟨_, rfl, ?_⟩
        rw [sample_eq_of_plain_eq (plain_settle more _), sample_visit, hsample]
      · rw [at?_addRules_of_not_removes hthrough hstays]
        exact ⟨old, hold, hsample⟩

/-- Where no example is documented, one is made up. -/
theorem sample_schema (h : field.example? = none) :
    (field.schema now).sample = Scalar.exampleFor now field.schemaType field.format? := by
  rw [FieldRules.schema, h]

/-- Only for arrays and binary strings no example is made up. -/
theorem exampleFor_schemaType_eq_none_iff (now : Moment) (field : FieldRules) :
    Scalar.exampleFor now field.schemaType field.format? = none ↔
      field.schemaType = "array" ∨ field.format? = some "binary" := by
  by_cases hstring : field.schemaType = "string"
  · rw [hstring, Scalar.exampleFor, Option.map_eq_none_iff, Scalar.stringExample_eq_none_iff]
    simp
  · have hmem := field.schemaType_mem
    simp only [List.mem_cons, List.not_mem_nil, hstring, or_false, false_or] at hmem
    rw [FieldRules.format?_eq_none hstring]
    rcases hmem with htype | htype | htype | htype <;> simp [htype, Scalar.exampleFor]

/-! ## Examples and types -/

/-- The body itself has no example. -/
theorem sample_draft (now : Moment) (rules : RuleSet) : (draft now rules).sample = none := by
  induction rules using List.reverseRecOn with
  | nil => rfl
  | append_singleton rules last ih =>
      rw [draft_concat, addRules_eq_settle, sample_eq_of_plain_eq (plain_settle _ _), ih]

/-- The example of a node that stands comes from the rule that makes the node and ends
there. -/
theorem exists_founds_of_sample (hnone : ∀ field ∈ rules, field.example? = none)
    {node : Schema} (h : (draft now rules).at? p = some node) {sample : Json}
    (hsample : node.sample = some sample) :
    ∃ before field after, rules = before ++ field :: after ∧
      Founds before field after (tokens field.field) ∧ p = tokens field.field ∧
      Scalar.exampleFor now field.schemaType field.format? = some sample := by
  have hp : p ≠ [] := by
    rintro rfl
    obtain rfl := Option.some.inj h
    rw [sample_draft] at hsample
    cases hsample
  obtain ⟨before, field, after, rfl, hfounds⟩ :=
    exists_founds_of_stands ((exists_at?_draft_iff_stands now hp).mp ⟨node, h⟩)
  obtain ⟨rest, hpath⟩ := hfounds.through
  obtain ⟨same, hsame, hmade⟩ := sample_draft_of_founds now hfounds hp hpath.symm
  obtain rfl : node = same := Option.some.inj (h.symm.trans hsame)
  rw [hsample] at hmade
  cases rest with
  | nil =>
      rw [List.append_nil] at hpath
      subst hpath
      refine ⟨before, field, after, rfl, hfounds, rfl, ?_⟩
      have hfield : field ∈ before ++ field :: after :=
        List.mem_append_right _ List.mem_cons_self
      rw [← sample_schema (hnone field hfield)]
      exact hmade.symm
  | cons next more =>
      have hcontainer : (newNode now (next :: more) field).sample = none :=
        sample_eq_of_plain_eq (plain_ensureContainer _)
      rw [hcontainer] at hmade
      cases hmade

/-- The type of the node that a rule makes at the end of its path: the rule's own type, or a
container as soon as a later rule leads on. -/
theorem type_draft_of_founds (hnames : ((before ++ field :: after).map (·.field)).Nodup)
    (h : Founds before field after (tokens field.field)) {node : Schema}
    (hnode : (draft now (before ++ field :: after)).at? (tokens field.field) = some node) :
    ((∀ later ∈ after, ¬ tokens field.field <+: tokens later.field) ∧
      node.type = some field.schemaType) ∨
    ((∃ later ∈ after, tokens field.field <+: tokens later.field) ∧
      ∃ next, node.type = some (containerType next)) := by
  obtain ⟨front, token, hpath⟩ := exists_tokens_eq_concat field.field
  have hnew : (draft now before).at? (front ++ [token]) = none := by
    rw [← hpath]
    exact at?_draft_eq_none now (tokens_ne_nil _) h.missing
  have hother : ∀ later ∈ after, tokens later.field ≠ tokens field.field := by
    intro later hlater hsame
    exact ne_nil_of_after hnames hlater (hsame.trans (List.append_nil _).symm) rfl
  rw [hpath] at hnode
  rcases type_end_draft hpath (.inr ⟨hnew, hother⟩) hnode with hown |
    ⟨later, hlater, rest, hrest, htype⟩
  · exact .inl hown
  · refine .inr ⟨⟨later, hlater, rest, hrest.symm⟩, ?_⟩
    cases rest with
    | nil => exact absurd rfl (ne_nil_of_after hnames hlater hrest)
    | cons next more => exact ⟨next, htype⟩

/-- The example of such a node is a value of its type, exactly if no later rule leads on. -/
theorem fits_iff_of_founds (hnames : ((before ++ field :: after).map (·.field)).Nodup)
    (h : Founds before field after (tokens field.field)) {node : Schema}
    (hnode : (draft now (before ++ field :: after)).at? (tokens field.field) = some node)
    {sample : Json}
    (hsample : Scalar.exampleFor now field.schemaType field.format? = some sample) :
    (∃ type ∈ node.type, sample.hasType type = true) ↔
      ∀ later ∈ after, ¬ tokens field.field <+: tokens later.field := by
  obtain ⟨hown, harray, hobject⟩ := Scalar.hasType_exampleFor hsample
  rcases type_draft_of_founds hnames h hnode with
    ⟨hnone, htype⟩ | ⟨⟨later, hlater, hthrough⟩, next, htype⟩
  · rw [htype]
    exact iff_of_true ⟨_, rfl, hown⟩ hnone
  · rw [htype]
    refine iff_of_false ?_ fun hnone => hnone later hlater hthrough
    rintro ⟨_, ⟨⟩, hfits⟩
    rw [containerType] at hfits
    split at hfits
    · simp [harray] at hfits
    · simp [hobject] at hfits

/-- All examples in a body are values of the types of their nodes, exactly if no rule leads on
from a node that an earlier one has made with an example. -/
theorem samples_schema_iff (now : Moment) {rules : List (String × Json)} {fields : RuleSet}
    (hread : RuleSet.read rules = .ok fields) (hkeys : (Dict.keys rules).Nodup)
    (hnone : ∀ field ∈ fields, field.example? = none) :
    ∃ type root, schema now rules = .ok (type, root) ∧
      (root.All Schema.SampleFits ↔
        ∀ before field after, fields = before ++ field :: after →
          Founds before field after (tokens field.field) → field.schemaType ≠ "array" →
          field.format? ≠ some "binary" →
          ∀ later ∈ after, ¬ tokens field.field <+: tokens later.field) := by
  have hnames : (fields.map (·.field)).Nodup := by
    rw [RuleSet.map_field_of_read hread]
    exact hkeys
  refine ⟨_, _, schema_of_read hread, ?_⟩
  constructor
  · rintro hall before field after rfl hfounds harray hbinary
    have hfield : field ∈ before ++ field :: after := List.mem_append_right _ List.mem_cons_self
    obtain ⟨sample, hmade⟩ :
        ∃ sample, Scalar.exampleFor now field.schemaType field.format? = some sample := by
      apply Option.ne_none_iff_exists'.mp
      rw [ne_eq, exampleFor_schemaType_eq_none_iff, not_or]
      exact ⟨harray, hbinary⟩
    obtain ⟨node, hnode, hsample⟩ := sample_draft_of_founds now hfounds (tokens_ne_nil _)
      (List.append_nil _).symm
    rw [newNode, sample_schema (hnone field hfield), hmade] at hsample
    obtain ⟨finished, hfinished, hfinishes⟩ := exists_at?_ofRules hnode
    have hfits : ∃ type ∈ finished.type, sample.hasType type = true := by
      apply hall.at? hfinished
      rw [sample_eq_of_plain_eq hfinishes.plain]
      exact hsample
    rw [type_eq_of_plain_eq hfinishes.plain] at hfits
    exact (fits_iff_of_founds hnames hfounds hnode hmade).mp hfits
  · intro hapart
    apply Schema.all_of_at?
    intro p node hnode
    refine ⟨routed_at?_ofRules hnode, ?_⟩
    intro sample hsample
    rcases exists_of_at?_ofRules hnode with ⟨old, hold, hfinishes⟩ | ⟨_, _, -, -, -, rfl⟩
    · rw [sample_eq_of_plain_eq hfinishes.plain] at hsample
      rw [type_eq_of_plain_eq hfinishes.plain]
      obtain ⟨before, field, after, rfl, hfounds, rfl, hmade⟩ :=
        exists_founds_of_sample hnone hold hsample
      have hsome : Scalar.exampleFor now field.schemaType field.format? ≠ none := by
        rw [hmade]
        exact Option.some_ne_none sample
      rw [ne_eq, exampleFor_schemaType_eq_none_iff, not_or] at hsome
      apply (fits_iff_of_founds hnames hfounds hold hmade).mpr
      exact hapart before field after rfl hfounds hsome.1 hsome.2
    · cases hsample

/-- A longer rule may come first, and arrays have no example to lose. -/
theorem samples_schema_rows :
    let rules := [("tags", Json.str "array"), ("tags.*", .str "string"),
      ("rows.*.id", .str "integer"), ("rows.*", .str "string"), ("scan", .str "file")]
    let fields : RuleSet := [⟨"tags", [.type .array]⟩, ⟨"tags.*", [.type .string]⟩,
      ⟨"rows.*.id", [.type .integer]⟩, ⟨"rows.*", [.type .string]⟩, ⟨"scan", [.type .file]⟩]
    RuleSet.read rules = .ok fields ∧ (Dict.keys rules).Nodup ∧
      (∀ field ∈ fields, field.example? = none) ∧
      ∃ type root, schema ⟨"", ""⟩ rules = .ok (type, root) ∧ root.All Schema.SampleFits := by
  intro rules fields
  have hread : RuleSet.read rules = .ok fields := rfl
  have hkeys : (Dict.keys rules).Nodup := by decide +kernel
  have hnone : ∀ field ∈ fields, field.example? = none := by decide +kernel
  have hapart : fields.Pairwise fun field later =>
      field.schemaType = "array" ∨ ¬ tokens field.field <+: tokens later.field := by
    decide +kernel
  obtain ⟨type, root, hschema, hsamples⟩ := samples_schema_iff ⟨"", ""⟩ hread hkeys hnone
  refine ⟨hread, hkeys, hnone, type, root, hschema, hsamples.mpr ?_⟩
  intro before field after heq _ harray _ later hlater
  rw [heq] at hapart
  have hafter := (List.pairwise_cons.mp (List.pairwise_append.mp hapart).2.1).1
  exact (hafter later hlater).resolve_left harray

/-- A rule that leads on from an integer makes it an object with the example of the
integer. -/
theorem not_sampleFits_address :
    let rules := [("address", Json.str "integer"), ("address.zip", .str "string")]
    let fields : RuleSet := [⟨"address", [.type .integer]⟩, ⟨"address.zip", [.type .string]⟩]
    RuleSet.read rules = .ok fields ∧ (Dict.keys rules).Nodup ∧
      (∀ field ∈ fields, field.example? = none) ∧
      ∃ type root, schema ⟨"", ""⟩ rules = .ok (type, root) ∧ ¬ root.All Schema.SampleFits := by
  intro rules fields
  have hread : RuleSet.read rules = .ok fields := rfl
  have hnode : ((ofRules ⟨"", ""⟩ fields).at? ["address"]).map (fun node =>
      (node.type, node.sample.map (·.hasType "object"))) = some (some "object", some false) := by
    decide +kernel
  obtain ⟨node, hat, hparts⟩ := Option.map_eq_some_iff.mp hnode
  obtain ⟨htype, hsample⟩ := Prod.mk.inj hparts
  obtain ⟨sample, hmade, hfalse⟩ := Option.map_eq_some_iff.mp hsample
  refine ⟨hread, by decide +kernel, by decide +kernel, _, _, schema_of_read hread, ?_⟩
  intro hall
  obtain ⟨type, hmem, hfits⟩ := hall.at? hat sample hmade
  rw [htype] at hmem
  obtain rfl := Option.some.inj hmem
  rw [hfalse] at hfits
  cases hfits

end Body

end ApiDoc
