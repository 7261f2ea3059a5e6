import ApiDoc.Proofs.Request.Elements
import ApiDoc.Proofs.Schema.Path

/-!
# Refined query parameters

A rule for the elements of an array that is there says what they are, and has no parameter;
every other rule has one.  So each rule of a plain name is found again in one of two places.
The list of slots of a parameter is finished, but not the one of an array among its elements:
an array of arrays keeps a list, whatever its elements are.
-/

namespace ApiDoc.Query

variable {now : Moment} {rules before after : RuleSet} {field item : FieldRules}
  {p : Parameter}

/-! ## Elements that a rule describes -/

theorem refines_ofRules_iff {name : String} :
    Refines (ofRules now before) name ↔ Refines (draft now before) name := by
  have hsame : (ofRules now before).map bare = (draft now before).map bare :=
    (map_bare_ofRules now before).trans (map_bare_draft now before).symm
  constructor
  · rintro ⟨array, hname, hfound⟩
    exact ⟨array, hname, (exists_isArray_congr hsame).mp hfound⟩
  · rintro ⟨array, hname, hfound⟩
    exact ⟨array, hname, (exists_isArray_congr hsame).mpr hfound⟩

/-- The elements that a rule describes stay: each name has one rule for its elements. -/
theorem exists_withItem_of_refines
    (hnames : ((before ++ item :: after).map (·.field)).Nodup)
    (h : Refines (draft now before) item.field) :
    ∃ name p, item.field = name ++ ".*" ∧ p ∈ draft now before ∧ IsArray name p ∧
      withItem p { item.schema now with description := none } ∈
        ofRules now (before ++ item :: after) := by
  rcases addRule_cases now (draft now before) item with
    ⟨name, i, p, hname, hp, harray, -, heq⟩ | ⟨hnone, -⟩
  · obtain ⟨hi, -⟩ := List.getElem?_eq_some_iff.mp hp
    have hset : (addRule now (draft now before) item)[i]? =
        some (withItem p { item.schema now with description := none }) := by
      rw [heq, List.getElem?_set_self hi]
    have hkept : (draft now (before ++ item :: after))[i]? =
        some (withItem p { item.schema now with description := none }) := by
      rw [draft_append, List.foldl_cons]
      apply getElem?_foldl_addRule hset
      intro field hfield other hother hsame
      -- A later rule for these elements would have the name of this one.
      obtain rfl : name = other := harray.1.symm.trans hsame.1
      rw [Option.mem_def, arrayName?_eq_some_iff] at hother
      rw [arrayName?_eq_some_iff] at hname
      rw [List.map_append, List.map_cons] at hnames
      have hapart := (List.nodup_cons.mp (List.nodup_append'.mp hnames).2.1).1
      rw [hname, ← hother] at hapart
      exact absurd (List.mem_map_of_mem hfield) hapart
    refine ⟨name, p, arrayName?_eq_some_iff.mp hname, List.mem_of_getElem? hp, harray, ?_⟩
    have hfinished : finish (withItem p { item.schema now with description := none }) ∈
        ofRules now (before ++ item :: after) :=
      List.mem_map_of_mem (List.mem_of_getElem? hkept)
    rwa [finish_withItem] at hfinished
  · obtain ⟨name, hname, p, hp, harray⟩ := h
    exact absurd harray (hnone name hname p hp)

/-! ## Lists of slots that are left -/

/-- A parameter that has no list of slots once it is finished. -/
structure Pending (p : Parameter) : Prop where
  properties : p.schema.properties = none
  items : ∀ items ∈ p.schema.items,
    items = .list [] ∨ ∃ item : Schema, items = .single item ∧ item.Finished

namespace Pending

theorem parameter (now : Moment) (field : FieldRules) : Pending (parameter now field) := by
  refine ⟨rfl, fun items hitems => .inl ?_⟩
  rw [Query.parameter, FieldRules.schema, Option.mem_def] at hitems
  by_cases harray : field.schemaType = "array"
  · simpa [harray, eq_comm] using hitems
  · simp [harray] at hitems

theorem withItem (h : Pending p) {item : Schema} (hitem : item.Finished) :
    Pending (withItem p item) := by
  refine ⟨h.properties, ?_⟩
  rintro _ ⟨⟩
  exact .inr ⟨item, rfl, hitem⟩

theorem finished (h : Pending p) : (finish p).schema.Finished := by
  have hsingle : ∀ item : Schema, item.Finished → (Query.withItem p item).schema.Finished := by
    intro item hitem
    refine .intro ?_ ?_ ?_
    · rintro _ ⟨⟩
      exact ⟨item, rfl⟩
    · intro properties hproperties
      rw [Query.withItem, h.properties] at hproperties
      cases hproperties
    · rintro _ ⟨⟩ inner hinner
      rwa [List.mem_singleton.mp hinner]
  rw [finish]
  split
  · exact hsingle _ (Schema.finished_typed "string")
  · next hlistless =>
      refine .intro ?_ ?_ ?_
      · intro items hitems
        rcases h.items items hitems with rfl | ⟨item, rfl, -⟩
        · exact absurd hitems (hlistless [])
        · exact ⟨item, rfl⟩
      · simp [h.properties]
      · intro items hitems inner hinner
        rcases h.items items hitems with rfl | ⟨item, rfl, hitem⟩
        · exact absurd hitems (hlistless [])
        · rwa [List.mem_singleton.mp hinner]

end Pending

/-- Elements that are no arrays have no list of slots. -/
theorem finished_elements (now : Moment) (h : field.schemaType ≠ "array") :
    Schema.Finished { field.schema now with description := none } := by
  have hitems : (field.schema now).items = none := if_neg h
  refine .intro ?_ ?_ ?_
  · simp [hitems]
  · exact fun _ hnone => nomatch hnone
  · simp [hitems]

/-- Elements that are arrays have one. -/
theorem not_finished_elements (now : Moment) (h : field.schemaType = "array") :
    ¬ Schema.Finished { field.schema now with description := none } := by
  have hitems : (field.schema now).items = some (.list []) := if_pos h
  rintro ⟨here, -, -⟩
  obtain ⟨item, heq⟩ := here _ hitems
  cases heq

theorem pending_draft
    (h : ∀ before item after, rules = before ++ item :: after → item.schemaType = "array" →
      ¬ Refines (draft now before) item.field) : ∀ p ∈ draft now rules, Pending p := by
  induction rules using List.reverseRecOn with
  | nil => exact List.forall_mem_nil _
  | append_singleton rules field ih =>
      have hearlier : ∀ p ∈ draft now rules, Pending p := by
        apply ih
        rintro before item after rfl
        exact h before item (after ++ [field]) (by simp)
      have hdraft : draft now (rules ++ [field]) = addRule now (draft now rules) field :=
        draft_append rules [field]
      rw [hdraft]
      rcases addRule_cases now (draft now rules) field with
        ⟨name, i, p, hname, hp, harray, -, heq⟩ | ⟨-, heq⟩
      · have hrefines : Refines (draft now rules) field.field :=
          ⟨name, hname, p, List.mem_of_getElem? hp, harray⟩
        have hplain : field.schemaType ≠ "array" := fun hnested =>
          h rules field [] rfl hnested hrefines
        intro q hq
        rw [heq] at hq
        rcases List.mem_or_eq_of_mem_set hq with hold | rfl
        · exact hearlier q hold
        · exact (hearlier p (List.mem_of_getElem? hp)).withItem (finished_elements now hplain)
      · rw [heq]
        exact List.forall_mem_append.mpr
          ⟨hearlier, List.forall_mem_singleton.mpr (.parameter now field)⟩

/-- No parameter has a list of slots at any depth, exactly if no rule says that the elements
of an array are arrays. -/
theorem finished_parameters_iff {rules : List (String × Json)} {ps : List Parameter}
    (hkeys : (Dict.keys rules).Nodup) (h : parameters now rules = .ok ps) :
    (∀ p ∈ ps, p.schema.Finished) ↔
      ∀ before item after, RuleSet.read rules = .ok (before ++ item :: after) →
        item.schemaType = "array" → ¬ Refines (ofRules now before) item.field := by
  obtain ⟨fields, hread, rfl⟩ := map_eq_ok_iff.mp h
  constructor
  · intro hfinished before item after hsplit harray hrefines
    obtain rfl := Except.ok.inj (hread.symm.trans hsplit)
    have hnames : ((before ++ item :: after).map (·.field)).Nodup := by
      rw [RuleSet.map_field_of_read hread]
      exact hkeys
    obtain ⟨name, p, -, -, -, hmem⟩ :=
      exists_withItem_of_refines hnames (refines_ofRules_iff.mp hrefines)
    rcases hfinished _ hmem with ⟨-, -, inItems⟩
    exact not_finished_elements now harray (inItems _ rfl _ List.mem_cons_self)
  · intro hplain p hp
    obtain ⟨old, hold, rfl⟩ := List.mem_map.mp hp
    refine Pending.finished (pending_draft ?_ old hold)
    rintro before item after rfl harray hrefines
    exact hplain before item after hread harray (refines_ofRules_iff.mpr hrefines)

/-- An array of arrays is no parameter with a list, if its name has a dot and nothing refines
it. -/
theorem finished_parameters_rows :
    let rules := [("ids", Json.str "array|max:20"), ("ids.*", .str "integer"),
      ("filter.rows", .str "array"), ("filter.rows.*", .str "array")]
    (Dict.keys rules).Nodup ∧
      ∃ ps, parameters ⟨"", ""⟩ rules = .ok ps ∧ ∀ p ∈ ps, p.schema.Finished := by
  intro rules
  have hkeys : (Dict.keys rules).Nodup := by decide +kernel
  obtain ⟨ps, hps⟩ : ∃ ps, parameters ⟨"", ""⟩ rules = .ok ps := ⟨_, rfl⟩
  refine ⟨hkeys, ps, hps, (finished_parameters_iff hkeys hps).mpr ?_⟩
  intro before item after hsplit harray
  have hfields : [⟨"ids", [.type .array, .max "20"]⟩, ⟨"ids.*", [.type .integer]⟩,
      ⟨"filter.rows", [.type .array]⟩, ⟨"filter.rows.*", [.type .array]⟩] =
        before ++ item :: after := Except.ok.inj hsplit
  simp only [List.cons_eq_append_iff, List.nil_eq_append_iff, List.cons.injEq] at hfields
  rcases hfields with ⟨rfl, rfl, -⟩ | ⟨_, rfl, ⟨rfl, rfl, -⟩ | ⟨_, rfl, ⟨rfl, rfl, -⟩ |
    ⟨_, rfl, ⟨rfl, rfl, -⟩ | ⟨_, -, -, hnone⟩⟩⟩⟩
  · decide +kernel
  · exact absurd harray (by decide +kernel)
  · decide +kernel
  · decide +kernel
  · cases hnone

/-- An array of arrays has a list of slots among its elements. -/
theorem not_finished_parameters_ids :
    ∃ ps, parameters ⟨"", ""⟩ [("ids", .str "array"), ("ids.*", .str "array")] = .ok ps ∧
      ¬ ∀ p ∈ ps, p.schema.Finished := by
  refine ⟨_, rfl, fun hfinished => ?_⟩
  rcases hfinished _ List.mem_cons_self with ⟨-, -, inItems⟩
  rcases inItems _ rfl _ List.mem_cons_self with ⟨here, -, -⟩
  obtain ⟨item, heq⟩ := here _ rfl
  cases heq

/-! ## Where a rule is found again -/

/-- A name that is written without brackets has no dot. -/
theorem not_mem_of_bracketName {name : String} (h : '[' ∉ (bracketName name).toList) :
    '.' ∉ name.toList := by
  rw [bracketName] at h
  cases hcut : Text.splitOn '.' name.toList with
  | nil => exact absurd hcut (Text.splitOn_ne_nil _ _)
  | cons first rest =>
      rw [hcut] at h
      cases rest with
      | nil =>
          have hname : first = name.toList := by
            rw [← Text.join_splitOn '.' name.toList, hcut]
            rfl
          rw [← hname]
          exact Text.not_mem_of_mem_splitOn (hcut ▸ List.mem_cons_self)
      | cons second more => simp [bracketed_eq] at h

/-- The rule has a parameter, and the parameter is required exactly if the rule is. -/
def HasParameter (ps : List Parameter) (field : FieldRules) : Prop :=
  ∃ p ∈ ps, p.name = bracketName field.field ∧ p.required = field.isRequired

instance (ps : List Parameter) : DecidablePred (HasParameter ps) := fun field =>
  inferInstanceAs (Decidable
    (∃ p ∈ ps, p.name = bracketName field.field ∧ p.required = field.isRequired))

/-- The rule is for the elements of an earlier array, and the parameter of the array has the
elements that it describes. -/
def Supplies (now : Moment) (before : RuleSet) (ps : List Parameter) (item : FieldRules) : Prop :=
  ∃ array ∈ before, item.field = array.field ++ ".*" ∧
    ∃ p ∈ ps, IsArray array.field p ∧
      p.schema.items = some (.single { item.schema now with description := none })

/-- A parameter is, but for elements, the one of a rule. -/
theorem exists_owner {ps : List Parameter}
    (hps : ps.map bare = (owners now rules).map fun field => bare (parameter now field))
    (h : p ∈ ps) : ∃ field ∈ owners now rules, bare (parameter now field) = bare p := by
  have hbare : bare p ∈ ps.map bare := List.mem_map_of_mem h
  rw [hps] at hbare
  exact List.mem_map.mp hbare

/-- An array that is written without brackets belongs to a rule of its name. -/
theorem exists_array {ps : List Parameter} {name : String}
    (hps : ps.map bare = (owners now rules).map fun field => bare (parameter now field))
    (h : p ∈ ps) (harray : IsArray name p) (hname : '[' ∉ name.toList) :
    ∃ array ∈ owners now rules, array.field = name ∧ array.schemaType = "array" ∧
      '.' ∉ array.field.toList := by
  obtain ⟨array, howner, hbare⟩ := exists_owner hps h
  obtain ⟨hwritten, htype⟩ := isArray_parameter.mp ((isArray_congr hbare).mpr harray)
  rw [← hwritten] at hname
  have hdot : '.' ∉ array.field.toList := not_mem_of_bracketName hname
  exact ⟨array, howner, (bracketName_of_not_mem hdot).symm.trans hwritten, htype, hdot⟩

section Plain

variable (hnames : ((before ++ field :: after).map (·.field)).Nodup)
  (hplain : ∀ other ∈ before ++ field :: after, IsPlain other.field)

include hnames hplain in
/-- A rule of a plain name has a parameter exactly if it finds no array to describe. -/
theorem hasParameter_iff :
    HasParameter (ofRules now (before ++ field :: after)) field ↔
      ¬ Refines (draft now before) field.field := by
  have hfields : (before ++ field :: after).Nodup := hnames.of_map _
  have hmem : field ∈ before ++ field :: after := by simp
  rw [← mem_owners_iff hfields]
  constructor
  · rintro ⟨p, hp, hname, -⟩
    obtain ⟨owner, howner, hbare⟩ := exists_owner (map_bare_ofRules now _) hp
    have hother : owner ∈ before ++ field :: after := (ownersFrom_sublist _ _).subset howner
    have hwritten : bracketName owner.field = bracketName field.field :=
      (congrArg Parameter.name hbare).trans hname
    have hsame : owner = field := List.inj_on_of_nodup_map hnames hother hmem
      (bracketName_inj (hplain owner hother) (hplain field hmem) hwritten)
    rwa [hsame] at howner
  · intro howner
    have hbare : bare (parameter now field) ∈
        (ofRules now (before ++ field :: after)).map bare := by
      rw [map_bare_ofRules]
      exact List.mem_map_of_mem howner
    obtain ⟨p, hp, heq⟩ := List.mem_map.mp hbare
    exact ⟨p, hp, congrArg Parameter.name heq, congrArg Parameter.required heq⟩

include hnames hplain in
/-- A rule of a plain name supplies elements exactly if it finds an array to describe. -/
theorem supplies_iff :
    Supplies now before (ofRules now (before ++ field :: after)) field ↔
      Refines (draft now before) field.field := by
  constructor
  · rintro ⟨array, harray, hname, p, hp, hisArray, -⟩
    have hmem : array ∈ before ++ field :: after := List.mem_append_left _ harray
    obtain ⟨owner, howner, hfield, htype, hdot⟩ :=
      exists_array (map_bare_ofRules now _) hp hisArray (hplain array hmem).1
    obtain rfl : owner = array :=
      List.inj_on_of_nodup_map hnames ((ownersFrom_sublist _ _).subset howner) hmem hfield
    -- The array has its parameter before the turn of the rule.
    obtain ⟨front, back, rfl⟩ := List.append_of_mem harray
    have hearlier : (front ++ owner :: back).Nodup :=
      (List.nodup_append'.mp (hnames.of_map _)).1
    have hbare : bare (parameter now owner) ∈ (draft now (front ++ owner :: back)).map bare := by
      rw [map_bare_draft]
      exact List.mem_map_of_mem
        ((mem_owners_iff hearlier).mpr (not_refines_of_not_mem hdot))
    obtain ⟨q, hq, heq⟩ := List.mem_map.mp hbare
    have hqArray : IsArray owner.field q :=
      (isArray_congr heq).mpr (isArray_parameter.mpr ⟨bracketName_of_not_mem hdot, htype⟩)
    exact ⟨owner.field, arrayName?_eq_some_iff.mpr hname, q, hq, hqArray⟩
  · intro hrefines
    obtain ⟨name, p, hname, hp, hisArray, hmem⟩ := exists_withItem_of_refines hnames hrefines
    have hbracket : '[' ∉ name.toList := by
      intro hopen
      apply (hplain field (by simp)).1
      rw [hname, String.toList_append]
      exact List.mem_append_left _ hopen
    obtain ⟨array, howner, rfl, -, -⟩ := exists_array (map_bare_draft now _) hp hisArray hbracket
    exact ⟨array, (ownersFrom_sublist _ _).subset howner, hname, _, hmem, hisArray, rfl⟩

end Plain

/-- Of rules with plain names each has a parameter of its own, or supplies the elements of an
earlier array, and no two parameters have one name. -/
theorem parameters_of_plain (now : Moment) {rules : List (String × Json)} {fields : RuleSet}
    (hread : RuleSet.read rules = .ok fields) (hkeys : (Dict.keys rules).Nodup)
    (hplain : ∀ key ∈ Dict.keys rules, IsPlain key) :
    ∃ ps, parameters now rules = .ok ps ∧ (ps.map (·.name)).Nodup ∧
      fields.map (·.field) = Dict.keys rules ∧
      ∀ before field after, fields = before ++ field :: after →
        Xor (HasParameter ps field) (Supplies now before ps field) := by
  have hmade : parameters now rules = .ok (ofRules now fields) := by
    rw [parameters, hread]
    rfl
  have hnames : fields.map (·.field) = Dict.keys rules := RuleSet.map_field_of_read hread
  refine ⟨_, hmade, nodup_names_parameters hkeys hplain hmade, hnames, ?_⟩
  rintro before field after rfl
  have hfields : ∀ other ∈ before ++ field :: after, IsPlain other.field := fun other hother =>
    hplain other.field (hnames ▸ List.mem_map_of_mem hother)
  rw [← hnames] at hkeys
  have hparameter : HasParameter (ofRules now (before ++ field :: after)) field ↔
      ¬ Refines (draft now before) field.field := hasParameter_iff hkeys hfields
  have hsupplies : Supplies now before (ofRules now (before ++ field :: after)) field ↔
      Refines (draft now before) field.field := supplies_iff hkeys hfields
  by_cases hrefines : Refines (draft now before) field.field
  · exact .inr ⟨hsupplies.mpr hrefines, fun h => hparameter.mp h hrefines⟩
  · exact .inl ⟨hparameter.mpr hrefines, fun h => hrefines (hsupplies.mp h)⟩

/-- Elements of an array that is there, and of one that is not. -/
theorem parameters_of_plain_ids :
    let rules := [("ids", Json.str "required|array"), ("filter.status", .str "in:open"),
      ("ids.*", .str "integer"), ("tags.*", .str "required")]
    let ids : FieldRules := ⟨"ids", [.required, .type .array]⟩
    let status : FieldRules := ⟨"filter.status", [.oneOf ["open"]]⟩
    let id : FieldRules := ⟨"ids.*", [.type .integer]⟩
    let tag : FieldRules := ⟨"tags.*", [.required]⟩
    RuleSet.read rules = .ok [ids, status, id, tag] ∧ (Dict.keys rules).Nodup ∧
      (∀ key ∈ Dict.keys rules, IsPlain key) ∧
      ∃ ps, parameters ⟨"", ""⟩ rules = .ok ps ∧ (ps.map (·.name)).Nodup ∧
        Supplies ⟨"", ""⟩ [ids, status] ps id ∧ HasParameter ps tag := by
  intro rules ids status id tag
  have hread : RuleSet.read rules = .ok [ids, status, id, tag] := rfl
  have hkeys : (Dict.keys rules).Nodup := by decide +kernel
  have hplain : ∀ key ∈ Dict.keys rules, IsPlain key := by decide +kernel
  obtain ⟨ps, hps, hnames, -, hfound⟩ := parameters_of_plain ⟨"", ""⟩ hread hkeys hplain
  obtain rfl : ofRules ⟨"", ""⟩ [ids, status, id, tag] = ps := Except.ok.inj hps
  have hid : ¬ HasParameter (ofRules ⟨"", ""⟩ [ids, status, id, tag]) id := by decide +kernel
  have htag : HasParameter (ofRules ⟨"", ""⟩ [ids, status, id, tag]) tag := by decide +kernel
  refine ⟨hread, hkeys, hplain, _, hps, hnames, ?_, htag⟩
  exact ((hfound [ids, status] id [tag] rfl).resolve_left fun h => hid h.1).1

end ApiDoc.Query
