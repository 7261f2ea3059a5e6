import ApiDoc.Proofs.Request.Owners

/-!
# Elements of array parameters

A rule `name.*` looks for its array among the parameters that are there when its turn
comes, under the name in which it is written itself.  Arrays with dotted names stand there
with brackets, and are not found; nor are arrays that come later.  Where the array is
found, the rule describes its elements and has no parameter of its own.
-/

namespace ApiDoc.Query

variable {now : Moment} {rules before after : RuleSet} {field array item : FieldRules}
  {p : Parameter}

theorem arrayName?_eq_some_iff {field name : String} :
    arrayName? field = some name ↔ field = name ++ ".*" := by
  rw [arrayName?, Option.map_eq_some_iff]
  constructor
  · rintro ⟨front, hfront, rfl⟩
    rw [Text.dropTail?_eq_some_iff] at hfront
    apply String.toList_inj.mp
    rw [hfront, String.toList_append, String.toList_ofList]
    rfl
  · rintro rfl
    refine ⟨name.toList, ?_, String.ofList_toList⟩
    rw [Text.dropTail?_eq_some_iff, String.toList_append]
    rfl

theorem arrayName?_of_not_mem {field : String} (h : '.' ∉ field.toList) :
    arrayName? field = none := by
  rw [Option.eq_none_iff_forall_ne_some]
  intro name hname
  rw [arrayName?_eq_some_iff] at hname
  apply h
  rw [hname, String.toList_append]
  exact List.mem_append_right _ List.mem_cons_self

theorem not_refines_of_not_mem {ps : List Parameter} {field : String} (h : '.' ∉ field.toList) :
    ¬ Refines ps field := by
  rintro ⟨name, hname, -⟩
  rw [arrayName?_of_not_mem h] at hname
  cases hname

/-! ## Arrays and the rules for their elements -/

theorem isArray_parameter {name : String} :
    IsArray name (parameter now array) ↔
      bracketName array.field = name ∧ array.schemaType = "array" := by
  refine and_congr_right fun _ => ?_
  rw [Schema.isType, beq_iff_eq]
  exact Option.some_inj

/-- A rule describes more than a string: it gives an example or a format. -/
theorem elements_ne_typed (now : Moment) (field : FieldRules) :
    { field.schema now with description := none } ≠ Schema.typed "string" := by
  intro heq
  have htype : field.schemaType = "string" := Option.some.inj (congrArg Schema.type heq)
  have hformat : field.format? = none := congrArg Schema.format heq
  have hsample : (field.schema now).sample = none := congrArg Schema.sample heq
  rw [FieldRules.schema] at hsample
  dsimp only at hsample
  cases hexample : field.example? with
  | some raw =>
      rw [hexample] at hsample
      cases hsample
  | none =>
      rw [hexample, htype, hformat] at hsample
      cases hsample

/-- The parameter that a rule adds keeps its place. -/
theorem mem_owned_iff (hfields : (before ++ array :: after).Nodup)
    (howner : ¬ Refines (draft now before) array.field) :
    (array, p) ∈ owned now (before ++ array :: after) ↔
      ((draft now (before ++ array :: after))[(draft now before).length]?).map finish = some p := by
  have hplace : (owners now (before ++ array :: after))[(draft now before).length]? =
      some array := by
    rw [← length_owners, owners, ownersFrom_append, ← owners,
      List.getElem?_append_right (Nat.le_refl _), Nat.sub_self, ← draft, ownersFrom,
      if_pos ((grows_iff now).mpr howner)]
    rfl
  have hnodup : (owners now (before ++ array :: after)).Nodup :=
    hfields.sublist (ownersFrom_sublist _ _)
  rw [owned, List.mem_iff_getElem?, ← List.getElem?_map, draft]
  constructor
  · rintro ⟨j, hj⟩
    obtain ⟨hjArray, hjParameter⟩ := List.getElem?_zip_eq_some.mp hj
    obtain ⟨hlt, -⟩ := List.getElem?_eq_some_iff.mp hjArray
    obtain rfl := (List.getElem?_inj hlt hnodup).mp (hjArray.trans hplace.symm)
    exact hjParameter
  · intro hparameter
    exact ⟨_, List.getElem?_zip_eq_some.mpr ⟨hplace, hparameter⟩⟩

/-- A rule describes the elements of an array: the array has one parameter, with these
elements, and the rule has none of its own. -/
structure Describes (now : Moment) (rules : RuleSet) (item array : FieldRules) : Prop where
  once : (owners now rules).count array = 1
  elements : ∀ p, (array, p) ∈ owned now rules →
    p.schema.items = some (.single { item.schema now with description := none })
  alone : item ∉ owners now rules

/-! ## Which rules describe elements -/

/-- An array without a dot in its name adds its parameter. -/
theorem draft_concat_of_not_mem (hdot : '.' ∉ array.field.toList) :
    draft now (before ++ [array]) = draft now before ++ [parameter now array] := by
  rw [draft_append, List.foldl_cons, List.foldl_nil]
  rcases addRule_cases now (draft now before) array with ⟨name, _, _, hsome, -⟩ | ⟨-, heq⟩
  · rw [arrayName?_of_not_mem hdot] at hsome
    cases hsome
  · exact heq

/-- An array stays as it is, if no later rule is for its elements, or an earlier array has
its name. -/
theorem getElem?_draft_of_missed (hdot : '.' ∉ array.field.toList)
    (hmissed : ∀ field ∈ after, arrayName? field.field = some array.field →
      ∃ q ∈ draft now before, IsArray array.field q) :
    (draft now (before ++ array :: after))[(draft now before).length]? =
      some (parameter now array) := by
  rw [List.append_cons, draft_append, draft_concat_of_not_mem hdot]
  apply getElem?_foldl_addRule
  · exact List.getElem?_concat_length
  · intro field hfield name hrefines hisArray
    obtain ⟨rfl, -⟩ := isArray_parameter.mp hisArray
    rw [bracketName_of_not_mem hdot] at hrefines ⊢
    rw [List.take_left' rfl]
    exact hmissed field hfield hrefines

/-- The first array of a name gets the elements that the one rule for them describes. -/
theorem getElem?_draft_of_found {mid rest : RuleSet} (hdot : '.' ∉ array.field.toList)
    (harray : array.schemaType = "array") (hitem : arrayName? item.field = some array.field)
    (honly : ∀ field ∈ mid ++ rest, arrayName? field.field ≠ some array.field)
    (hfirst : ∀ q ∈ draft now before, ¬ IsArray array.field q) :
    (draft now (before ++ array :: (mid ++ item :: rest)))[(draft now before).length]? =
      some (withItem (parameter now array) { item.schema now with description := none }) := by
  have hisArray : IsArray array.field (parameter now array) :=
    isArray_parameter.mpr ⟨bracketName_of_not_mem hdot, harray⟩
  have hmid : (draft now (before ++ array :: mid))[(draft now before).length]? =
      some (parameter now array) :=
    getElem?_draft_of_missed hdot fun field hfield hrefines =>
      absurd hrefines (honly field (List.mem_append_left _ hfield))
  have hnone : ∀ q ∈ (draft now (before ++ array :: mid)).take (draft now before).length,
      ¬ IsArray array.field q := by
    intro q hq hqArray
    have hearlier : ((draft now (before ++ array :: mid)).take (draft now before).length).map bare =
        (draft now before).map bare := by
      rw [draft_append, map_bare_take_foldl _ (Nat.le_refl _), List.take_length]
    obtain ⟨r, hr, hrArray⟩ := (exists_isArray_congr hearlier).mp ⟨q, hq, hqArray⟩
    exact hfirst r hr hrArray
  have hset := getElem?_addRule_of_first now hmid hitem hisArray hnone
  rw [← List.cons_append, ← List.append_assoc, draft_append, List.foldl_cons]
  apply getElem?_foldl_addRule hset
  intro field hfield name hrefines hsame
  obtain rfl : array.field = name := hisArray.1.symm.trans hsame.1
  exact absurd hrefines (honly field (List.mem_append_right _ hfield))

theorem not_mem_name_of_mem_draft (h : p ∈ draft now rules) : '.' ∉ p.name.toList := by
  have hbare : bare p ∈ (draft now rules).map bare := List.mem_map_of_mem h
  rw [map_bare_draft] at hbare
  obtain ⟨field, -, hsame⟩ := List.mem_map.mp hbare
  have hname : bracketName field.field = p.name := congrArg Parameter.name hsame
  rw [← hname]
  exact not_mem_bracketName field.field

theorem items_finish_parameter (harray : array.schemaType = "array") :
    (finish (parameter now array)).schema.items = some (.single (.typed "string")) := by
  have hslots : (parameter now array).schema.items = some (.list []) := if_pos harray
  rw [finish, hslots]

theorem finish_withItem (p : Parameter) (item : Schema) :
    finish (withItem p item) = withItem p item := rfl

section Describes

variable (hfields : (before ++ array :: after).Nodup)
  (hrefined : arrayName? item.field = some array.field) (harray : array.schemaType = "array")
  (honly : ∀ field ∈ before ++ array :: after,
    arrayName? field.field = some array.field → field = item)

include hrefined in
/-- An array whose elements are described has no dot in its name. -/
theorem Describes.not_mem (h : Describes now rules item array) (hrules : rules.Nodup)
    (hitem : item ∈ rules) : '.' ∉ array.field.toList := by
  obtain ⟨front, back, rfl⟩ := List.append_of_mem hitem
  have hrefines : Refines (draft now front) item.field :=
    not_not.mp fun hnot => h.alone ((mem_owners_iff hrules).mpr hnot)
  obtain ⟨name, hsome, p, hp, hisArray⟩ := hrefines
  obtain rfl : array.field = name := Option.some.inj (hrefined.symm.trans hsome)
  rw [← hisArray.1]
  exact not_mem_name_of_mem_draft hp

include hfields harray honly in
/-- An array whose elements are described comes before the rule for them, and after no other
array of its name. -/
theorem Describes.first (h : Describes now (before ++ array :: after) item array)
    (hdot : '.' ∉ array.field.toList) :
    item ∈ after ∧ ∀ p ∈ draft now before, ¬ IsArray array.field p := by
  by_contra hnot
  -- The rule comes too early or goes to another array, so the elements stay strings.
  have hmissed : (draft now (before ++ array :: after))[(draft now before).length]? =
      some (parameter now array) := by
    apply getElem?_draft_of_missed hdot
    intro field hfield hsome
    obtain rfl := honly field (List.mem_append_right _ (List.mem_cons_of_mem _ hfield)) hsome
    by_contra hnone
    exact hnot ⟨hfield, fun p hp hisArray => hnone ⟨p, hp, hisArray⟩⟩
  have howner : ¬ Refines (draft now before) array.field := by
    apply (mem_owners_iff hfields).mp
    rw [← List.count_pos_iff, h.once]
    exact Nat.one_pos
  have hparameter : (array, finish (parameter now array)) ∈
      owned now (before ++ array :: after) := by
    rw [mem_owned_iff hfields howner, hmissed, Option.map_some]
  have hitems := h.elements _ hparameter
  rw [items_finish_parameter harray] at hitems
  exact elements_ne_typed now item (Items.single.inj (Option.some.inj hitems)).symm

include hfields hrefined harray honly in
/-- The elements of the first array of a name without a dot are described by a later rule. -/
theorem describes_of_first (hdot : '.' ∉ array.field.toList) (hitem : item ∈ after)
    (hfirst : ∀ p ∈ draft now before, ¬ IsArray array.field p) :
    Describes now (before ++ array :: after) item array := by
  obtain ⟨mid, rest, rfl⟩ := List.append_of_mem hitem
  have howner : ¬ Refines (draft now before) array.field := not_refines_of_not_mem hdot
  have hothers : ∀ field ∈ mid ++ rest, arrayName? field.field ≠ some array.field := by
    intro field hfield hsome
    have hmem : field ∈ before ++ array :: (mid ++ item :: rest) := by
      rcases List.mem_append.mp hfield with hmid | hrest
      · simp [hmid]
      · simp [hrest]
    obtain rfl := honly field hmem hsome
    have hafter : (mid ++ field :: rest).Nodup :=
      (List.nodup_cons.mp (List.nodup_append'.mp hfields).2.1).2
    exact (List.nodup_cons.mp (List.nodup_middle.mp hafter)).1 hfield
  have hfound : (draft now (before ++ array :: (mid ++ item :: rest)))[(draft now before).length]? =
      some (withItem (parameter now array) { item.schema now with description := none }) :=
    getElem?_draft_of_found hdot harray hrefined hothers hfirst
  refine ⟨?_, ?_, ?_⟩
  · apply List.count_eq_one_of_mem
    · exact hfields.sublist (ownersFrom_sublist _ _)
    · exact (mem_owners_iff hfields).mpr howner
  · intro p hp
    rw [mem_owned_iff hfields howner, hfound, Option.map_some, finish_withItem] at hp
    obtain rfl := Option.some.inj hp
    rfl
  · have hthere : (draft now (before ++ array :: mid))[(draft now before).length]? =
        some (parameter now array) :=
      getElem?_draft_of_missed hdot fun field hfield hsome =>
        absurd hsome (hothers field (List.mem_append_left _ hfield))
    have hrefines : Refines (draft now (before ++ array :: mid)) item.field :=
      ⟨array.field, hrefined, _, List.mem_of_getElem? hthere,
        isArray_parameter.mpr ⟨bracketName_of_not_mem hdot, harray⟩⟩
    rw [← List.cons_append, ← List.append_assoc] at hfields ⊢
    exact fun hmem => (mem_owners_iff hfields).mp hmem hrefines

end Describes

/-- When the rule for the elements of an array describes them: the array has no dot in its
name and comes first, and no array before it has its name. -/
theorem describes_iff (now : Moment) {rules : List (String × Json)}
    (hread : RuleSet.read rules = .ok (before ++ array :: after))
    (hkeys : (Dict.keys rules).Nodup) (harray : array.schemaType = "array")
    (hitem : item ∈ before ++ array :: after) (hname : item.field = array.field ++ ".*") :
    parameters now rules = .ok (ofRules now (before ++ array :: after)) ∧
      (ofRules now (before ++ array :: after)).map bare =
        (owners now (before ++ array :: after)).map (fun field => bare (parameter now field)) ∧
      (Describes now (before ++ array :: after) item array ↔
        '.' ∉ array.field.toList ∧ item ∈ after ∧
          ∀ p ∈ ofRules now before, ¬ IsArray array.field p) := by
  have hnames : ((before ++ array :: after).map (·.field)).Nodup := by
    rw [RuleSet.map_field_of_read hread]
    exact hkeys
  have hfields : (before ++ array :: after).Nodup := hnames.of_map _
  have hrefined : arrayName? item.field = some array.field := arrayName?_eq_some_iff.mpr hname
  have honly : ∀ field ∈ before ++ array :: after, arrayName? field.field = some array.field →
      field = item := by
    intro field hfield hsome
    rw [arrayName?_eq_some_iff, ← hname] at hsome
    exact List.inj_on_of_nodup_map hnames hfield hitem hsome
  have hearlier : (∃ p ∈ ofRules now before, IsArray array.field p) ↔
      ∃ p ∈ draft now before, IsArray array.field p :=
    exists_isArray_congr ((map_bare_ofRules now before).trans (map_bare_draft now before).symm)
  have hfirst : (∀ p ∈ ofRules now before, ¬ IsArray array.field p) ↔
      ∀ p ∈ draft now before, ¬ IsArray array.field p := by
    simpa using not_congr hearlier
  refine ⟨by rw [parameters, hread]; rfl, map_bare_ofRules now _, ?_⟩
  rw [hfirst]
  constructor
  · intro h
    have hdot := h.not_mem hrefined hfields hitem
    exact ⟨hdot, h.first hfields harray honly hdot⟩
  · rintro ⟨hdot, hafter, hnone⟩
    exact describes_of_first hfields hrefined harray honly hdot hafter hnone

/-- The rule for the elements comes after its array, with another array between them. -/
theorem describes_tags :
    let rules := [("page", Json.str "integer"), ("ids", .str "array|max:20"),
      ("tags", .str "array"), ("ids.*", .str "integer")]
    let page : FieldRules := ⟨"page", [.type .integer]⟩
    let ids : FieldRules := ⟨"ids", [.type .array, .max "20"]⟩
    let tags : FieldRules := ⟨"tags", [.type .array]⟩
    let id : FieldRules := ⟨"ids.*", [.type .integer]⟩
    RuleSet.read rules = .ok ([page] ++ ids :: [tags, id]) ∧ (Dict.keys rules).Nodup ∧
      ids.schemaType = "array" ∧ id.field = ids.field ++ ".*" ∧
      Describes ⟨"", ""⟩ ([page] ++ ids :: [tags, id]) id ids := by
  intro rules page ids tags id
  have hread : RuleSet.read rules = .ok ([page] ++ ids :: [tags, id]) := rfl
  have hkeys : (Dict.keys rules).Nodup := by decide +kernel
  have harray : ids.schemaType = "array" := rfl
  have hname : id.field = ids.field ++ ".*" := by decide +kernel
  have hitem : id ∈ [page] ++ ids :: [tags, id] := by decide +kernel
  obtain ⟨-, -, hdescribes⟩ := describes_iff ⟨"", ""⟩ hread hkeys harray hitem hname
  exact ⟨hread, hkeys, harray, hname, hdescribes.mpr (by decide +kernel)⟩

/-- A rule for elements that comes before its array, and one for the elements of an array
with a dotted name, have parameters of their own. -/
theorem not_describes_ids :
    let rules := [("ids.*", Json.str "integer"), ("ids", .str "array"),
      ("filter.ids", .str "array"), ("filter.ids.*", .str "integer")]
    let id : FieldRules := ⟨"ids.*", [.type .integer]⟩
    let ids : FieldRules := ⟨"ids", [.type .array]⟩
    let filter : FieldRules := ⟨"filter.ids", [.type .array]⟩
    let filtered : FieldRules := ⟨"filter.ids.*", [.type .integer]⟩
    RuleSet.read rules = .ok [id, ids, filter, filtered] ∧ (Dict.keys rules).Nodup ∧
      ids.schemaType = "array" ∧ id.field = ids.field ++ ".*" ∧
      filter.schemaType = "array" ∧ filtered.field = filter.field ++ ".*" ∧
      ¬ Describes ⟨"", ""⟩ [id, ids, filter, filtered] id ids ∧
      ¬ Describes ⟨"", ""⟩ [id, ids, filter, filtered] filtered filter := by
  intro rules id ids filter filtered
  have hid : id ∈ owners ⟨"", ""⟩ [id, ids, filter, filtered] := by decide +kernel
  have hfiltered : filtered ∈ owners ⟨"", ""⟩ [id, ids, filter, filtered] := by decide +kernel
  exact ⟨rfl, by decide +kernel, rfl, by decide +kernel, rfl, by decide +kernel,
    fun h => h.alone hid, fun h => h.alone hfiltered⟩

end ApiDoc.Query
