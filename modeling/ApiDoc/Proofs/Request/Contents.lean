import ApiDoc.Proofs.Request.Finish
import ApiDoc.Proofs.Request.Required

/-!
# What a body holds

Where no path is mixed, the properties of a body and its required names can be read off
the rules.  A node has exactly the properties that rules go on to from its path, so that
no field is lost and none is made up; and it requires exactly those from which a required
rule goes on without a star.
-/

namespace ApiDoc.Body

variable {now : Moment} {rules : RuleSet}

/-! ## Properties -/

/-- A draft leads to each of its properties. -/
theorem Drafted.exists_child? {s : Schema} (h : Drafted s) {name : String}
    (hname : name ∈ Dict.keys (s.properties.getD [])) :
    name ≠ "*" ∧ ∃ child, s.child? name = some child := by
  have hne : name ≠ "*" := fun hstar => h.names (hstar ▸ hname)
  obtain ⟨entry, hentry, rfl⟩ := List.mem_map.mp hname
  refine ⟨hne, entry.2, ?_⟩
  rw [Schema.child?_of_ne _ hne]
  exact Dict.find?_of_mem h.increasing hentry

/-- A property of a body is the next segment of a rule. -/
theorem continues_of_mem_keys {p : List String} {node : Schema} {name : String}
    (h : (ofRules now rules).at? p = some node)
    (hname : name ∈ Dict.keys (node.properties.getD [])) : name ≠ "*" ∧ Continues rules p name := by
  rcases exists_of_at?_ofRules h with ⟨old, hold, hfinishes⟩ | ⟨_, _, -, -, -, rfl⟩
  · rw [hfinishes.keys] at hname
    obtain ⟨hne, child, hchild⟩ := (drafted_draft hold).exists_child? hname
    have hbelow : (draft now rules).at? (p ++ [name]) = some child := by
      rw [Schema.at?_concat, hold, Option.bind_some, hchild]
    exact ⟨hne, (exists_prefix_of_at?_draft hbelow).resolve_left (by simp)⟩
  · cases hname

/-- The next segment of a rule is a property of the body, if it is not a star. -/
theorem exists_mem_keys (now : Moment) (hunmixed : Unmixed rules) {p : List String}
    {name : String} (hne : name ≠ "*") (h : Continues rules p name) :
    ∃ node, (ofRules now rules).at? p = some node ∧
      name ∈ Dict.keys (node.properties.getD []) := by
  obtain ⟨field, hfield, hpath⟩ := h
  obtain ⟨child, hchild⟩ := exists_at?_draft now hunmixed hfield hpath
  rw [Schema.at?_concat] at hchild
  obtain ⟨old, hold, hstep⟩ := Option.bind_eq_some_iff.mp hchild
  obtain ⟨node, hnode, hfinishes⟩ := exists_at?_ofRules hold
  refine ⟨node, hnode, ?_⟩
  rw [Schema.child?_of_ne _ hne] at hstep
  rw [hfinishes.keys]
  exact List.mem_map_of_mem (Dict.mem_of_find? hstep)

/-- No field is lost and none is made up: the path of every rule leads to a node, a node has
a property exactly if a rule goes on to it from there, and paths lead to everything in the
body. -/
theorem mem_properties_schema_iff (now : Moment) {rules : List (String × Json)}
    {fields : RuleSet} (hread : RuleSet.read rules = .ok fields) (hunmixed : Unmixed fields) :
    ∃ type root, schema now rules = .ok (type, root) ∧
      (∀ field ∈ fields, ∃ node, root.at? (tokens field.field) = some node) ∧
      (∀ p name, (∃ node, root.at? p = some node ∧ name ∈ Dict.keys (node.properties.getD [])) ↔
        name ≠ "*" ∧ ∃ field ∈ fields, p ++ [name] <+: tokens field.field) ∧
      root.All Schema.Routed := by
  refine ⟨_, _, schema_of_read hread, ?_, ?_, ?_⟩
  · intro field hfield
    obtain ⟨old, hold⟩ := exists_at?_draft now hunmixed hfield (List.prefix_refl _)
    obtain ⟨node, hnode, -⟩ := exists_at?_ofRules hold
    exact ⟨node, hnode⟩
  · intro p name
    constructor
    · rintro ⟨node, hnode, hname⟩
      exact continues_of_mem_keys hnode hname
    · rintro ⟨hne, hcontinues⟩
      exact exists_mem_keys now hunmixed hne hcontinues
  · apply Schema.all_of_at?
    intro p node hnode
    exact ⟨routed_at?_ofRules hnode, routed_at?_ofRules hnode⟩

/-- Rules whose paths go through one another, the longer ones first or last. -/
theorem mem_properties_schema_rows :
    let rules := [("address.city", Json.str "string"), ("address", .str "array"),
      ("rows", .str "array"), ("rows.*.id", .str "integer"), ("rows.*", .str "string")]
    let city : FieldRules := ⟨"address.city", [.type .string]⟩
    let address : FieldRules := ⟨"address", [.type .array]⟩
    let rows : FieldRules := ⟨"rows", [.type .array]⟩
    let id : FieldRules := ⟨"rows.*.id", [.type .integer]⟩
    let row : FieldRules := ⟨"rows.*", [.type .string]⟩
    RuleSet.read rules = .ok [city, address, rows, id, row] ∧
      Unmixed [city, address, rows, id, row] ∧
      ∃ type root, schema ⟨"", ""⟩ rules = .ok (type, root) ∧
        (∃ node, root.at? (tokens id.field) = some node) ∧
        (∃ node, root.at? ["address"] = some node ∧
          "city" ∈ Dict.keys (node.properties.getD [])) ∧
        ¬ ∃ node, root.at? ["address"] = some node ∧
          "zip" ∈ Dict.keys (node.properties.getD []) := by
  intro rules city address rows id row
  have hread : RuleSet.read rules = .ok [city, address, rows, id, row] := rfl
  have hunmixed : Unmixed [city, address, rows, id, row] := by decide +kernel
  obtain ⟨type, root, hschema, hpaths, hproperties, -⟩ :=
    mem_properties_schema_iff ⟨"", ""⟩ hread hunmixed
  refine ⟨hread, hunmixed, type, root, hschema, hpaths id (by simp), ?_, ?_⟩
  · exact (hproperties ["address"] "city").mpr (by decide +kernel)
  · exact fun hzip => absurd ((hproperties ["address"] "zip").mp hzip) (by decide +kernel)

/-! ## Required names -/

theorem Requires.continues {p : List String} {name : String} (h : Requires rules p name) :
    name ≠ "*" ∧ Continues rules p name := by
  obtain ⟨field, hfield, -, rest, hpath, hstar⟩ := h
  exact ⟨fun heq => hstar (heq ▸ List.mem_cons_self), continues_of_append hfield hpath⟩

/-- The required names of a node of a body are the ones that the rules require there. -/
theorem lists_required_ofRules (hunmixed : Unmixed rules) {p : List String} {node : Schema}
    (h : (ofRules now rules).at? p = some node) : Lists node.required (Requires rules p) := by
  rcases exists_of_at?_ofRules h with ⟨old, hold, hfinishes⟩ |
    ⟨front, array, rfl, harray, hslotless, rfl⟩
  · rw [hfinishes.required]
    exact lists_required_draft hunmixed hold
  · -- A rule that requires a name below the elements would have made a slot.
    refine .none_of_not ?_
    rintro name ⟨field, hfield, -, rest, hpath, -⟩
    obtain ⟨slot, hslot⟩ := exists_at?_draft now hunmixed hfield
      (p := front ++ ["*"]) ⟨name :: rest, hpath.symm⟩
    rw [Schema.at?_concat, harray, Option.bind_some,
      Schema.child?_eq_none_of_slotless hslotless] at hslot
    cases hslot

/-- A node requires a name exactly if a required rule goes on to it and no star comes from
there on; all schemas of the body require each name once, and only names of their
properties. -/
theorem mem_required_schema_iff (now : Moment) {rules : List (String × Json)}
    {fields : RuleSet} (hread : RuleSet.read rules = .ok fields) (hunmixed : Unmixed fields) :
    ∃ type root, schema now rules = .ok (type, root) ∧
      (∀ p name, (∃ node, root.at? p = some node ∧ name ∈ node.required.getD []) ↔
        ∃ field ∈ fields, field.isRequired = true ∧
          ∃ rest, tokens field.field = p ++ name :: rest ∧ "*" ∉ name :: rest) ∧
      root.All fun node => (node.required.getD []).Nodup ∧
        ∀ name ∈ node.required.getD [], name ∈ Dict.keys (node.properties.getD []) := by
  refine ⟨_, _, schema_of_read hread, ?_, ?_⟩
  · intro p name
    constructor
    · rintro ⟨node, hnode, hname⟩
      exact ((lists_required_ofRules hunmixed hnode).mem_iff name).mp hname
    · intro hrequires
      have hcontinues : Continues fields p name := (Requires.continues hrequires).2
      obtain ⟨node, hnode, -⟩ :=
        exists_mem_keys now hunmixed (Requires.continues hrequires).1 hcontinues
      exact ⟨node, hnode, ((lists_required_ofRules hunmixed hnode).mem_iff name).mpr hrequires⟩
  · apply Schema.all_of_at?
    intro p node hnode
    have hlists := lists_required_ofRules hunmixed hnode
    refine ⟨routed_at?_ofRules hnode, hlists.nodup, ?_⟩
    intro name hname
    obtain ⟨hne, hcontinues⟩ := Requires.continues ((hlists.mem_iff name).mp hname)
    obtain ⟨same, hsame, hkey⟩ := exists_mem_keys now hunmixed hne hcontinues
    obtain rfl : same = node := Option.some.inj (hsame.symm.trans hnode)
    exact hkey

/-- A required rule below the elements of an array, one below an object that another rule
makes an array first, and one that is only documented as required. -/
theorem mem_required_schema_rows :
    let rules := [("address", Json.str "array"), ("address.zip", .str "required|string"),
      ("rows.*.id", .str "required|integer"), ("name", .str "swagger_required|string")]
    let address : FieldRules := ⟨"address", [.type .array]⟩
    let zip : FieldRules := ⟨"address.zip", [.required, .type .string]⟩
    let id : FieldRules := ⟨"rows.*.id", [.required, .type .integer]⟩
    let name : FieldRules := ⟨"name", [.documentedRequired, .type .string]⟩
    RuleSet.read rules = .ok [address, zip, id, name] ∧ Unmixed [address, zip, id, name] ∧
      ∃ type root, schema ⟨"", ""⟩ rules = .ok (type, root) ∧
        "address" ∈ root.required.getD [] ∧ "name" ∈ root.required.getD [] ∧
        "rows" ∉ root.required.getD [] ∧
        ∃ node, root.at? ["rows", "*"] = some node ∧ "id" ∈ node.required.getD [] := by
  intro rules address zip id name
  have hread : RuleSet.read rules = .ok [address, zip, id, name] := rfl
  have hunmixed : Unmixed [address, zip, id, name] := by decide +kernel
  obtain ⟨type, root, hschema, hrequired, -⟩ := mem_required_schema_iff ⟨"", ""⟩ hread hunmixed
  have hroot : ∀ token, token ∈ root.required.getD [] ↔
      ∃ field ∈ [address, zip, id, name], field.isRequired = true ∧
        ∃ rest, tokens field.field = [] ++ token :: rest ∧ "*" ∉ token :: rest := by
    intro token
    rw [← hrequired]
    simp
  have haddress : tokens zip.field = [] ++ "address" :: ["zip"] := by decide +kernel
  have hname : tokens name.field = [] ++ "name" :: [] := by decide +kernel
  have hid : tokens id.field = ["rows", "*"] ++ "id" :: [] := by decide +kernel
  refine ⟨hread, hunmixed, type, root, hschema, ?_, ?_, ?_, ?_⟩
  · exact (hroot "address").mpr ⟨zip, by simp, rfl, ["zip"], haddress, by decide⟩
  · exact (hroot "name").mpr ⟨name, by simp, rfl, [], hname, by decide⟩
  · intro hrows
    obtain ⟨field, hfield, -, rest, hpath, hstar⟩ := (hroot "rows").mp hrows
    have hstars : ∀ field ∈ [address, zip, id, name],
        (tokens field.field).head? = some "rows" → "*" ∈ tokens field.field := by
      decide +kernel
    have hmem : "*" ∈ tokens field.field := hstars field hfield (by rw [hpath]; rfl)
    rw [hpath] at hmem
    exact hstar hmem
  · exact (hrequired ["rows", "*"] "id").mpr ⟨id, by simp, rfl, [], hid, by decide⟩

end ApiDoc.Body
