import ApiDoc.Proofs.Request.Contents
import ApiDoc.Proofs.Request.PrefixFree

/-!
# The media type of a body

The media type is read off the finished body: a body is a form exactly if one of its
properties, or the element of one, is binary.  Where the path of no rule is a part of
another one's, a node has a format only at the end of a path, and it is the format of the
rule that ends there.  So the media type can be read off the rules.
-/

namespace ApiDoc.Body

variable {now : Moment} {rules : RuleSet} {field : FieldRules}

/-- A rule for a property of the body itself, or for its elements. -/
def IsTopmost (field : FieldRules) : Prop :=
  ∃ name, name ≠ "*" ∧ (tokens field.field = [name] ∨ tokens field.field = [name, "*"])

theorem format_eq_of_plain_eq {s t : Schema} (h : s.plain = t.plain) : s.format = t.format :=
  (congrArg Schema.format h : s.plain.format = t.plain.format)

theorem IsContainer.format_eq_none {next : String} {node : Schema} (h : IsContainer next node) :
    node.format = none := by
  by_cases hstar : next = "*"
  · rw [hstar, isContainer_star] at h
    obtain ⟨items, rfl⟩ := h
    rfl
  · rw [isContainer_of_ne hstar] at h
    obtain ⟨properties, required, rfl⟩ := h
    rfl

/-- While rules are added, a node has the format of the rule that ends there. -/
theorem format_draft_iff (hfree : PrefixFree rules) (hunmixed : Unmixed rules) {p : List String}
    (hp : p ≠ []) {node : Schema} (h : (draft now rules).at? p = some node) {format : String} :
    node.format = some format ↔
      ∃ field ∈ rules, tokens field.field = p ∧ field.format? = some format := by
  by_cases hend : ∃ field ∈ rules, tokens field.field = p
  · obtain ⟨field, hfield, rfl⟩ := hend
    have hnode : node = field.schema now := by
      apply Option.some.inj
      rw [← h, at?_draft_of_mem hfree hunmixed hfield]
    rw [hnode]
    constructor
    · intro hformat
      exact ⟨field, hfield, rfl, hformat⟩
    · rintro ⟨other, hother, hsame, hformat⟩
      have hstart : tokens field.field <+: tokens other.field := hsame.symm ▸ List.prefix_refl _
      rw [hfree.eq_of_isPrefix hfield hother hstart]
      exact hformat
  · have hnone : node.format = none := by
      obtain ⟨other, hother, rest, hrest⟩ := (exists_prefix_of_at?_draft h).resolve_left hp
      cases rest with
      | nil =>
          rw [List.append_nil] at hrest
          exact absurd ⟨other, hother, hrest.symm⟩ hend
      | cons next more =>
          have hnext : Continues rules p next := continues_of_append hother hrest.symm
          exact (isContainer_draft hfree hunmixed hp hnext h).format_eq_none
    rw [hnone]
    constructor
    · intro hformat
      cases hformat
    · rintro ⟨field, hfield, hpath, -⟩
      exact absurd ⟨field, hfield, hpath⟩ hend

/-- A node of the finished body has the format of the rule that ends there. -/
theorem format_ofRules_iff (hfree : PrefixFree rules) (hunmixed : Unmixed rules)
    {p : List String} (hp : p ≠ []) {format : String} :
    (∃ node, (ofRules now rules).at? p = some node ∧ node.format = some format) ↔
      ∃ field ∈ rules, tokens field.field = p ∧ field.format? = some format := by
  constructor
  · rintro ⟨node, hnode, hformat⟩
    rcases exists_of_at?_ofRules hnode with ⟨old, hold, hfinishes⟩ | ⟨_, _, -, -, -, rfl⟩
    · rw [format_eq_of_plain_eq hfinishes.plain] at hformat
      exact (format_draft_iff hfree hunmixed hp hold).mp hformat
    · cases hformat
  · rintro ⟨field, hfield, hpath, hformat⟩
    have hold : (draft now rules).at? p = some (field.schema now) := by
      rw [← hpath]
      exact at?_draft_of_mem hfree hunmixed hfield
    obtain ⟨node, hnode, hfinishes⟩ := exists_at?_ofRules hold
    refine ⟨node, hnode, ?_⟩
    rw [format_eq_of_plain_eq hfinishes.plain]
    exact hformat

theorem isBinary_iff {s : Schema} : isBinary s = true ↔ s.format = some "binary" :=
  beq_iff_eq

theorem holdsFile_iff {s : Schema} :
    holdsFile s = true ↔
      ∃ p, (p = [] ∨ p = ["*"]) ∧ ∃ node, s.at? p = some node ∧ node.format = some "binary" := by
  have hhere : s.at? [] = some s := rfl
  have hitem : s.at? ["*"] = s.item? := by
    rw [Schema.at?_cons, Schema.child?_star]
    cases s.item? <;> rfl
  simp only [or_and_right, exists_or, exists_eq_left, hhere, hitem, Option.some.injEq,
    exists_eq_left']
  rw [holdsFile, Bool.or_eq_true, isBinary_iff]
  apply or_congr_right
  cases s.item? with
  | none => simp
  | some item => simp [isBinary_iff]

/-- A finished body holds a file at the path of a property or of its element. -/
theorem any_holdsFile_iff :
    (((ofRules now rules).properties.getD []).any fun (_, s) => holdsFile s) = true ↔
      ∃ name, name ≠ "*" ∧ ∃ p, (p = [] ∨ p = ["*"]) ∧
        ∃ node, (ofRules now rules).at? (name :: p) = some node ∧
          node.format = some "binary" := by
  have hroot : (ofRules now rules).at? [] = some (ofRules now rules) := rfl
  rw [List.any_eq_true]
  constructor
  · rintro ⟨⟨name, s⟩, hentry, hfile⟩
    obtain ⟨p, hp, node, hnode, hbinary⟩ := holdsFile_iff.mp hfile
    have hname : name ≠ "*" := (continues_of_mem_keys hroot (List.mem_map_of_mem hentry)).1
    have hchild : (ofRules now rules).child? name = some s :=
      (routed_at?_ofRules hroot).properties (name, s) hentry
    refine ⟨name, hname, p, hp, node, ?_, hbinary⟩
    rw [Schema.at?_cons, hchild, Option.bind_some, hnode]
  · rintro ⟨name, hname, p, hp, node, hnode, hbinary⟩
    obtain ⟨s, hchild, hrest⟩ := Option.bind_eq_some_iff.mp hnode
    rw [Schema.child?_of_ne _ hname] at hchild
    exact ⟨(name, s), Dict.mem_of_find? hchild, holdsFile_iff.mpr ⟨p, hp, node, hrest, hbinary⟩⟩

/-- Where rules stand apart, a body is a form exactly if one of them makes a property of the
body, or its elements, a file; else it is JSON. -/
theorem mediaType_schema_iff (now : Moment) {rules : List (String × Json)} {fields : RuleSet}
    (hread : RuleSet.read rules = .ok fields) (hfree : PrefixFree fields)
    (hunmixed : Unmixed fields) :
    ∃ type root, schema now rules = .ok (type, root) ∧
      (type = "multipart/form-data" ↔
        ∃ field ∈ fields, IsTopmost field ∧ field.format? = some "binary") ∧
      (type ≠ "multipart/form-data" → type = "application/json") := by
  refine ⟨_, _, schema_of_read hread, ?_, ?_⟩
  · have hform : mediaType (ofRules now fields) = "multipart/form-data" ↔
        (((ofRules now fields).properties.getD []).any fun (_, s) => holdsFile s) = true := by
      rw [mediaType, ite_eq_left_iff]
      simp
    rw [hform, any_holdsFile_iff]
    constructor
    · rintro ⟨name, hname, p, hp, hbinary⟩
      obtain ⟨field, hfield, hpath, hformat⟩ :=
        (format_ofRules_iff hfree hunmixed (List.cons_ne_nil name p)).mp hbinary
      refine ⟨field, hfield, ⟨name, hname, ?_⟩, hformat⟩
      rw [hpath]
      rcases hp with rfl | rfl
      · exact .inl rfl
      · exact .inr rfl
    · rintro ⟨field, hfield, ⟨name, hname, hpath⟩, hformat⟩
      obtain ⟨p, hp, hpath⟩ : ∃ p, (p = [] ∨ p = ["*"]) ∧ tokens field.field = name :: p := by
        rcases hpath with hpath | hpath
        · exact ⟨[], .inl rfl, hpath⟩
        · exact ⟨["*"], .inr rfl, hpath⟩
      refine ⟨name, hname, p, hp, ?_⟩
      exact (format_ofRules_iff hfree hunmixed (List.cons_ne_nil name p)).mpr
        ⟨field, hfield, hpath, hformat⟩
  · intro hother
    rw [mediaType, ne_eq, ite_eq_left_iff, Classical.not_imp] at hother
    rw [mediaType, if_neg hother.1]

/-- A file below an object and one of another type do not count, a list of images does. -/
theorem mediaType_schema_iff_photos :
    let rules := [("meta.scan", Json.str "file"), ("age", .str "integer|file"),
      ("photos.*", .str "required|image")]
    let scan : FieldRules := ⟨"meta.scan", [.type .file]⟩
    let age : FieldRules := ⟨"age", [.type .integer, .type .file]⟩
    let photo : FieldRules := ⟨"photos.*", [.required, .type .file]⟩
    RuleSet.read rules = .ok [scan, age, photo] ∧ PrefixFree [scan, age, photo] ∧
      Unmixed [scan, age, photo] ∧
      ∃ root, schema ⟨"", ""⟩ rules = .ok ("multipart/form-data", root) := by
  intro rules scan age photo
  have hread : RuleSet.read rules = .ok [scan, age, photo] := rfl
  have hfree : PrefixFree [scan, age, photo] := by decide +kernel
  have hunmixed : Unmixed [scan, age, photo] := by decide +kernel
  obtain ⟨type, root, hschema, hform, -⟩ := mediaType_schema_iff ⟨"", ""⟩ hread hfree hunmixed
  have htopmost : IsTopmost photo := ⟨"photos", by decide, .inr (by decide +kernel)⟩
  obtain rfl : type = "multipart/form-data" :=
    hform.mpr ⟨photo, by simp, htopmost, by decide +kernel⟩
  exact ⟨hread, hfree, hunmixed, root, hschema⟩

end ApiDoc.Body
