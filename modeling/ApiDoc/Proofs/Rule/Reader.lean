import ApiDoc.Proofs.Except
import ApiDoc.Proofs.Text
import ApiDoc.Rule.Reader

/-!
# The rules that are read

A rule that is one text is read as the list of the constraints between its bars, blank ones
left out.  Rules are read field by field, so the fields stay in order, and rules in another
order are read as the same rules in that order.
-/

namespace ApiDoc

namespace FieldRules

variable (rules : FieldRules)

theorem schemaType_mem :
    rules.schemaType ∈ ["integer", "number", "boolean", "string", "array"] := by
  unfold schemaType
  cases rules.ruleType? with
  | none => simp
  | some type => cases type <;> simp [RuleType.schemaType]

/-- No rule makes a field an object. -/
theorem schemaType_ne_object : rules.schemaType ≠ "object" := by
  intro hobject
  have hmem := rules.schemaType_mem
  simp [hobject] at hmem

/-- Only strings have a format. -/
theorem format?_eq_none {rules : FieldRules} (h : rules.schemaType ≠ "string") :
    rules.format? = none := by
  rw [format?, List.findSome?_eq_none_iff]
  intro c _
  cases c with
  | type t =>
      rw [ite_eq_right_iff]
      intro hsame
      rw [← hsame] at h
      cases t <;> first | rfl | exact absurd rfl h
  | _ => rfl

/-! ## Texts and lists -/

/-- The constraints that stand between the bars of a text. -/
def atoms (cs : List Char) : List (List Char) :=
  (Text.splitOn '|' cs).filter (!Text.allBlank ·)

/-- Constraints without bars are cut where they were joined; only blank ones are lost. -/
theorem atoms_join {pieces : List (List Char)} (h : ∀ piece ∈ pieces, '|' ∉ piece) :
    atoms (Text.join ['|'] pieces) = pieces.filter (!Text.allBlank ·) := by
  cases pieces with
  | nil => rfl
  | cons piece rest => rw [atoms, Text.splitOn_join (List.cons_ne_nil piece rest) h]

theorem read_list (field : String) (texts : List String) :
    read field (.arr (texts.map .str)) =
      .ok (texts.map fun text => Constraint.read text.toList) := by
  rw [read, List.mapM_map]
  exact mapM_eq_ok_map fun _ _ => rfl

/-- A rule in one text and the list of the constraints between its bars are the same. -/
theorem read_text (field : String) (text : String) :
    read field (.str text) =
      read field (.arr (((atoms text.toList).map String.ofList).map .str)) := by
  rw [read_list, List.map_map, read]
  simp only [Function.comp_def, String.toList_ofList, atoms]

/-- Constraints that are joined by bars are read as the list of them is read, each as it is
and in their order, if none is blank or has a bar. -/
theorem read_joined (field : String) {texts : List String}
    (h : ∀ text ∈ texts, Text.allBlank text.toList = false ∧ '|' ∉ text.toList) :
    read field (.str ("|".intercalate texts)) = read field (.arr (texts.map .str)) ∧
      read field (.arr (texts.map .str)) =
        .ok (texts.map fun text => Constraint.read text.toList) := by
  refine ⟨?_, read_list field texts⟩
  have hbars : ∀ piece ∈ texts.map String.toList, '|' ∉ piece :=
    List.forall_mem_map.mpr fun text htext => (h text htext).2
  have hblanks : (texts.map String.toList).filter (!Text.allBlank ·) =
      texts.map String.toList := by
    rw [List.filter_eq_self, List.forall_mem_map]
    intro text htext
    simp [(h text htext).1]
  have hatoms : atoms ("|".intercalate texts).toList = texts.map String.toList := by
    calc atoms ("|".intercalate texts).toList
      _ = atoms (Text.join ['|'] (texts.map String.toList)) := by
        rw [String.toList_intercalate, Text.join_eq_intercalate]
        rfl
      _ = texts.map String.toList := by rw [atoms_join hbars, hblanks]
  rw [read_text, hatoms, List.map_map]
  simp [Function.comp_def]

/-- Colons, commas, quotes and blanks stay with their constraint. -/
theorem read_joined_in :
    let texts := ["required", " in:'a', \"b\" ,c:d", "swagger_default: x "]
    read "kind" (.str "required| in:'a', \"b\" ,c:d|swagger_default: x ") =
      read "kind" (.arr (texts.map .str)) ∧
    read "kind" (.arr (texts.map .str)) =
      .ok [.required, .oneOf ["a", "b", "c:d"], .documentedDefault " x "] := by
  intro texts
  have hparts : ∀ text ∈ texts, Text.allBlank text.toList = false ∧ '|' ∉ text.toList := by decide
  exact read_joined "kind" hparts

end FieldRules

namespace RuleSet

variable {rules : List (String × Json)} {fields : RuleSet}

theorem map_field_of_read (h : read rules = .ok fields) :
    fields.map (·.field) = rules.map (·.1) := by
  refine map_eq_of_mapM ?_ h
  intro rule _ field hfield
  obtain ⟨constraints, -, heq⟩ := bind_eq_ok_iff.mp hfield
  exact (Except.ok.inj heq) ▸ rfl

/-- What is said of the fields that are read is said of the names they are written under. -/
theorem forall_field_iff {q : String → Prop} (h : read rules = .ok fields) :
    (∀ field ∈ fields, q field.field) ↔ ∀ rule ∈ rules, q rule.1 := by
  have hnames : (∀ name ∈ fields.map (·.field), q name) ↔ ∀ name ∈ rules.map (·.1), q name := by
    rw [map_field_of_read h]
  rwa [List.forall_mem_map, List.forall_mem_map] at hnames

/-- Permuted rules are read as permuted fields. -/
theorem exists_read_of_perm {permuted : List (String × Json)} (hperm : permuted.Perm rules)
    (h : read rules = .ok fields) : ∃ others, read permuted = .ok others ∧ fields.Perm others :=
  exists_mapM_eq_ok_of_perm hperm.symm h

end RuleSet

end ApiDoc
