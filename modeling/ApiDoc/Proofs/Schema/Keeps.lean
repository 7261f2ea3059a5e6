import ApiDoc.Proofs.Json.Keeps
import ApiDoc.Proofs.Schema.Fields

/-!
# Schemas keep what they are read from

Every scalar of a value that is read as a schema stands at the same path of the schema when
it is written.  The induction is on the value, and says the same of properties and elements,
which are read from the members of the value.
-/

namespace ApiDoc.Schema

open Json (Row KeptBy)

/-- Whatever is read from the value as a schema, as properties or as elements, keeps it. -/
structure Kept (j : Json) : Prop where
  schema : KeptBy ofJson? toJson j
  properties : KeptBy (Json.dictOf? ofJson?) (Json.ofDict toJson) j
  items : KeptBy itemsOf? itemsValue j

/-- Each field keeps its member, if the schemas in it are kept. -/
theorem keeps_of_mem_table {f : Row Schema} (hf : f ∈ table) {j : Json} (hj : j.Distinct)
    (h : Kept j) : f.Keeps j := by
  have htexts := Json.keeping_str.listOf j hj
  revert f
  simp only [table, List.forall_mem_cons]
  exact ⟨Row.keeps_optional (Json.keeping_str j hj),
    Row.keeps_optional (Json.keeping_str j hj), Row.keeps_optional (Json.keeping_str j hj),
    Row.keeps_optional (Json.keeping_str j hj), Row.keeps_optional (Json.keeping_bool j hj),
    Row.keeps_optional (Json.keeping_arr j hj), Row.keeps_optional (Json.keeping_some j hj),
    Row.keeps_optional (Json.keeping_some j hj), Row.keeps_optional (Json.keeping_some j hj),
    Row.keeps_optional (Json.keeping_some j hj), Row.keeps_optional (Json.keeping_word j hj),
    Row.keeps_optional (Json.keeping_word j hj), Row.keeps_optional (Json.keeping_word j hj),
    Row.keeps_optional (Json.keeping_word j hj), Row.keeps_optional h.properties,
    Row.keeps_optional h.items, Row.keeps_optional htexts, List.forall_mem_nil _⟩

theorem kept_of_distinct {j : Json} (hj : j.Distinct) : Kept j := by
  induction hj with
  | @arr items hitems ih =>
      refine ⟨by rintro _ ⟨⟩, by rintro _ ⟨⟩, fun made hmade => ?_⟩
      obtain ⟨slots, hslots, rfl⟩ := Option.map_eq_some_iff.mp hmade
      exact Json.keptBy_listOf? (fun item hitem => (ih item hitem).schema) slots hslots
  | @obj members hkeys hvalues ih =>
      have hschema : KeptBy ofJson? toJson (.obj members) := by
        intro s hs
        rw [toJson_eq_obj, fields_eq_written]
        exact Json.keeps_written (.obj hkeys hvalues) (by decide) ((ofJson?_obj_iff hkeys).mp hs)
          fun f hf j hj => keeps_of_mem_table hf (hvalues _ hj) (ih _ hj)
      refine ⟨hschema, ?_, fun made hmade => ?_⟩
      · exact Json.keptBy_dictOf? hkeys fun member hmember => (ih member hmember).schema
      · rw [itemsOf?_obj] at hmade
        obtain ⟨s, hs, rfl⟩ := Option.map_eq_some_iff.mp hmade
        exact hschema s hs
  | null | bool | num | str => exact ⟨by rintro _ ⟨⟩, by rintro _ ⟨⟩, by rintro _ ⟨⟩⟩

/-- A schema that was read and is written again holds every scalar it was read from. -/
theorem keeping : Json.Keeping ofJson? toJson := fun _ hj => (kept_of_distinct hj).schema

end ApiDoc.Schema
