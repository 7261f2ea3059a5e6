import ApiDoc.Proofs.Document.Fields
import ApiDoc.Proofs.Document.Overlay
import ApiDoc.Proofs.Schema.Keeps

/-!
# Operations keep what they are read from

Every scalar of an object that is read as an operation stands at the same path of the
operation when it is written: under the name of a field it is kept by the field, and under
any other key as an extension.  So nothing of a value that was overlaid gets lost.
-/

namespace ApiDoc

open Json (Row Keeping)

theorem Schema.hollow_of_isEmpty {s : Schema} (h : s.isEmpty = true) : s.toJson.Hollow := by
  rw [Schema.eq_of_isEmpty h]
  exact Json.hollow_obj (List.forall_mem_nil _)

/-! ## Parameters -/

theorem Location.name_of_ofName? {name : String} {l : Location} (h : ofName? name = some l) :
    l.name = name := by
  unfold ofName? at h
  split at h
  all_goals first | (obtain rfl := Option.some.inj h; rfl) | cases h

theorem Location.keeping : Keeping ofJson? fun l => .str l.name := by
  rintro j - l h
  unfold ofJson? at h
  split at h
  · next name => exact name_of_ofName? h ▸ Json.Keeps.refl (.str name)
  · next name =>
      have hhollow : (Json.obj [(name, .null)]).Hollow :=
        Json.hollow_obj (List.forall_mem_singleton.mpr Json.hollow_null)
      exact hhollow.keeps _
  · cases h

theorem Parameter.keeping : Keeping ofJson? toJson := by
  refine Json.keeping_record (fun _ _ => ofJson?_eq_some_iff.mp) toJson_eq_written (by decide) ?_
  intro j hj
  simp only [table, List.forall_mem_cons]
  exact ⟨Row.keeps_required (Json.keeping_str j hj),
    Row.keeps_required (Location.keeping j hj), Row.keeps_defaulted (Json.keeping_bool j hj),
    Row.keeps_optional (Json.keeping_str j hj),
    Row.keeps_skipping (fun _ => Schema.hollow_of_isEmpty) (Schema.keeping j hj),
    List.forall_mem_nil _⟩

/-! ## Bodies and responses -/

theorem MediaType.keeping : Keeping ofJson? toJson := by
  refine Json.keeping_record (fun _ _ => ofJson?_eq_some_iff.mp) toJson_eq_written (by decide) ?_
  intro j hj
  simp only [table, List.forall_mem_cons]
  exact ⟨Row.keeps_skipping (fun _ => Schema.hollow_of_isEmpty) (Schema.keeping j hj),
    List.forall_mem_nil _⟩

theorem RequestBody.keeping : Keeping ofJson? toJson := by
  refine Json.keeping_record (fun _ _ => ofJson?_eq_some_iff.mp) toJson_eq_written (by decide) ?_
  intro j hj
  simp only [table, List.forall_mem_cons]
  exact ⟨Row.keeps_optional (Json.keeping_str j hj),
    Row.keeps_optional (Json.keeping_bool j hj),
    Row.keeps_defaulted (MediaType.keeping.dictOf j hj), List.forall_mem_nil _⟩

theorem Response.keeping : Keeping ofJson? toJson := by
  refine Json.keeping_record (fun _ _ => ofJson?_eq_some_iff.mp) toJson_eq_written (by decide) ?_
  intro j hj
  simp only [table, List.forall_mem_cons]
  exact ⟨Row.keeps_defaulted (Json.keeping_str j hj),
    Row.keeps_optional (MediaType.keeping.dictOf j hj), List.forall_mem_nil _⟩

theorem SecurityRequirement.keeping : Keeping ofJson? toJson :=
  Json.keeping_str.listOf.dictOf

/-! ## Operations -/

theorem Operation.keeping : Keeping ofJson? toJson := by
  refine Json.keeping_record (fun _ _ => ofJson?_eq_some_iff.mp) toJson_eq_written (by decide) ?_
  intro j hj
  simp only [table, List.forall_mem_cons]
  exact ⟨Row.keeps_list (Json.keeping_str.listOf j hj),
    Row.keeps_defaulted (Json.keeping_str j hj), Row.keeps_defaulted (Json.keeping_str j hj),
    Row.keeps_optional (Json.keeping_str j hj), Row.keeps_defaulted (Json.keeping_bool j hj),
    Row.keeps_list (Parameter.keeping.listOf j hj),
    Row.keeps_optional (RequestBody.keeping j hj),
    Row.keeps_defaulted (Response.keeping.dictOf j hj),
    Row.keeps_optional (SecurityRequirement.keeping.listOf j hj), List.forall_mem_nil _⟩

namespace Operation

/-- What was read is written without repeated keys. -/
theorem merged_toJson_of_ofJson? {j : Json} (hj : j.Distinct) {o : Operation}
    (h : ofJson? j = some o) : o.toJson.merged = o.toJson := by
  have hclean : o.Clean := clean_of_ofJson? hj h
  refine Json.merged_of_distinct o.toJson (hclean.tidy.distinct_toJson_iff.mpr ?_)
  exact fun p hp hkey => absurd hkey (hclean.parameters p hp).noSchema

/-- An operation that was read and is written again holds every scalar it was read from, each
at its path.  So it does after a value was overlaid, whatever it was before. -/
theorem keeps_scalars :
    (∀ (j : Json) (o : Operation), j.Distinct → ofJson? j = some o → j.Keeps o.toJson.merged) ∧
    ∀ (o merged : Operation) (key : String) (value : Json), value.Distinct →
      o.mergeValue key value = .ok merged →
      (Json.setDotted o.toJson.merged key value).Keeps merged.toJson.merged := by
  have hread : ∀ (j : Json) (o : Operation), j.Distinct → ofJson? j = some o →
      j.Keeps o.toJson.merged := by
    intro j o hj h
    rw [merged_toJson_of_ofJson? hj h]
    exact keeping j hj o h
  refine ⟨hread, fun o merged key value hvalue h => ?_⟩
  have htree : (Json.setDotted o.toJson.merged key value).Distinct :=
    Json.distinct_setDotted (Json.distinct_merged o.toJson) hvalue key
  unfold mergeValue at h
  split at h
  · next made hmade =>
      obtain rfl := Except.ok.inj h
      exact hread _ made htree hmade
  · cases h

/-- A response with an extension, under a dotted key. -/
theorem keeps_scalars_response :
    let j : Json := .obj
      [("summary", .str "List pets"), ("x-rate", .arr [.null, .ofNat 5]), ("tags", .arr [])]
    let value : Json := .obj [("description", .str "Gone"), ("x-code", .ofNat 7)]
    let o : Operation :=
      { summary := "List pets", extensions := [("x-rate", .arr [.null, .ofNat 5])] }
    let merged : Operation :=
      { o with
        responses := [("404", { description := "Gone", extensions := [("x-code", .ofNat 7)] })] }
    (ofJson? j = some o ∧ j.Keeps o.toJson.merged) ∧
      o.mergeValue "responses.404" value = .ok merged ∧
      (Json.setDotted o.toJson.merged "responses.404" value).Keeps merged.toJson.merged := by
  intro j value o merged
  have hj : j.Distinct := by
    refine .obj (by decide) ?_
    simp only [List.forall_mem_cons]
    exact ⟨.str, .arr (by simpa using ⟨.null, .num⟩), .arr (List.forall_mem_nil _),
      List.forall_mem_nil _⟩
  have hvalue : value.Distinct := by
    refine .obj (by decide) ?_
    simp only [List.forall_mem_cons]
    exact ⟨.str, .num, List.forall_mem_nil _⟩
  have hread : ofJson? j = some o := by rfl
  have hmerged : o.mergeValue "responses.404" value = .ok merged := by rfl
  exact ⟨⟨hread, keeps_scalars.1 j o hj hread⟩, hmerged,
    keeps_scalars.2 o merged "responses.404" value hvalue hmerged⟩

end Operation

end ApiDoc
