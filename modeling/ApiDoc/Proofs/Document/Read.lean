import ApiDoc.Proofs.Document.Tidy
import ApiDoc.Proofs.Schema.Read

/-!
# Operations that were read

What is read from a value without repeated keys is tidy, and its parameters have no
extension with the key of their schema.  So an operation stays like this when the tag
of a comment overlays it.
-/

namespace ApiDoc

theorem Json.values_of_asObj? {j : Json} {members : List (String × Json)} (hj : j.Distinct)
    (h : j.asObj? = some members) : ∀ member ∈ members, member.2.Distinct := by
  unfold asObj? at h
  split at h
  · exact Option.some.inj h ▸ (distinct_obj_iff.mp hj).2
  · cases h

/-- A parameter that is tidy and has no extension with the key of its schema. -/
structure Parameter.Clean (p : Parameter) : Prop where
  tidy : p.Tidy
  noSchema : "schema" ∉ Dict.keys p.extensions

theorem Parameter.clean_of_ofJson? (j : Json) (hj : j.Distinct) (p : Parameter)
    (h : ofJson? j = some p) : p.Clean := by
  obtain ⟨members, hmembers, h⟩ := Option.bind_eq_some_iff.mp h
  have hvalues := Json.values_of_asObj? hj hmembers
  obtain ⟨name, -, h⟩ := Option.bind_eq_some_iff.mp h
  obtain ⟨location, -, h⟩ := Option.bind_eq_some_iff.mp h
  obtain ⟨required, -, h⟩ := Option.bind_eq_some_iff.mp h
  obtain ⟨description, -, h⟩ := Option.bind_eq_some_iff.mp h
  obtain ⟨schema, hschema, h⟩ := Option.bind_eq_some_iff.mp h
  obtain rfl := Option.some.inj h
  have hextensions : Json.Extends fieldNames (Json.others fieldNames members) :=
    Json.extends_others hvalues
  refine ⟨⟨?_, hextensions.mono (by decide)⟩, fun hkey => ?_⟩
  · exact Record.of_defaulted? hvalues Schema.tidy_empty
      (fun j hj s hs => Schema.tidy_of_ofJson? j hj hs) hschema
  · obtain ⟨extension, hextension, heq⟩ := List.mem_map.mp hkey
    exact hextensions.fresh extension hextension (heq ▸ by decide)

theorem MediaType.tidy_of_ofJson? (j : Json) (hj : j.Distinct) (m : MediaType)
    (h : ofJson? j = some m) : m.Tidy := by
  obtain ⟨members, hmembers, h⟩ := Option.bind_eq_some_iff.mp h
  have hvalues := Json.values_of_asObj? hj hmembers
  obtain ⟨schema, hschema, h⟩ := Option.bind_eq_some_iff.mp h
  obtain rfl := Option.some.inj h
  exact ⟨Record.of_defaulted? hvalues Schema.tidy_empty
    (fun j hj s hs => Schema.tidy_of_ofJson? j hj hs) hschema, Json.extends_others hvalues⟩

theorem tidyContent_of_dictOf? (j : Json) (hj : j.Distinct) (content : Dict MediaType)
    (h : Json.dictOf? MediaType.ofJson? j = some content) : TidyContent content :=
  have hread := Json.forall_of_dictOf? MediaType.tidy_of_ofJson? hj h
  ⟨hread.1, hread.2⟩

theorem RequestBody.tidy_of_ofJson? (j : Json) (hj : j.Distinct) (b : RequestBody)
    (h : ofJson? j = some b) : b.Tidy := by
  obtain ⟨members, hmembers, h⟩ := Option.bind_eq_some_iff.mp h
  have hvalues := Json.values_of_asObj? hj hmembers
  obtain ⟨description, -, h⟩ := Option.bind_eq_some_iff.mp h
  obtain ⟨required, -, h⟩ := Option.bind_eq_some_iff.mp h
  obtain ⟨content, hcontent, h⟩ := Option.bind_eq_some_iff.mp h
  obtain rfl := Option.some.inj h
  exact ⟨Record.of_defaulted? hvalues ⟨List.Pairwise.nil, by simp⟩ tidyContent_of_dictOf?
    hcontent, Json.extends_others hvalues⟩

theorem Response.tidy_of_ofJson? (j : Json) (hj : j.Distinct) (r : Response)
    (h : ofJson? j = some r) : r.Tidy := by
  obtain ⟨members, hmembers, h⟩ := Option.bind_eq_some_iff.mp h
  have hvalues := Json.values_of_asObj? hj hmembers
  obtain ⟨description, -, h⟩ := Option.bind_eq_some_iff.mp h
  obtain ⟨content, hcontent, h⟩ := Option.bind_eq_some_iff.mp h
  obtain rfl := Option.some.inj h
  exact ⟨Record.of_optional? hvalues
    (fun j hj _ hread => Json.forall_of_orNull? tidyContent_of_dictOf? hj hread) hcontent,
    Json.extends_others hvalues⟩

theorem SecurityRequirement.increasing_of_ofJson? (j : Json) (_ : j.Distinct)
    (r : SecurityRequirement) (h : ofJson? j = some r) : Dict.Increasing r :=
  Json.increasing_of_dictOf? h

namespace Operation

/-- An operation that is tidy, with clean parameters. -/
structure Clean (o : Operation) : Prop where
  tidy : o.Tidy
  parameters : ∀ p ∈ o.parameters, p.Clean

/-- An operation is read field by field, each from the members under its key. -/
structure ReadFrom (members : List (String × Json)) (o : Operation) : Prop where
  tags : (Record.named members).defaulted? "tags" [] (Json.listOf? Json.asStr?) = some o.tags
  summary : (Record.named members).defaulted? "summary" "" Json.asStr? = some o.summary
  description :
    (Record.named members).defaulted? "description" "" Json.asStr? = some o.description
  operationId :
    (Record.named members).optional? "operationId" (Json.orNull? Json.asStr?) = some o.operationId
  deprecated :
    (Record.named members).defaulted? "deprecated" false Json.asBool? = some o.deprecated
  parameters :
    (Record.named members).defaulted? "parameters" [] (Json.listOf? Parameter.ofJson?) =
      some o.parameters
  requestBody :
    (Record.named members).optional? "requestBody" (Json.orNull? RequestBody.ofJson?) =
      some o.requestBody
  responses :
    (Record.named members).defaulted? "responses" [] (Json.dictOf? Response.ofJson?) =
      some o.responses
  security :
    (Record.named members).optional? "security"
      (Json.orNull? (Json.listOf? SecurityRequirement.ofJson?)) = some o.security
  extensions : o.extensions = Json.others fieldNames members

theorem readFrom_of_ofJson? {members : List (String × Json)} {o : Operation}
    (h : ofJson? (.obj members) = some o) : ReadFrom members o := by
  obtain ⟨tags, htags, h⟩ := Option.bind_eq_some_iff.mp h
  obtain ⟨summary, hsummary, h⟩ := Option.bind_eq_some_iff.mp h
  obtain ⟨description, hdescription, h⟩ := Option.bind_eq_some_iff.mp h
  obtain ⟨operationId, hoperationId, h⟩ := Option.bind_eq_some_iff.mp h
  obtain ⟨deprecated, hdeprecated, h⟩ := Option.bind_eq_some_iff.mp h
  obtain ⟨parameters, hparameters, h⟩ := Option.bind_eq_some_iff.mp h
  obtain ⟨requestBody, hbody, h⟩ := Option.bind_eq_some_iff.mp h
  obtain ⟨responses, hresponses, h⟩ := Option.bind_eq_some_iff.mp h
  obtain ⟨security, hsecurity, h⟩ := Option.bind_eq_some_iff.mp h
  obtain rfl := Option.some.inj h
  exact ⟨htags, hsummary, hdescription, hoperationId, hdeprecated, hparameters, hbody,
    hresponses, hsecurity, rfl⟩

/-- The requirements that were read have their schemes in order. -/
theorem ReadFrom.increasing_security {members : List (String × Json)} {o : Operation}
    (h : ReadFrom members o) (hvalues : ∀ member ∈ members, member.2.Distinct) :
    ∀ requirements ∈ o.security, ∀ requirement ∈ requirements,
      Dict.Increasing requirement :=
  Record.of_optional? hvalues
    (fun _ hj _ hread => Json.forall_of_orNull?
      (fun _ hj _ hlist =>
        Json.forall_of_listOf? SecurityRequirement.increasing_of_ofJson? hj hlist)
      hj hread) h.security

theorem ReadFrom.clean {members : List (String × Json)} {o : Operation}
    (h : ReadFrom members o) (hvalues : ∀ member ∈ members, member.2.Distinct) : o.Clean := by
  have hclean : ∀ p ∈ o.parameters, p.Clean :=
    Record.of_defaulted? (q := fun ps : List Parameter => ∀ p ∈ ps, p.Clean) hvalues (by simp)
      (fun j hj _ hread => Json.forall_of_listOf? Parameter.clean_of_ofJson? hj hread)
      h.parameters
  have htidy : Dict.Increasing o.responses ∧ ∀ entry ∈ o.responses, entry.2.Tidy :=
    Record.of_defaulted?
      (q := fun rs : Dict Response => rs.Increasing ∧ ∀ entry ∈ rs, entry.2.Tidy) hvalues
      ⟨List.Pairwise.nil, by simp⟩
      (fun j hj _ hread => Json.forall_of_dictOf? Response.tidy_of_ofJson? hj hread) h.responses
  exact
    { tidy :=
        { parameters := fun p hp => (hclean p hp).tidy
          requestBody :=
            Record.of_optional? hvalues
              (fun j hj _ hread =>
                Json.forall_of_orNull? RequestBody.tidy_of_ofJson? hj hread) h.requestBody
          increasing := htidy.1
          responses := htidy.2
          security := fun requirements hrequirements requirement hrequirement =>
            (h.increasing_security hvalues requirements hrequirements requirement
              hrequirement).nodup_keys
          extensions := h.extensions ▸ Json.extends_others hvalues }
      parameters := hclean }

theorem clean_of_ofJson? {j : Json} (hj : j.Distinct) {o : Operation}
    (h : ofJson? j = some o) : o.Clean := by
  obtain ⟨members, hmembers, hrest⟩ := Option.bind_eq_some_iff.mp h
  cases hj with
  | obj _ hvalues => exact (readFrom_of_ofJson? h).clean hvalues
  | _ => cases hmembers

/-- Whatever an operation was, it is clean after a value has been overlaid. -/
theorem clean_of_mergeValue {o merged : Operation} {key : String} {value : Json}
    (hvalue : value.Distinct) (h : o.mergeValue key value = .ok merged) : merged.Clean := by
  rw [mergeValue] at h
  split at h
  · next read hread =>
      obtain rfl := Except.ok.inj h
      exact clean_of_ofJson?
        (Json.distinct_setDotted (Json.distinct_merged o.toJson) hvalue key) hread
  · cases h

end Operation

end ApiDoc
