import ApiDoc.Document.Codec
import ApiDoc.Proofs.Schema.Tidy

/-!
# Tidy operations

The parts of an operation are tidy as schemas are, with one exception: a parameter may
have an extension under the key of its schema.  A tidy operation is written without
repeated keys exactly if such an extension stands only beside an empty schema, which is
not written.
-/

namespace ApiDoc

open Json (Extends Fields)

theorem Json.Extends.mono {names more : List String} {extensions : Dict Json}
    (h : Extends more extensions) (hsub : names ⊆ more) : Extends names extensions :=
  ⟨h.increasing, h.values, fun extension hextension hname =>
    h.fresh extension hextension (hsub hname)⟩

namespace Parameter

/-- The fields that are written. -/
def fields (p : Parameter) : List (String × Json) :=
  [("name", .str p.name), ("in", .str p.location.name), ("required", .bool p.required)] ++
    Json.optionalMember "description" .str p.description ++ schemaMember p.schema

theorem toJson_eq_obj (p : Parameter) : p.toJson = .obj (p.fields ++ p.extensions) := rfl

/-- Nothing in the parameter can repeat a key, but an extension that has the key of the
schema. -/
structure Tidy (p : Parameter) : Prop where
  schema : p.schema.Tidy
  extensions : Extends ["name", "in", "required", "description"] p.extensions

/-- An extension with the key of the schema stands only beside an empty schema. -/
def SchemaUnshared (p : Parameter) : Prop :=
  "schema" ∈ Dict.keys p.extensions → p.schema.isEmpty = true

instance (p : Parameter) : Decidable p.SchemaUnshared :=
  inferInstanceAs (Decidable (_ → _))

/-- No extension in the parameter has the key of a field beside it. -/
def AllUnshared (p : Parameter) : Prop :=
  Unshared p.fields p.extensions ∧ p.schema.AllUnshared

theorem schemaUnshared_of_unshared {p : Parameter} (h : Unshared p.fields p.extensions) :
    p.SchemaUnshared := by
  intro hkey
  obtain ⟨extension, hextension, heq⟩ := List.mem_map.mp hkey
  by_contra hwritten
  have hfield : ("schema", p.schema.toJson) ∈ p.fields := by
    rw [fields, schemaMember, if_neg hwritten]
    exact List.mem_append_right _ List.mem_cons_self
  exact h extension hextension _ hfield heq.symm

theorem fields_schemaMember {schema : Schema} (h : schema.Tidy) :
    Fields ["schema"] (schemaMember schema) := by
  rw [schemaMember]
  split
  · exact .absent
  · exact .member h.distinct_toJson

namespace Tidy

variable {p : Parameter}

theorem fields (h : p.Tidy) : Fields fieldNames p.fields := by
  rw [Parameter.fields, fieldNames]
  simp only [List.cons_append, List.nil_append]
  exact .consMember .str <| .consMember .str <| .consMember .bool <|
    .cons (.optional fun _ _ => .str) <| fields_schemaMember h.schema

theorem unshared (h : p.Tidy) (hschema : p.SchemaUnshared) :
    Unshared p.fields p.extensions := by
  intro extension hextension field hfield heq
  have hname : extension.1 ∈ fieldNames :=
    heq ▸ h.fields.sublist.mem (List.mem_map_of_mem hfield)
  have hkey : extension.1 = "schema" := by
    have hfresh := h.extensions.fresh extension hextension
    simp_all [fieldNames]
  have hempty := hschema (hkey ▸ List.mem_map_of_mem hextension)
  have hfields : p.fields =
      [("name", .str p.name), ("in", .str p.location.name), ("required", .bool p.required)] ++
        Json.optionalMember "description" .str p.description := by
    rw [Parameter.fields, schemaMember, if_pos hempty, List.append_nil]
  have hwritten : Fields ["name", "in", "required", "description"] p.fields := by
    rw [hfields]
    exact .consMember .str <| .consMember .str <| .consMember .bool <|
      .optional fun _ _ => .str
  exact h.extensions.fresh extension hextension
    (heq ▸ hwritten.sublist.mem (List.mem_map_of_mem hfield))

theorem allUnshared_iff (h : p.Tidy) : p.AllUnshared ↔ p.SchemaUnshared :=
  ⟨fun hall => schemaUnshared_of_unshared hall.1,
    fun hschema => ⟨h.unshared hschema, h.schema.allUnshared⟩⟩

theorem distinct_toJson_iff (h : p.Tidy) : p.toJson.Distinct ↔ p.SchemaUnshared := by
  rw [toJson_eq_obj]
  constructor
  · exact fun hdistinct => schemaUnshared_of_unshared (Json.unshared_of_distinct hdistinct)
  · intro hschema
    exact h.fields.distinct_obj_append (by decide) h.extensions.increasing.nodup_keys
      h.extensions.values (h.unshared hschema)

end Tidy

end Parameter

namespace MediaType

/-- Nothing in the content can repeat a key. -/
structure Tidy (m : MediaType) : Prop where
  schema : m.schema.Tidy
  extensions : Extends ["schema"] m.extensions

/-- No extension in the content has the key of a field beside it. -/
def AllUnshared (m : MediaType) : Prop :=
  Unshared (Parameter.schemaMember m.schema) m.extensions ∧ m.schema.AllUnshared

theorem Tidy.allUnshared {m : MediaType} (h : m.Tidy) : m.AllUnshared :=
  ⟨(Parameter.fields_schemaMember h.schema).unshared h.extensions, h.schema.allUnshared⟩

theorem Tidy.distinct_toJson {m : MediaType} (h : m.Tidy) : m.toJson.Distinct :=
  (Parameter.fields_schemaMember h.schema).distinct_obj_extends (by decide) h.extensions

end MediaType

/-- Content by media type of which nothing can repeat a key. -/
structure TidyContent (content : Dict MediaType) : Prop where
  increasing : content.Increasing
  tidy : ∀ entry ∈ content, entry.2.Tidy

theorem TidyContent.distinct {content : Dict MediaType} (h : TidyContent content) :
    (Json.ofDict MediaType.toJson content).Distinct :=
  Json.distinct_ofDict h.increasing.nodup_keys fun entry hentry =>
    (h.tidy entry hentry).distinct_toJson

namespace RequestBody

/-- The fields that are written. -/
def fields (b : RequestBody) : List (String × Json) :=
  Json.optionalMember "description" .str b.description ++
    Json.optionalMember "required" .bool b.required ++
    [("content", Json.ofDict MediaType.toJson b.content)]

/-- Nothing in the body can repeat a key. -/
structure Tidy (b : RequestBody) : Prop where
  content : TidyContent b.content
  extensions : Extends fieldNames b.extensions

/-- No extension in the body has the key of a field beside it. -/
def AllUnshared (b : RequestBody) : Prop :=
  Unshared b.fields b.extensions ∧ ∀ entry ∈ b.content, entry.2.AllUnshared

theorem Tidy.fields {b : RequestBody} (h : b.Tidy) : Fields fieldNames b.fields := by
  rw [RequestBody.fields, fieldNames, List.append_assoc]
  exact .cons (.optional fun _ _ => .str) <| .cons (.optional fun _ _ => .bool) <|
    .member h.content.distinct

theorem Tidy.allUnshared {b : RequestBody} (h : b.Tidy) : b.AllUnshared :=
  ⟨h.fields.unshared h.extensions, fun entry hentry =>
    (h.content.tidy entry hentry).allUnshared⟩

theorem Tidy.distinct_toJson {b : RequestBody} (h : b.Tidy) : b.toJson.Distinct :=
  h.fields.distinct_obj_extends (by decide) h.extensions

end RequestBody

namespace Response

/-- The fields that are written. -/
def fields (r : Response) : List (String × Json) :=
  [("description", .str r.description)] ++
    Json.optionalMember "content" (Json.ofDict MediaType.toJson) r.content

/-- Nothing in the response can repeat a key. -/
structure Tidy (r : Response) : Prop where
  content : ∀ content ∈ r.content, TidyContent content
  extensions : Extends fieldNames r.extensions

/-- No extension in the response has the key of a field beside it. -/
def AllUnshared (r : Response) : Prop :=
  Unshared r.fields r.extensions ∧
    ∀ content ∈ r.content, ∀ entry ∈ content, entry.2.AllUnshared

theorem Tidy.fields {r : Response} (h : r.Tidy) : Fields fieldNames r.fields :=
  .cons (.member .str) <| .optional fun content hcontent => (h.content content hcontent).distinct

theorem Tidy.allUnshared {r : Response} (h : r.Tidy) : r.AllUnshared :=
  ⟨h.fields.unshared h.extensions, fun content hcontent entry hentry =>
    ((h.content content hcontent).tidy entry hentry).allUnshared⟩

theorem Tidy.distinct_toJson {r : Response} (h : r.Tidy) : r.toJson.Distinct :=
  h.fields.distinct_obj_extends (by decide) h.extensions

theorem tidy_plain (description : String) : Tidy { description } :=
  ⟨by simp, Json.extends_nil _⟩

theorem Tidy.withSchema {r : Response} (h : r.Tidy) {schema : Schema} (hschema : schema.Tidy) :
    (r.withSchema schema).Tidy := by
  refine ⟨?_, h.extensions⟩
  rintro _ ⟨⟩
  have hold : TidyContent (r.content.getD []) := by
    cases hcontent : r.content with
    | none => exact ⟨List.Pairwise.nil, by simp⟩
    | some content => exact h.content content hcontent
  exact ⟨hold.increasing.insert _ _,
    Dict.forall_mem_insert (p := fun entry : String × MediaType => entry.2.Tidy)
      ⟨hschema, Json.extends_nil _⟩ hold.tidy⟩

end Response

namespace Operation

/-- The fields that are written. -/
def fields (o : Operation) : List (String × Json) :=
  Json.listMember "tags" .str o.tags ++
    [("summary", .str o.summary), ("description", .str o.description)] ++
    Json.optionalMember "operationId" .str o.operationId ++
    [("deprecated", .bool o.deprecated)] ++
    Json.listMember "parameters" Parameter.toJson o.parameters ++
    Json.optionalMember "requestBody" RequestBody.toJson o.requestBody ++
    [("responses", Json.ofDict Response.toJson o.responses)] ++
    Json.optionalMember "security" (fun rs => .arr (rs.map SecurityRequirement.toJson))
      o.security

/-- Nothing in the operation can repeat a key, but extensions of parameters that have
the key of the schema. -/
structure Tidy (o : Operation) : Prop where
  parameters : ∀ p ∈ o.parameters, p.Tidy
  requestBody : ∀ body ∈ o.requestBody, body.Tidy
  increasing : o.responses.Increasing
  responses : ∀ entry ∈ o.responses, entry.2.Tidy
  security : ∀ requirements ∈ o.security, ∀ requirement ∈ requirements,
    (Dict.keys requirement).Nodup
  extensions : Extends fieldNames o.extensions

/-- No extension in the operation has the key of a field beside it. -/
def AllUnshared (o : Operation) : Prop :=
  Unshared o.fields o.extensions ∧ (∀ p ∈ o.parameters, p.AllUnshared) ∧
    (∀ body ∈ o.requestBody, body.AllUnshared) ∧
    ∀ entry ∈ o.responses, entry.2.AllUnshared

/-- Extensions with the key of the schema stand only beside empty schemas. -/
def SchemasUnshared (o : Operation) : Prop :=
  ∀ p ∈ o.parameters, p.SchemaUnshared

instance (o : Operation) : Decidable o.SchemasUnshared :=
  inferInstanceAs (Decidable (∀ p ∈ o.parameters, p.SchemaUnshared))

theorem distinct_security {requirements : List SecurityRequirement}
    (h : ∀ requirement ∈ requirements, (Dict.keys requirement).Nodup) :
    (Json.arr (requirements.map SecurityRequirement.toJson)).Distinct := by
  refine .arr fun j hj => ?_
  obtain ⟨requirement, hrequirement, rfl⟩ := List.mem_map.mp hj
  exact Json.distinct_ofDict (h requirement hrequirement) fun _ _ => Json.distinct_texts _

namespace Tidy

variable {o : Operation}

theorem fields (h : o.Tidy) (hparameters : ∀ p ∈ o.parameters, p.toJson.Distinct) :
    Fields fieldNames o.fields := by
  rw [Operation.fields, fieldNames]
  simp only [List.append_assoc, List.cons_append, List.nil_append]
  exact .cons (.list fun _ _ => .str) <| .consMember .str <| .consMember .str <|
    .cons (.optional fun _ _ => .str) <| .consMember .bool <|
    .cons (.list hparameters) <|
    .cons (.optional fun body hbody => (h.requestBody body hbody).distinct_toJson) <|
    .consMember (Json.distinct_ofDict h.increasing.nodup_keys fun entry hentry =>
      (h.responses entry hentry).distinct_toJson) <|
    .optional fun rs hrs => distinct_security (h.security rs hrs)

theorem allUnshared_iff (h : o.Tidy) : o.AllUnshared ↔ o.SchemasUnshared := by
  constructor
  · rintro ⟨-, hparameters, -⟩ p hp
    exact (h.parameters p hp).allUnshared_iff.mp (hparameters p hp)
  · intro hschemas
    have hwritten : ∀ p ∈ o.parameters, p.toJson.Distinct := fun p hp =>
      (h.parameters p hp).distinct_toJson_iff.mpr (hschemas p hp)
    exact ⟨(h.fields hwritten).unshared h.extensions,
      fun p hp => (h.parameters p hp).allUnshared_iff.mpr (hschemas p hp),
      fun body hbody => (h.requestBody body hbody).allUnshared,
      fun entry hentry => (h.responses entry hentry).allUnshared⟩

theorem distinct_toJson_iff (h : o.Tidy) : o.toJson.Distinct ↔ o.SchemasUnshared := by
  constructor
  · intro hdistinct p hp
    have hmember : ∀ field ∈ Json.listMember "parameters" Parameter.toJson o.parameters,
        field.2.Distinct := fun field hfield =>
      (Json.distinct_obj_iff.mp hdistinct).2 field (by simp [hfield])
    exact (h.parameters p hp).distinct_toJson_iff.mp (Json.distinct_of_listMember hmember p hp)
  · intro hschemas
    exact (h.fields fun p hp =>
      (h.parameters p hp).distinct_toJson_iff.mpr (hschemas p hp)).distinct_obj_extends
        (by decide) h.extensions

end Tidy

end Operation

end ApiDoc
