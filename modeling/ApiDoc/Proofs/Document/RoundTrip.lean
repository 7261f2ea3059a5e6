import ApiDoc.Proofs.Assembly.Distinct
import ApiDoc.Proofs.Document.Fields
import ApiDoc.Proofs.Schema.RoundTrip

/-!
# Documents read back

A document that was written is read back as it was, if nothing in it is written like something
else: no extension has the name of a field beside it, and no value of a schema is `null`.
From the parts up to the whole, every field of a table reads what it writes.
-/

namespace ApiDoc

open Json (Extends Row)

/-- Keys in order, with values that are all like this. -/
structure Dict.IncreasingOf {α : Type} (p : α → Prop) (d : Dict α) : Prop where
  increasing : d.Increasing
  values : ∀ entry ∈ d, p entry.2

theorem Dict.IncreasingOf.dictOf?_ofDict {α : Type} {p : α → Prop} {d : Dict α}
    (h : d.IncreasingOf p) {read : Json → Option α} {write : α → Json}
    (hread : ∀ a, p a → read (write a) = some a) :
    Json.dictOf? read (Json.ofDict write d) = some d :=
  Json.dictOf?_ofDict h.increasing fun entry hentry => hread _ (h.values entry hentry)

/-! ## Operations -/

/-- The schema is exact, and no extension has the name of a field. -/
structure Parameter.Exact (p : Parameter) : Prop where
  schema : p.schema.Exact
  extensions : Extends fieldNames p.extensions

theorem Parameter.ofJson?_toJson {p : Parameter} (h : p.Exact) : ofJson? p.toJson = some p := by
  have hread : ∀ f ∈ table, f.IsRead p := by
    simp only [table, List.forall_mem_cons]
    exact ⟨Row.isRead_required rfl, Row.isRead_required (Location.ofName?_name p.location),
      Row.isRead_defaulted rfl, Row.isRead_optional fun _ _ => rfl,
      Row.isRead_skipping Schema.eq_of_isEmpty (Schema.ofJson?_toJson h.schema),
      List.forall_mem_nil _⟩
  rw [toJson_eq_written]
  exact ofJson?_eq_some_iff.mpr ⟨_, rfl, Json.holds_written (by decide) h.extensions hread⟩

/-- The schema is exact, and no extension has the name of a field. -/
structure MediaType.Exact (m : MediaType) : Prop where
  schema : m.schema.Exact
  extensions : Extends ["schema"] m.extensions

theorem MediaType.ofJson?_toJson {m : MediaType} (h : m.Exact) : ofJson? m.toJson = some m := by
  have hread : ∀ f ∈ table, f.IsRead m := by
    simp only [table, List.forall_mem_cons]
    exact ⟨Row.isRead_skipping Schema.eq_of_isEmpty (Schema.ofJson?_toJson h.schema),
      List.forall_mem_nil _⟩
  rw [toJson_eq_written]
  exact ofJson?_eq_some_iff.mpr ⟨_, rfl, Json.holds_written (by decide) h.extensions hread⟩

/-- The content is exact, and no extension has the name of a field. -/
structure RequestBody.Exact (b : RequestBody) : Prop where
  content : b.content.IncreasingOf MediaType.Exact
  extensions : Extends fieldNames b.extensions

theorem RequestBody.ofJson?_toJson {b : RequestBody} (h : b.Exact) :
    ofJson? b.toJson = some b := by
  have hread : ∀ f ∈ table, f.IsRead b := by
    simp only [table, List.forall_mem_cons]
    exact ⟨Row.isRead_optional fun _ _ => rfl, Row.isRead_optional fun _ _ => rfl,
      Row.isRead_defaulted (h.content.dictOf?_ofDict fun _ => MediaType.ofJson?_toJson),
      List.forall_mem_nil _⟩
  rw [toJson_eq_written]
  exact ofJson?_eq_some_iff.mpr ⟨_, rfl, Json.holds_written (by decide) h.extensions hread⟩

/-- The content is exact, and no extension has the name of a field. -/
structure Response.Exact (r : Response) : Prop where
  content : ∀ content ∈ r.content, content.IncreasingOf MediaType.Exact
  extensions : Extends fieldNames r.extensions

theorem Response.ofJson?_toJson {r : Response} (h : r.Exact) : ofJson? r.toJson = some r := by
  have hread : ∀ f ∈ table, f.IsRead r := by
    simp only [table, List.forall_mem_cons]
    refine ⟨Row.isRead_defaulted rfl, Row.isRead_optional fun content hcontent => ?_,
      List.forall_mem_nil _⟩
    exact Json.orNull?_eq_some (by simp [Json.ofDict])
      ((h.content content hcontent).dictOf?_ofDict fun _ => MediaType.ofJson?_toJson)
  rw [toJson_eq_written]
  exact ofJson?_eq_some_iff.mpr ⟨_, rfl, Json.holds_written (by decide) h.extensions hread⟩

theorem SecurityRequirement.ofJson?_toJson {r : SecurityRequirement} (h : Dict.Increasing r) :
    ofJson? r.toJson = some r :=
  Json.dictOf?_ofDict h fun _ _ => Json.listOf?_map fun _ _ => rfl

namespace Operation

/-- Every part is exact, and no extension has the name of a field. -/
structure Exact (o : Operation) : Prop where
  parameters : ∀ p ∈ o.parameters, p.Exact
  requestBody : ∀ body ∈ o.requestBody, body.Exact
  responses : o.responses.IncreasingOf Response.Exact
  security : ∀ requirements ∈ o.security, ∀ requirement ∈ requirements,
    Dict.Increasing requirement
  extensions : Extends fieldNames o.extensions

theorem ofJson?_toJson {o : Operation} (h : o.Exact) : ofJson? o.toJson = some o := by
  have hbody : ∀ body ∈ o.requestBody,
      Json.orNull? RequestBody.ofJson? body.toJson = some (some body) := fun body hbody =>
    Json.orNull?_eq_some (by simp [RequestBody.toJson])
      (RequestBody.ofJson?_toJson (h.requestBody body hbody))
  have hsecurity : ∀ requirements ∈ o.security,
      Json.orNull? (Json.listOf? SecurityRequirement.ofJson?)
        (.arr (requirements.map SecurityRequirement.toJson)) = some (some requirements) :=
    fun requirements hrequirements => Json.orNull?_eq_some (by simp) <|
      Json.listOf?_map fun requirement hrequirement => SecurityRequirement.ofJson?_toJson
        (h.security requirements hrequirements requirement hrequirement)
  have hread : ∀ f ∈ table, f.IsRead o := by
    simp only [table, List.forall_mem_cons]
    exact ⟨Row.isRead_list fun _ _ => rfl, Row.isRead_defaulted rfl,
      Row.isRead_defaulted rfl, Row.isRead_optional fun _ _ => rfl,
      Row.isRead_defaulted rfl,
      Row.isRead_list fun p hp => Parameter.ofJson?_toJson (h.parameters p hp),
      Row.isRead_optional hbody,
      Row.isRead_defaulted (h.responses.dictOf?_ofDict fun _ => Response.ofJson?_toJson),
      Row.isRead_optional hsecurity, List.forall_mem_nil _⟩
  rw [toJson_eq_written]
  exact ofJson?_eq_some_iff.mpr ⟨_, rfl, Json.holds_written (by decide) h.extensions hread⟩

end Operation

/-! ## The parts of a document beside its paths -/

theorem Info.ofJson?_toJson (i : Info) : ofJson? i.toJson = some i := by
  have hread : ∀ f ∈ table, f.IsRead i := by
    simp only [table, List.forall_mem_cons]
    exact ⟨Row.isRead_required rfl, Row.isRead_optional fun _ _ => rfl,
      Row.isRead_required rfl, List.forall_mem_nil _⟩
  rw [toJson_eq_written]
  exact ofJson?_obj (Json.forall_found_written (by decide) hread)

theorem Server.ofJson?_toJson (s : Server) : ofJson? s.toJson = some s := by
  have hread : ∀ f ∈ table, f.IsRead s := by
    simp only [table, List.forall_mem_cons]
    exact ⟨Row.isRead_required rfl, Row.isRead_optional fun _ _ => rfl,
      List.forall_mem_nil _⟩
  rw [toJson_eq_written]
  exact ofJson?_obj (Json.forall_found_written (by decide) hread)

theorem TagInfo.ofJson?_toJson (t : TagInfo) : ofJson? t.toJson = some t := by
  have hread : ∀ f ∈ table, f.IsRead t := by
    simp only [table, List.forall_mem_cons]
    exact ⟨Row.isRead_required rfl, Row.isRead_optional fun _ _ => rfl,
      List.forall_mem_nil _⟩
  rw [toJson_eq_written]
  exact ofJson?_obj (Json.forall_found_written (by decide) hread)

theorem OAuthFlow.ofJson?_toJson {flow : OAuthFlow} (h : flow.scopes.Increasing) :
    ofJson? flow.toJson = some flow := by
  have hread : ∀ f ∈ table, f.IsRead flow := by
    simp only [table, List.forall_mem_cons]
    exact ⟨Row.isRead_optional fun _ _ => rfl, Row.isRead_optional fun _ _ => rfl,
      Row.isRead_required (Json.dictOf?_ofDict h fun _ _ => rfl), List.forall_mem_nil _⟩
  rw [toJson_eq_written]
  exact ofJson?_obj (Json.forall_found_written (by decide) hread)

/-- The flows and their scopes are in order. -/
def SecurityScheme.Ordered (s : SecurityScheme) : Prop :=
  ∀ flows ∈ s.flows, flows.IncreasingOf fun flow => flow.scopes.Increasing

theorem SecurityScheme.ofJson?_toJson {s : SecurityScheme} (h : s.Ordered) :
    ofJson? s.toJson = some s := by
  have hread : ∀ f ∈ table, f.IsRead s := by
    simp only [table, List.forall_mem_cons]
    refine ⟨Row.isRead_required rfl, Row.isRead_optional fun _ _ => rfl,
      Row.isRead_optional fun _ _ => rfl, Row.isRead_optional fun flows hflows => ?_,
      List.forall_mem_nil _⟩
    exact Json.orNull?_eq_some (by simp [Json.ofDict])
      ((h flows hflows).dictOf?_ofDict fun _ => OAuthFlow.ofJson?_toJson)
  rw [toJson_eq_written]
  exact ofJson?_obj (Json.forall_found_written (by decide) hread)

/-- The schemas are exact, and the schemes are in order. -/
structure Components.Exact (c : Components) : Prop where
  schemas : c.schemas.IncreasingOf Schema.Exact
  securitySchemes : c.securitySchemes.IncreasingOf SecurityScheme.Ordered

theorem Components.ofJson?_toJson {c : Components} (h : c.Exact) :
    ofJson? c.toJson = some c := by
  have hread : ∀ f ∈ table, f.IsRead c := by
    simp only [table, List.forall_mem_cons]
    exact ⟨Row.isRead_defaulted (h.schemas.dictOf?_ofDict fun _ => Schema.ofJson?_toJson),
      Row.isRead_skipping List.isEmpty_iff.mp
        (h.securitySchemes.dictOf?_ofDict fun _ => SecurityScheme.ofJson?_toJson),
      List.forall_mem_nil _⟩
  rw [toJson_eq_written]
  exact ofJson?_obj (Json.forall_found_written (by decide) hread)

/-! ## Documents -/

theorem Parameter.Exact.tidy {p : Parameter} (h : p.Exact) : p.Tidy :=
  ⟨h.schema.tidy, h.extensions.mono (by decide)⟩

theorem Parameter.Exact.schemaUnshared {p : Parameter} (h : p.Exact) : p.SchemaUnshared := by
  intro hkey
  obtain ⟨extension, hextension, heq⟩ := List.mem_map.mp hkey
  exact absurd (heq ▸ by decide) (h.extensions.fresh extension hextension)

theorem MediaType.Exact.tidy {m : MediaType} (h : m.Exact) : m.Tidy :=
  ⟨h.schema.tidy, h.extensions⟩

theorem tidyContent_of_exact {content : Dict MediaType}
    (h : content.IncreasingOf MediaType.Exact) : TidyContent content :=
  ⟨h.increasing, fun entry hentry => (h.values entry hentry).tidy⟩

theorem Operation.Exact.tidy {o : Operation} (h : o.Exact) : o.Tidy where
  parameters p hp := (h.parameters p hp).tidy
  requestBody body hbody :=
    have hexact := h.requestBody body hbody
    ⟨tidyContent_of_exact hexact.content, hexact.extensions⟩
  increasing := h.responses.increasing
  responses entry hentry :=
    have hexact := h.responses.values entry hentry
    ⟨fun content hcontent => tidyContent_of_exact (hexact.content content hcontent),
      hexact.extensions⟩
  security requirements hrequirements requirement hrequirement :=
    (h.security requirements hrequirements requirement hrequirement).nodup_keys
  extensions := h.extensions

theorem Components.Exact.tidy {c : Components} (h : c.Exact) : c.Tidy where
  increasing := h.schemas.increasing
  schemas entry hentry := (h.schemas.values entry hentry).tidy
  securitySchemes := by
    refine Json.distinct_ofDict h.securitySchemes.increasing.nodup_keys fun entry hentry => ?_
    refine SecurityScheme.distinct_toJson fun flows hflows => ?_
    have hordered := h.securitySchemes.values entry hentry flows hflows
    exact ⟨hordered.increasing, hordered.values⟩

namespace Document

/-- Nothing in the document is written like something else: no extension has the name of a
field beside it, and no value of a schema is `null`.  Beside this, what dictionaries, values
and lengths are: keys grow, objects repeat no key, and lengths fit a word. -/
structure Exact (d : Document) : Prop where
  paths : d.paths.IncreasingOf fun item => item.IncreasingOf Operation.Exact
  components : d.components.Exact

theorem Exact.distinct_toJson {d : Document} (h : d.Exact) : d.toJson.Distinct := by
  have hoperations : d.paths.ForAll fun _ o => o.Exact := fun entry hentry =>
    (h.paths.values entry hentry).values
  have htidy : d.Tidy :=
    { ordered := ⟨h.paths.increasing, fun entry hentry => (h.paths.values entry hentry).increasing⟩
      paths := fun entry hentry operation hoperation =>
        (hoperations entry hentry operation hoperation).tidy
      components := h.components.tidy }
  refine htidy.distinct_toJson fun entry hentry operation hoperation p hp => ?_
  exact ((hoperations entry hentry operation hoperation).parameters p hp).schemaUnshared

/-- A document that was written is read back as it was. -/
theorem ofJson?_merged_toJson {d : Document} (h : d.Exact) : ofJson? d.toJson.merged = some d := by
  have hpaths : Paths.ofJson? d.paths.toJson = some d.paths :=
    h.paths.dictOf?_ofDict fun _ hitem =>
      hitem.dictOf?_ofDict fun _ => Operation.ofJson?_toJson
  have hread : ∀ f ∈ table, f.IsRead d := by
    simp only [table, List.forall_mem_cons]
    exact ⟨Row.isRead_required rfl, Row.isRead_required (Info.ofJson?_toJson d.info),
      Row.isRead_list fun s _ => Server.ofJson?_toJson s,
      Row.isRead_list fun t _ => TagInfo.ofJson?_toJson t, Row.isRead_required hpaths,
      Row.isRead_defaulted (Components.ofJson?_toJson h.components), List.forall_mem_nil _⟩
  rw [Json.merged_of_distinct d.toJson h.distinct_toJson, toJson_eq_written]
  exact ofJson?_obj (Json.forall_found_written (by decide) hread)

/-- A parameter with an extension and a list of numbers, and a shared schema with a property. -/
theorem ofJson?_merged_toJson_pets :
    let number : Schema := { type := some "integer", minimum := some (.ofNat 1) }
    let page : Parameter :=
      { name := "page", location := .query, schema := .arrayOf number
        extensions := [("x-order", .ofNat 1)] }
    let pet : Schema := { Schema.object with properties := some [("age", number)] }
    let d : Document :=
      { openapi := "3.0.0", info := { title := "Pets", version := "1" }
        paths := [("/pets", [("get", { parameters := [page] })])]
        components := { schemas := [("Pet", pet)] } }
    d.Exact ∧ ofJson? d.toJson.merged = some d := by
  intro number page pet d
  have hnumber : number.Exact :=
    .intro
      { tidy :=
          { values := List.forall_mem_singleton.mpr .num
            properties := by simp [number]
            extensions := Json.extends_nil _ }
        notNull := by simp [number, Json.ofNat]
        words := by simp [number] }
      (by simp [number]) (by simp [number])
  have hpage : page.Exact :=
    { schema := .intro
        { tidy :=
            { values := by simp [page, Schema.arrayOf, Schema.values]
              properties := by simp [page, Schema.arrayOf]
              extensions := Json.extends_nil _ }
          notNull := by simp [page, Schema.arrayOf]
          words := by simp [page, Schema.arrayOf] }
        (by simp [page, Schema.arrayOf])
        (by rintro _ ⟨⟩; exact List.forall_mem_singleton.mpr hnumber)
      extensions := ⟨by decide, List.forall_mem_singleton.mpr .num, by decide⟩ }
  have hpet : pet.Exact :=
    .intro
      { tidy :=
          { values := by simp [pet, Schema.object, Schema.values]
            properties := by rintro _ ⟨⟩; exact List.pairwise_singleton _ _
            extensions := Json.extends_nil _ }
        notNull := by simp [pet, Schema.object]
        words := by simp [pet, Schema.object] }
      (by rintro _ ⟨⟩; exact List.forall_mem_singleton.mpr hnumber)
      (by simp [pet, Schema.object])
  have hoperation : Operation.Exact { parameters := [page] } :=
    { parameters := List.forall_mem_singleton.mpr hpage
      requestBody := by simp
      responses := ⟨List.Pairwise.nil, List.forall_mem_nil _⟩
      security := by simp
      extensions := Json.extends_nil _ }
  have hitem : Dict.IncreasingOf Operation.Exact [("get", { parameters := [page] })] :=
    ⟨List.pairwise_singleton _ _, List.forall_mem_singleton.mpr hoperation⟩
  have hd : d.Exact :=
    { paths := ⟨List.pairwise_singleton _ _, List.forall_mem_singleton.mpr hitem⟩
      components :=
        { schemas := ⟨List.pairwise_singleton _ _, List.forall_mem_singleton.mpr hpet⟩
          securitySchemes := ⟨List.Pairwise.nil, List.forall_mem_nil _⟩ } }
  exact ⟨hd, ofJson?_merged_toJson hd⟩

end Document

end ApiDoc
