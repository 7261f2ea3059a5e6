import ApiDoc.Proofs.Assembly.Draft
import ApiDoc.Proofs.Assembly.Tidy

/-!
# Documents without repeated keys

Every object of a document has each key once, if no parameter has an extension with the
key of a schema that is written.  Nothing but a change of path parameters in a comment
gives a parameter such an extension.
-/

namespace ApiDoc

open Json (Fields)

/-! ## The parts of a document beside its paths -/

theorem Info.distinct_toJson (i : Info) : i.toJson.Distinct := by
  have h : Fields ["title", "description", "version"]
      (("title", .str i.title) :: (Json.optionalMember "description" .str i.description ++
        [("version", .str i.version)])) :=
    .consMember .str <| .cons (.optional fun _ _ => .str) <| .member .str
  exact h.distinct_obj (by decide)

theorem Server.distinct_toJson (s : Server) : s.toJson.Distinct := by
  have h : Fields ["url", "description"]
      (("url", .str s.url) :: Json.optionalMember "description" .str s.description) :=
    .consMember .str <| .optional fun _ _ => .str
  exact h.distinct_obj (by decide)

theorem TagInfo.distinct_toJson (t : TagInfo) : t.toJson.Distinct := by
  have h : Fields ["name", "description"]
      (("name", .str t.name) :: Json.optionalMember "description" .str t.description) :=
    .consMember .str <| .optional fun _ _ => .str
  exact h.distinct_obj (by decide)

theorem OAuthFlow.distinct_toJson {f : OAuthFlow} (hscopes : f.scopes.Increasing) :
    f.toJson.Distinct := by
  have h : Fields ["authorizationUrl", "tokenUrl", "scopes"]
      (Json.optionalMember "authorizationUrl" .str f.authorizationUrl ++
        (Json.optionalMember "tokenUrl" .str f.tokenUrl ++
          [("scopes", Json.ofDict .str f.scopes)])) :=
    .cons (.optional fun _ _ => .str) <| .cons (.optional fun _ _ => .str) <|
      .member (Json.distinct_ofDict hscopes.nodup_keys fun _ _ => .str)
  rw [toJson, List.append_assoc]
  exact h.distinct_obj (by decide)

theorem SecurityScheme.distinct_toJson {s : SecurityScheme}
    (hflows : ∀ flows ∈ s.flows, Dict.Increasing flows ∧
      ∀ entry ∈ flows, entry.2.scopes.Increasing) : s.toJson.Distinct := by
  have h : Fields ["type", "scheme", "bearerFormat", "flows"]
      (("type", .str s.type) :: (Json.optionalMember "scheme" .str s.scheme ++
        (Json.optionalMember "bearerFormat" .str s.bearerFormat ++
          Json.optionalMember "flows" (Json.ofDict OAuthFlow.toJson) s.flows))) :=
    .consMember .str <| .cons (.optional fun _ _ => .str) <|
      .cons (.optional fun _ _ => .str) <| .optional fun flows hsome =>
        Json.distinct_ofDict (hflows flows hsome).1.nodup_keys fun entry hentry =>
          OAuthFlow.distinct_toJson ((hflows flows hsome).2 entry hentry)
  rw [toJson, List.append_assoc, List.append_assoc]
  exact h.distinct_obj (by decide)

namespace Security

theorem increasing_schemes {s : Settings} (hs : s.Tidy) : (schemes s).Increasing := by
  refine List.Pairwise.filterMap _ ?_ hs.flows
  intro x y hlt first hfirst next hnext
  obtain ⟨_, -, rfl⟩ := Option.map_eq_some_iff.mp hfirst
  obtain ⟨_, -, rfl⟩ := Option.map_eq_some_iff.mp hnext
  exact hlt

theorem distinct_of_scheme? {s : Settings} (hs : s.Tidy) {definition flow : String}
    {scheme : SecurityScheme} (h : scheme? s definition flow = some scheme) :
    scheme.toJson.Distinct := by
  refine SecurityScheme.distinct_toJson ?_
  unfold scheme? at h
  split at h
  · obtain rfl := Option.some.inj h
    rintro _ ⟨⟩
    exact ⟨List.pairwise_singleton _ _, List.forall_mem_singleton.mpr hs.scopes⟩
  · obtain rfl := Option.some.inj h
    simp
  · cases h

theorem distinct_schemes {s : Settings} (hs : s.Tidy) :
    (Json.ofDict SecurityScheme.toJson (schemes s)).Distinct := by
  refine Json.distinct_ofDict (increasing_schemes hs).nodup_keys fun entry hentry => ?_
  obtain ⟨flow, -, hmade⟩ := List.mem_filterMap.mp hentry
  obtain ⟨scheme, hscheme, rfl⟩ := Option.map_eq_some_iff.mp hmade
  exact distinct_of_scheme? hs hscheme

end Security

/-- Shared schemas in order, all of them tidy, and schemes that repeat no key. -/
structure Components.Tidy (c : Components) : Prop where
  increasing : c.schemas.Increasing
  schemas : ∀ entry ∈ c.schemas, entry.2.Tidy
  securitySchemes : (Json.ofDict SecurityScheme.toJson c.securitySchemes).Distinct

theorem Components.Tidy.distinct_toJson {c : Components} (h : c.Tidy) : c.toJson.Distinct := by
  have hschemes : Fields ["securitySchemes"] (if c.securitySchemes.isEmpty then []
      else [("securitySchemes", Json.ofDict SecurityScheme.toJson c.securitySchemes)]) := by
    split
    · exact .absent
    · exact .member h.securitySchemes
  have hfields : Fields ["schemas", "securitySchemes"]
      (("schemas", Json.ofDict Schema.toJson c.schemas) ::
        if c.securitySchemes.isEmpty then []
        else [("securitySchemes", Json.ofDict SecurityScheme.toJson c.securitySchemes)]) :=
    .consMember (Json.distinct_ofDict h.increasing.nodup_keys fun entry hentry =>
      (h.schemas entry hentry).distinct_toJson) hschemes
  exact hfields.distinct_obj (by decide)

/-! ## Documents -/

namespace Document

/-- No extension in the document has the key of a field beside it. -/
def AllUnshared (d : Document) : Prop :=
  (d.paths.ForAll fun _ o => o.AllUnshared) ∧
    ∀ entry ∈ d.components.schemas, entry.2.AllUnshared

/-- Extensions of parameters with the key of the schema stand only beside empty
schemas. -/
def SchemasUnshared (d : Document) : Prop :=
  d.paths.ForAll fun _ o => o.SchemasUnshared

instance (d : Document) : Decidable d.SchemasUnshared :=
  inferInstanceAs (Decidable (d.paths.ForAll _))

/-- Nothing in the document can repeat a key, but extensions of parameters that have the
key of the schema. -/
structure Tidy (d : Document) : Prop where
  ordered : d.paths.Ordered
  paths : d.paths.ForAll fun _ o => o.Tidy
  components : d.components.Tidy

theorem Tidy.allUnshared_iff {d : Document} (h : d.Tidy) :
    d.AllUnshared ↔ d.SchemasUnshared := by
  constructor
  · rintro ⟨hpaths, -⟩ entry hentry operation hoperation
    exact (h.paths entry hentry operation hoperation).allUnshared_iff.mp
      (hpaths entry hentry operation hoperation)
  · intro hschemas
    refine ⟨fun entry hentry operation hoperation => ?_, fun entry hentry =>
      (h.components.schemas entry hentry).allUnshared⟩
    exact (h.paths entry hentry operation hoperation).allUnshared_iff.mpr
      (hschemas entry hentry operation hoperation)

theorem Tidy.distinct_toJson {d : Document} (h : d.Tidy) (hschemas : d.SchemasUnshared) :
    d.toJson.Distinct := by
  have hpaths : d.paths.toJson.Distinct := by
    refine Json.distinct_ofDict h.ordered.increasing.nodup_keys fun entry hentry => ?_
    refine Json.distinct_ofDict (h.ordered.items entry hentry).nodup_keys ?_
    exact fun operation hoperation =>
      (h.paths entry hentry operation hoperation).distinct_toJson_iff.mpr
        (hschemas entry hentry operation hoperation)
  have hfields : Fields fieldNames
      (("openapi", .str d.openapi) :: ("info", d.info.toJson) ::
        (Json.listMember "servers" Server.toJson d.servers ++
          (Json.listMember "tags" TagInfo.toJson d.tags ++
            [("paths", d.paths.toJson), ("components", d.components.toJson)]))) :=
    .consMember .str <| .consMember d.info.distinct_toJson <|
      .cons (.list fun s _ => Server.distinct_toJson s) <|
      .cons (.list fun t _ => TagInfo.distinct_toJson t) <|
      .consMember hpaths <| .member h.components.distinct_toJson
  rw [toJson, List.append_assoc, List.append_assoc]
  exact hfields.distinct_obj (by decide)

theorem Tidy.distinct_toJson_iff {d : Document} (h : d.Tidy) :
    d.toJson.Distinct ↔ d.SchemasUnshared := by
  refine ⟨fun hdistinct entry hentry operation hoperation => ?_, h.distinct_toJson⟩
  have hpaths : d.paths.toJson.Distinct :=
    (Json.distinct_obj_iff.mp hdistinct).2 ("paths", d.paths.toJson) (by simp)
  have hitem : (PathItem.toJson entry.2).Distinct := Json.distinct_of_ofDict hpaths entry hentry
  exact (h.paths entry hentry operation hoperation).distinct_toJson_iff.mp
    (Json.distinct_of_ofDict hitem operation hoperation)

end Document

namespace Application

variable {app : Application} {a : Assembly} {filter : Option String} {document : Document}
  {warnings : List Warning}

/-- The settings register builders of pages, which are tidy. -/
theorem tidy_assembly {settings : Settings} {now : Moment} (hsettings : settings.Tidy)
    (hentities : ∀ e ∈ app.entities, e.Tidy) (h : app.assembly settings now = .ok a) :
    a.Tidy := by
  obtain ⟨builders, hbuilders, h⟩ := bind_eq_ok_iff.mp h
  obtain rfl := Except.ok.inj h
  exact ⟨hsettings, (Builders.makePages_ofNames hbuilders).tidy, Entities.tidy_discover hentities⟩

theorem tidy_document (ha : a.Tidy) (h : app.documentOf a filter = .ok (document, warnings)) :
    document.Tidy := by
  refine ⟨?_, ?_, ?_⟩
  · obtain ⟨schemas, draft, -, hdraft, rfl⟩ := Assembly.documentUnder_eq_ok h
    exact PathChanges.ordered_apply (Assembly.ordered_draft hdraft)
  · refine Assembly.forAll_paths_documentUnder ?_ ?_ h
    · rintro key d ⟨route, -, -, -, method, -, hd⟩
      exact (Assembly.clean_operation ha hd).operation.tidy
    · rintro key d overrides ⟨route, -, -, -, method, -, hd⟩ hoverrides o ho
      exact PathChanges.tidy_changeOperation
        ((Assembly.clean_operation ha hd).overrides overrides hoverrides) ho
  · obtain ⟨schemas, draft, hschemas, -, rfl⟩ := Assembly.documentUnder_eq_ok h
    obtain ⟨hincreasing, htidy⟩ := Entities.tidy_schemas ha.builders ha.entities hschemas
    refine ⟨hincreasing, htidy, ?_⟩
    dsimp only
    split
    · exact Security.distinct_schemes ha.settings
    · exact .obj List.nodup_nil (by simp)

/-- A comment of a handler gives a parameter of the path of a route a key with the name of
its schema. -/
def ChangesSchema (app : Application) (a : Assembly) : Prop :=
  ∃ route ∈ app.routes, ∃ d,
    Documented.ofHandler a route.uri (route.action.bind app.resolve) = .ok d ∧
      ∃ overrides ∈ d.overrides, ∃ override ∈ overrides, "schema" ∈ Dict.keys override

theorem changesSchema_of_mem (ha : a.Tidy)
    (h : app.documentOf a filter = .ok (document, warnings)) :
    document.paths.ForAll fun _ o =>
      ∀ p ∈ o.parameters, "schema" ∈ Dict.keys p.extensions → app.ChangesSchema a := by
  refine Assembly.forAll_paths_documentUnder ?_ ?_ h
  · rintro key d ⟨route, -, -, -, method, -, hd⟩ p hp hschema
    have hclean := (Assembly.clean_operation ha hd).operation.parameters p hp
    exact absurd hschema hclean.noSchema
  · rintro key d overrides ⟨route, hroute, -, -, method, -, hd⟩ hoverrides o ho
    obtain ⟨documented, _, _, hofHandler, _, _, rfl⟩ := Assembly.operation_eq_ok hd
    refine PathOverride.forall_mem_applyAll
      (q := fun p => "schema" ∈ Dict.keys p.extensions → app.ChangesSchema a) ?_ ho
    intro override hoverride p hp hschema
    rcases PathOverride.schema_mem_apply hschema with hold | hnew
    · exact hp hold
    · exact ⟨route, hroute, documented, hofHandler, overrides, hoverrides, override, hoverride,
        hnew⟩

/-- A document shares no key, and repeats none, exactly if no parameter has an extension
beside its written schema under the same key.  Such an extension comes from the comment
of a handler. -/
theorem distinct_document_iff (ha : a.Tidy)
    (h : app.documentOf a filter = .ok (document, warnings)) :
    (document.AllUnshared ↔ document.SchemasUnshared) ∧
      (document.toJson.Distinct ↔ document.SchemasUnshared) ∧
      (¬ document.SchemasUnshared → app.ChangesSchema a) := by
  have htidy := tidy_document ha h
  refine ⟨htidy.allUnshared_iff, htidy.distinct_toJson_iff, fun hshared => ?_⟩
  by_contra hnone
  refine hshared fun entry hentry operation hoperation p hp hschema => ?_
  exact absurd (changesSchema_of_mem ha h entry hentry operation hoperation p hp hschema) hnone

/-- A header with an example, a default of a column, a page, and a change that gives a
parameter of the path a new name and an extension. -/
theorem distinct_document_pet :
    let a : Assembly :=
      { settings :=
          { appended := { headers := [("X-Trace", { sample := some (.arr [.str "a"]) })] } }
        builders := Builders.register {} "P" (PageKind.simple.schema "")
        entities :=
          { models :=
              [{ name := "Pet"
                 columns := some [{ name := "age", type := "int", default := some .null }] }] }
        now := ⟨"", ""⟩ }
    let app : Application :=
      { routes := [{ uri := "/api/pets/\x7bid\x7d", methods := [.get], action := some "pet" }]
        resolve := fun _ => some
          { comment := some <|
              "@Request(\x7b\"pathParams\": \x7b\"name\": \"pet\", \"example\": 1\x7d\x7d)\n" ++
                "@Response(code: 200, ref: P(Pet))" } }
    a.Tidy ∧ ∃ made, app.documentOf a none = .ok made ∧
      made.1.AllUnshared ∧ made.1.toJson.Distinct := by
  intro a app
  have ha : a.Tidy := by
    have hpages : a.builders.MakePages := Builders.makePages_empty.register "P" .simple ""
    refine ⟨⟨by decide +kernel, by decide +kernel, ?_⟩, hpages.tidy, ⟨?_, by simp [a]⟩⟩
    · intro header hheader j hj
      obtain rfl := List.mem_singleton.mp hheader
      obtain rfl := Option.some.inj hj
      exact .arr (List.forall_mem_singleton.mpr .str)
    · intro m hm columns hcolumns c hc j hj
      obtain rfl := List.mem_singleton.mp hm
      obtain rfl := Option.some.inj hcolumns
      obtain rfl := List.mem_singleton.mp hc
      obtain rfl := Option.some.inj hj
      exact .null
  obtain ⟨made, hmade, hschemas⟩ : ∃ made, app.documentOf a none = .ok made ∧
      made.1.SchemasUnshared := by
    decide +kernel
  obtain ⟨hunshared, hdistinct, -⟩ := distinct_document_iff ha hmade
  exact ⟨ha, made, hmade, hunshared.mpr hschemas, hdistinct.mpr hschemas⟩

/-- A change with the key of the schema leaves the parameter with two schemas. -/
theorem not_distinct_document_schema :
    let a : Assembly := { settings := {}, builders := {}, entities := {}, now := ⟨"", ""⟩ }
    let app : Application :=
      { routes := [{ uri := "/api/pets/\x7bid\x7d", methods := [.get], action := some "pet" }]
        resolve := fun _ => some
          { comment := some <|
              "@Request(\x7b\"pathParams\": " ++
                "\x7b\"schema\": \x7b\"type\": \"integer\"\x7d\x7d\x7d)" } }
    a.Tidy ∧ ∃ made, app.documentOf a none = .ok made ∧
      ¬ made.1.AllUnshared ∧ ¬ made.1.toJson.Distinct := by
  intro a app
  have ha : a.Tidy := by
    refine ⟨⟨by decide +kernel, by decide +kernel, ?_⟩, Builders.tidy_empty, ⟨?_, ?_⟩⟩
    · exact fun _ hnone => nomatch hnone
    · exact fun _ hnone => nomatch hnone
    · exact fun _ hnone => nomatch hnone
  obtain ⟨made, hmade, hschemas⟩ : ∃ made, app.documentOf a none = .ok made ∧
      ¬ made.1.SchemasUnshared := by
    decide +kernel
  have htidy := tidy_document ha hmade
  exact ⟨ha, made, hmade, fun hunshared => hschemas (htidy.allUnshared_iff.mp hunshared),
    fun hdistinct => hschemas (htidy.distinct_toJson_iff.mp hdistinct)⟩

end Application

end ApiDoc
