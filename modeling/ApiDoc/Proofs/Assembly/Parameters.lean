import ApiDoc.Proofs.Assembly.Operation
import ApiDoc.Proofs.Request.BracketName

/-!
# Parameters of an operation

A parameter is known by its name and its place.  The parameters of the path, of the
rules and of the comment are kept apart: a documented parameter is left out if it was
generated.  The configured headers are added as they are, so a header that is documented
and configured stands in the operation twice, and nothing else does.
-/

namespace ApiDoc

namespace Parameter

/-- What a parameter is known by. -/
def key (p : Parameter) : String × Location :=
  (p.name, p.location)

/-- No two parameters have the same name and place. -/
def Distinct (ps : List Parameter) : Prop :=
  (ps.map key).Nodup

instance (ps : List Parameter) : Decidable (Distinct ps) :=
  inferInstanceAs (Decidable (List.Nodup _))

/-- Parameters of one place are told apart by their names. -/
theorem distinct_iff_names {ps : List Parameter} {location : Location}
    (h : ∀ p ∈ ps, p.location = location) : Distinct ps ↔ (ps.map (·.name)).Nodup := by
  have hkeys : ps.map key = (ps.map (·.name)).map fun name => (name, location) := by
    rw [List.map_map]
    refine List.map_congr_left fun p hp => ?_
    exact Prod.ext rfl (h p hp)
  rw [Distinct, hkeys]
  exact List.nodup_map_iff fun name other hsame => (Prod.mk.inj hsame).1

theorem distinct_append_iff {ps qs : List Parameter} :
    Distinct (ps ++ qs) ↔
      Distinct ps ∧ Distinct qs ∧ ∀ q ∈ qs, q.key ∉ ps.map key := by
  rw [Distinct, List.map_append, List.nodup_append']
  refine and_congr_right fun _ => and_congr_right fun _ => ?_
  constructor
  · intro hdisjoint q hq hmem
    exact hdisjoint hmem (List.mem_map_of_mem hq)
  · intro hnone k hp hq
    obtain ⟨q, hmem, rfl⟩ := List.mem_map.mp hq
    exact hnone q hmem hp

end Parameter

namespace Assembly

open Parameter (Distinct key)

theorem any_sameParameter_iff {ps : List Parameter} {p : Parameter} :
    ps.any (sameParameter · p) = true ↔ p.key ∈ ps.map key := by
  rw [List.any_eq_true, List.mem_map]
  refine exists_congr fun q => and_congr_right fun _ => ?_
  simp [sameParameter, key]

section Documented

variable {generated documented : List Parameter}

/-- A documented parameter is there, or one with its name and place is. -/
theorem mem_keys_addDocumented {k : String × Location} :
    k ∈ (addDocumented generated documented).map key ↔
      k ∈ generated.map key ∨ k ∈ documented.map key := by
  induction documented generalizing generated with
  | nil => simp [addDocumented]
  | cons p ps ih =>
      rw [addDocumented, List.foldl_cons]
      by_cases hthere : generated.any (sameParameter · p) = true
      · have hmem : p.key ∈ generated.map key := any_sameParameter_iff.mp hthere
        rw [if_pos hthere, ← addDocumented, ih, List.map_cons, List.mem_cons]
        constructor
        · exact Or.imp_right .inr
        · rintro (hgenerated | rfl | hdocumented)
          · exact .inl hgenerated
          · exact .inl hmem
          · exact .inr hdocumented
      · rw [if_neg hthere, ← addDocumented, ih, List.map_cons, List.map_append, List.mem_append,
          List.mem_cons, List.map_singleton, List.mem_singleton, or_assoc]

theorem distinct_addDocumented (h : Distinct generated) :
    Distinct (addDocumented generated documented) := by
  induction documented generalizing generated with
  | nil => exact h
  | cons p ps ih =>
      rw [addDocumented, List.foldl_cons]
      by_cases hthere : generated.any (sameParameter · p) = true
      · rw [if_pos hthere]
        exact ih h
      · rw [if_neg hthere]
        apply ih
        refine Parameter.distinct_append_iff.mpr ⟨h, List.nodup_singleton _, ?_⟩
        intro q hq hmem
        obtain rfl := List.mem_singleton.mp hq
        exact hthere (any_sameParameter_iff.mpr hmem)

theorem mem_keys_requestParameters {k : String × Location} :
    k ∈ (requestParameters generated documented).map key ↔
      k ∈ generated.map key ∨ k ∈ documented.map key := by
  rw [requestParameters]
  split
  · next hempty => simp [List.isEmpty_iff.mp hempty]
  · exact mem_keys_addDocumented

theorem distinct_requestParameters (hgenerated : Distinct generated)
    (hdocumented : Distinct documented) :
    Distinct (requestParameters generated documented) := by
  rw [requestParameters]
  split
  · exact hdocumented
  · exact distinct_addDocumented hgenerated

end Documented

theorem location_of_mem_templateParameters {uri : String} :
    ∀ p ∈ Template.parameters uri, p.location = .path := by
  intro p hp
  obtain ⟨name, -, rfl⟩ := List.mem_map.mp hp
  rfl

theorem distinct_templateParameters {uri : String} (h : (Template.names uri).Nodup) :
    Distinct (Template.parameters uri) := by
  refine (Parameter.distinct_iff_names location_of_mem_templateParameters).mpr ?_
  rw [Template.parameters, List.map_map]
  exact (List.map_id (Template.names uri)).symm ▸ h

variable {a : Assembly} {route : Route} {method : Method} {relative : String}
  {handler : Option Handler}

/-- The rules of a handler stand under different plain names. -/
structure PlainRules (handler : Option Handler) : Prop where
  nodup : ∀ known ∈ handler, (Dict.keys known.rules).Nodup
  plain : ∀ known ∈ handler, ∀ field ∈ Dict.keys known.rules, Query.IsPlain field

theorem distinct_query {query : List Parameter} (hrules : PlainRules handler)
    (h : a.rulesPart method handler = .ok (.parameters query)) : Distinct query := by
  rcases rulesPart_eq_parameters h with rfl | ⟨known, hknown, hquery⟩
  · exact List.nodup_nil
  · refine (Parameter.distinct_iff_names (Query.location_of_mem_parameters hquery)).mpr ?_
    exact Query.nodup_names_parameters (hrules.nodup known hknown) (hrules.plain known hknown)
      hquery

/-- The parameters of the path and of the rules are apart. -/
theorem distinct_generated {query : List Parameter}
    (hpath : Distinct (Template.parameters route.uri)) (hquery : Distinct query)
    (hlocation : ∀ p ∈ query, p.location = .query) :
    Distinct (Template.parameters route.uri ++ query) := by
  refine Parameter.distinct_append_iff.mpr ⟨hpath, hquery, ?_⟩
  intro q hq hmem
  obtain ⟨p, hp, hsame⟩ := List.mem_map.mp hmem
  have hplace : p.location = q.location := congrArg Prod.snd hsame
  rw [location_of_mem_templateParameters p hp, hlocation q hq] at hplace
  cases hplace

theorem location_of_mem_headers : ∀ p ∈ a.headers, p.location = .header := by
  intro p hp
  obtain ⟨entry, -, rfl⟩ := List.mem_map.mp hp
  rfl

theorem map_name_headers (a : Assembly) :
    a.headers.map (·.name) = Dict.keys a.settings.appended.headers := by
  rw [headers, List.map_map]
  rfl

theorem key_mem_headers_iff {k : String × Location} :
    k ∈ a.headers.map key ↔ k.2 = .header ∧ k.1 ∈ Dict.keys a.settings.appended.headers := by
  rw [← map_name_headers, List.mem_map, List.mem_map]
  constructor
  · rintro ⟨p, hp, rfl⟩
    exact ⟨location_of_mem_headers p hp, p, hp, rfl⟩
  · rintro ⟨hplace, p, hp, hname⟩
    exact ⟨p, hp, Prod.ext hname ((location_of_mem_headers p hp).trans hplace.symm)⟩

/-- The configured headers are told apart from parameters that are no such headers. -/
theorem distinct_append_headers_iff {ps : List Parameter}
    (hheaders : (Dict.keys a.settings.appended.headers).Nodup) :
    Distinct (ps ++ a.headers) ↔
      Distinct ps ∧ ∀ k ∈ ps.map key, k.2 = .header →
        k.1 ∉ Dict.keys a.settings.appended.headers := by
  have hconfigured : Distinct a.headers :=
    (Parameter.distinct_iff_names location_of_mem_headers).mpr (map_name_headers a ▸ hheaders)
  rw [Parameter.distinct_append_iff]
  refine and_congr_right fun _ => ?_
  constructor
  · rintro ⟨-, hapart⟩ k hk hplace hname
    obtain ⟨header, hheader, hsame⟩ :=
      List.mem_map.mp (key_mem_headers_iff.mpr ⟨hplace, hname⟩)
    exact hapart header hheader (hsame ▸ hk)
  · intro hapart
    refine ⟨hconfigured, fun header hheader hmem => ?_⟩
    have hconfiguredKey := key_mem_headers_iff.mp (List.mem_map_of_mem hheader)
    exact hapart header.key hmem hconfiguredKey.1 hconfiguredKey.2

/-- The parameters of an operation are told apart by name and place, exactly if no header
that its comment documents is configured too. -/
theorem distinct_operation_iff {documented d : Documented}
    (hheaders : (Dict.keys a.settings.appended.headers).Nodup)
    (hplaceholders : (Template.names route.uri).Nodup)
    (hrules : PlainRules handler)
    (hhandler : Documented.ofHandler a route.uri handler = .ok documented)
    (hdocumented : Distinct documented.operation.parameters)
    (h : a.operation route method relative handler = .ok d) :
    Distinct d.operation.parameters ↔
      ∀ p ∈ documented.operation.parameters, p.location = .header →
        p.name ∉ Dict.keys a.settings.appended.headers := by
  obtain ⟨started, requested, configured, hstarted, hrequest, hconfigured, rfl⟩ :=
    operation_eq_ok h
  obtain rfl : documented = started := Except.ok.inj (hhandler.symm.trans hstarted)
  obtain ⟨query, body, hpart, rfl⟩ := addRequest_eq_ok hrequest
  obtain ⟨responses, -, rfl⟩ := addConfigured_eq_ok hconfigured
  have hquery : Distinct query ∧ ∀ p ∈ query, p.location = .query := by
    rcases hpart with ⟨hparameters, -⟩ | ⟨-, -, rfl, -⟩
    · exact ⟨distinct_query hrules hparameters, location_of_rulesPart hparameters⟩
    · exact ⟨List.nodup_nil, by simp⟩
  have hgenerated : Distinct (Template.parameters route.uri ++ query) :=
    distinct_generated (distinct_templateParameters hplaceholders) hquery.1 hquery.2
  have hrequested := distinct_requestParameters hgenerated hdocumented
  rw [parameters_tagged, parameters_secure, distinct_append_headers_iff hheaders]
  constructor
  · rintro ⟨-, hapart⟩ p hp
    exact hapart p.key (mem_keys_requestParameters.mpr (.inr (List.mem_map_of_mem hp)))
  · intro hapart
    refine ⟨hrequested, fun k hk hplace => ?_⟩
    rcases mem_keys_requestParameters.mp hk with hk | hk
    · -- Nothing that is generated is a header.
      obtain ⟨p, hp, rfl⟩ := List.mem_map.mp hk
      rcases List.mem_append.mp hp with hp | hp
      · exact absurd ((location_of_mem_templateParameters p hp).symm.trans hplace) (by decide)
      · exact absurd ((hquery.2 p hp).symm.trans hplace) (by decide)
    · obtain ⟨p, hp, rfl⟩ := List.mem_map.mp hk
      exact hapart p hp hplace

/-- A placeholder, two rules and a parameter that the comment documents, beside a
configured header. -/
theorem distinct_operation_pet :
    let a : Assembly :=
      { settings := { appended := { headers := [("X-Tenant", {})] } }
        builders := {}, entities := {}, now := ⟨"", ""⟩ }
    let route : Route := { uri := "/pets/\x7bid\x7d", methods := [.get] }
    let handler : Handler :=
      { comment := some
          ("@Request(\x7b\"parameters\": [\x7b\"name\": \"X-Trace\", \"in\": \"header\", " ++
            "\"schema\": \x7b\x7d\x7d]\x7d)")
        rules := [("ids", .str "array"), ("ids.*", .str "integer"), ("filter.id", .str "")] }
    (Dict.keys a.settings.appended.headers).Nodup ∧ (Template.names route.uri).Nodup ∧
      PlainRules (some handler) ∧
      (∃ documented, Documented.ofHandler a route.uri (some handler) = .ok documented ∧
        Distinct documented.operation.parameters) ∧
      ∃ d, a.operation route .get "/pets/\x7bid\x7d" (some handler) = .ok d ∧
        Distinct d.operation.parameters ∧
        d.operation.parameters.map key =
          [("id", .path), ("ids", .query), ("filter[id]", .query), ("X-Trace", .header),
            ("X-Tenant", .header)] := by
  intro a route handler
  have hrules : PlainRules (some handler) := by
    refine ⟨?_, ?_⟩
    · rintro known ⟨⟩
      decide +kernel
    · rintro known ⟨⟩
      decide +kernel
  obtain ⟨documented, hhandler, hdocumented, happart⟩ :
      ∃ documented, Documented.ofHandler a route.uri (some handler) = .ok documented ∧
        Distinct documented.operation.parameters ∧
        ∀ p ∈ documented.operation.parameters, p.location = .header →
          p.name ∉ Dict.keys a.settings.appended.headers := by
    decide +kernel
  obtain ⟨d, hd, hkeys⟩ :
      ∃ d, a.operation route .get "/pets/\x7bid\x7d" (some handler) = .ok d ∧
        d.operation.parameters.map key =
          [("id", .path), ("ids", .query), ("filter[id]", .query), ("X-Trace", .header),
            ("X-Tenant", .header)] := by
    decide +kernel
  have hdistinct : Distinct d.operation.parameters :=
    (distinct_operation_iff (by decide +kernel) (by decide +kernel) hrules hhandler hdocumented
      hd).mpr happart
  exact ⟨by decide +kernel, by decide +kernel, hrules, ⟨documented, hhandler, hdocumented⟩,
    d, hd, hdistinct, hkeys⟩

/-- A header that is documented and configured stands in the operation twice. -/
theorem not_distinct_operation_tenant :
    let a : Assembly :=
      { settings := { appended := { headers := [("X-Tenant", {})] } }
        builders := {}, entities := {}, now := ⟨"", ""⟩ }
    let route : Route := { uri := "/api/pets", methods := [.get] }
    let handler : Handler :=
      { comment := some
          ("@Request(\x7b\"parameters\": [\x7b\"name\": \"X-Tenant\", \"in\": \"header\", " ++
            "\"schema\": \x7b\x7d\x7d]\x7d)") }
    (Template.names route.uri).Nodup ∧ Dict.keys handler.rules = [] ∧
      (∃ documented, Documented.ofHandler a route.uri (some handler) = .ok documented ∧
        Distinct documented.operation.parameters) ∧
      ∃ d, a.operation route .get "/pets" (some handler) = .ok d ∧
        ¬ Distinct d.operation.parameters := by
  decide +kernel

end Assembly

end ApiDoc
