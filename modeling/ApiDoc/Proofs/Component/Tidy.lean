import ApiDoc.Proofs.Builder
import ApiDoc.Proofs.Component.Catalog
import ApiDoc.Proofs.DocComment.Values
import ApiDoc.Proofs.Schema.Read

/-!
# Tidy components

Pages, models and schema classes have tidy schemas, when the values that stand in the
models and classes repeat no key, and when other builders give tidy schemas, too.
-/

namespace ApiDoc

/-- A schema that holds nothing but texts, a default and an example. -/
theorem Schema.tidy_scalar {s : Schema} (hdefault : ∀ j ∈ s.default, j.Distinct)
    (hsample : ∀ j ∈ s.sample, j.Distinct) (henum : s.enum = none)
    (hminimum : s.minimum = none) (hmaximum : s.maximum = none)
    (hproperties : s.properties = none) (hitems : s.items = none)
    (hextensions : s.extensions = []) : s.Tidy := by
  refine tidy_leaf (forall_mem_values.mpr ⟨?_, hdefault, hsample, ?_, ?_⟩) hproperties hitems
    hextensions
  · simp [henum]
  · simp [hminimum]
  · simp [hmaximum]

theorem Schema.tidy_sampled {type : String} {j : Json} (h : j.Distinct) :
    (PageKind.sampled type j).Tidy :=
  tidy_scalar (fun _ hnone => nomatch hnone) (fun _ hsome => Option.some.inj hsome ▸ h)
    rfl rfl rfl rfl rfl rfl

namespace PageKind

theorem increasing_simpleProperties (url model : String) :
    (simpleProperties url model).Increasing := by
  rw [Dict.increasing_iff_keys]
  change List.Pairwise (· < ·) ["current_page", "data", "first_page_url", "from",
    "next_page_url", "path", "per_page", "prev_page_url", "to"]
  decide +kernel

theorem tidy_simpleProperties (url model : String) :
    ∀ entry ∈ simpleProperties url model, entry.2.Tidy := by
  simp only [simpleProperties, number, link, List.forall_mem_cons, Json.ofNat]
  exact ⟨Schema.tidy_sampled .num, Schema.tidy_arrayOf (Schema.tidy_ref model),
    Schema.tidy_sampled .str, Schema.tidy_sampled .num, Schema.tidy_sampled .str,
    Schema.tidy_sampled .str, Schema.tidy_sampled .num, Schema.tidy_sampled .str,
    Schema.tidy_sampled .num, by simp⟩

theorem tidy_lengthProperties (url : String) :
    ∀ entry ∈ lengthProperties url, entry.2.Tidy := by
  simp only [lengthProperties, number, link, List.forall_mem_cons, Json.ofNat]
  exact ⟨Schema.tidy_sampled .num, Schema.tidy_sampled .str, Schema.tidy_sampled .num, by simp⟩

theorem tidy_schema (kind : PageKind) (host model uri : String) :
    (kind.schema host model uri).Tidy := by
  have hobject : ∀ required, Schema.Tidy { type := some "object", required } := fun _ =>
    (Schema.tidy_typed "object").congr rfl rfl rfl rfl
  cases kind with
  | simple =>
      exact (hobject _).withProperties (increasing_simpleProperties _ model)
        (tidy_simpleProperties _ model)
  | lengthAware =>
      exact (hobject _).withProperties ((increasing_simpleProperties _ model).insertAll _)
        (Dict.forall_mem_insertAll (tidy_simpleProperties _ model) (tidy_lengthProperties _))

end PageKind

namespace Builders

/-- Every builder gives tidy schemas. -/
def Tidy (builders : Builders) : Prop :=
  ∀ entry ∈ builders.codes, ∀ model uri, (entry.2 model uri).Tidy

theorem tidy_empty : Tidy {} :=
  List.forall_mem_nil _

theorem MakePages.tidy {builders : Builders} (h : builders.MakePages) : builders.Tidy := by
  intro entry hentry model uri
  obtain ⟨kind, host, hbuilder⟩ := h entry hentry
  rw [hbuilder]
  exact kind.tidy_schema host model uri

end Builders

namespace Reference

variable {builders : Builders} {reference uri : String}

theorem tidy_structured (hbuilders : builders.Tidy) {found : Option Schema}
    (h : structured builders reference uri = .ok found) : ∀ s ∈ found, s.Tidy := by
  rw [structured] at h
  split at h
  · split at h
    · next hfind =>
        obtain rfl := Except.ok.inj h
        exact fun s hs => Option.some.inj hs ▸ hbuilders _ (Dict.mem_of_find? hfind) _ _
    · cases h
  · obtain rfl := Except.ok.inj h
    exact fun s hs => Option.some.inj hs ▸ Schema.tidy_arrayOf (Schema.tidy_ref _)
  · obtain rfl := Except.ok.inj h
    simp

theorem tidy_resolve (hbuilders : builders.Tidy) {s : Schema}
    (h : resolve builders reference uri = .ok s) : s.Tidy := by
  obtain ⟨found, hfound, h⟩ := bind_eq_ok_iff.mp h
  cases found with
  | some shape => exact Except.ok.inj h ▸ tidy_structured hbuilders hfound shape rfl
  | none => exact Except.ok.inj h ▸ Schema.tidy_ref _

end Reference

/-! ## Models -/

/-- The defaults of the columns repeat no key. -/
def Model.Tidy (m : Model) : Prop :=
  ∀ columns ∈ m.columns, ∀ c ∈ columns, ∀ j ∈ c.default, j.Distinct

theorem Column.tidy_schema {now : Moment} {c : Column} (h : ∀ j ∈ c.default, j.Distinct) :
    (c.schema now).Tidy := by
  have hsample := Scalar.distinct_exampleFor now (TypeName.column c.type).type
    (TypeName.column c.type).format
  simp only [schema]
  generalize Scalar.exampleFor now (TypeName.column c.type).type
    (TypeName.column c.type).format = sample at hsample ⊢
  exact Schema.tidy_scalar h hsample rfl rfl rfl rfl rfl rfl

theorem Relation.tidy_schema? {r : Relation} {s : Schema} (h : r.schema? = some s) :
    s.Tidy := by
  obtain ⟨target, -, rfl⟩ := Option.map_eq_some_iff.mp h
  dsimp only
  split
  · exact Schema.tidy_ref _
  · exact Schema.tidy_arrayOf (Schema.tidy_ref _)

theorem ComputedAttribute.tidy_schema? {now : Moment} {a : ComputedAttribute} {s : Schema}
    (h : a.schema? now = some s) : s.Tidy := by
  obtain ⟨accessor, -, rfl⟩ := Option.map_eq_some_iff.mp h
  split
  · exact Schema.tidy_empty
  · split
    · next name _ _ =>
        have hsample := Scalar.distinct_exampleFor now (TypeName.native name) none
        dsimp only
        generalize Scalar.exampleFor now (TypeName.native name) none = sample at hsample ⊢
        exact Schema.tidy_scalar (by simp) hsample rfl rfl rfl rfl rfl rfl
    · exact Schema.tidy_ref _

theorem Model.tidy_schema? {now : Moment} {m : Model} {s : Schema} (hm : m.Tidy)
    (h : m.schema? now = some s) : s.Tidy := by
  obtain ⟨columns, hcolumns, rfl⟩ := Option.map_eq_some_iff.mp h
  have hentries : ∀ entry ∈ m.entries now columns, entry.2.Tidy := by
    intro entry hentry
    rcases List.mem_append.mp hentry with hentry | hentry
    · rcases List.mem_append.mp hentry with hentry | hentry
      · obtain ⟨c, hc, rfl⟩ := List.mem_map.mp hentry
        exact Column.tidy_schema (hm columns hcolumns c (List.mem_of_mem_filter hc))
      · obtain ⟨r, -, hr⟩ := List.mem_filterMap.mp hentry
        obtain ⟨s, hs, rfl⟩ := Option.map_eq_some_iff.mp hr
        exact Relation.tidy_schema? hs
    · obtain ⟨a, -, ha⟩ := List.mem_filterMap.mp hentry
      obtain ⟨s, hs, rfl⟩ := Option.map_eq_some_iff.mp ha
      exact ComputedAttribute.tidy_schema? hs
  exact (Schema.tidy_object.withProperties (Dict.increasing_ofList _)
    (Dict.forall_mem_ofList hentries)).congr rfl rfl rfl rfl

/-! ## Schema classes -/

/-- The values of the fields repeat no key. -/
def SchemaClass.Tidy (c : SchemaClass) : Prop :=
  ∀ f ∈ c.fields, ∀ j ∈ f.value, j.Distinct

namespace ClassField

/-- A schema without elements, properties and extensions that holds at most an
example. -/
theorem tidy_overlay {f : ClassField} {entries : List (String × Json)} (summary : String)
    (hf : ∀ j ∈ f.value, j.Distinct) (hentries : ∀ entry ∈ entries, entry.2.Distinct) :
    (overlay entries (f.base summary)).Tidy := by
  refine Schema.tidy_scalar (by simp [overlay, base]) ?_ rfl rfl rfl rfl rfl rfl
  intro j hj
  rcases Option.or_eq_some_iff.mp hj with hgiven | ⟨-, hvalue⟩
  · exact Json.distinct_find? hentries hgiven
  · exact hf j hvalue

/-- A tidy schema with another example. -/
theorem tidy_withSample {s : Schema} (h : s.Tidy) {sample : Option Json}
    (hsample : ∀ j ∈ sample, j.Distinct) : Schema.Tidy { s with sample } := by
  obtain ⟨henum, hdefault, -, hminimum, hmaximum⟩ := Schema.forall_mem_values.mp h.here.values
  exact h.withValues
    (Schema.forall_mem_values.mpr ⟨henum, hdefault, hsample, hminimum, hmaximum⟩) rfl rfl rfl

theorem distinct_sample {s : Schema} (h : s.Tidy) : ∀ j ∈ s.sample, j.Distinct :=
  (Schema.forall_mem_values.mp h.here.values).2.2.1

theorem tidy_withElements {now : Moment} {entries : List (String × Json)} {s : Schema}
    (h : s.Tidy) : (withElements now entries s).Tidy := by
  rw [withElements]
  split
  · refine (tidy_withSample h ?_).withItems
      (List.forall_mem_singleton.mpr (Schema.tidy_typed _))
    intro j hj
    rcases Option.or_eq_some_iff.mp hj with hgiven | ⟨-, hmade⟩
    · exact distinct_sample h j hgiven
    · obtain ⟨element, helement, rfl⟩ := Option.map_eq_some_iff.mp hmade
      have hdistinct := Scalar.distinct_exampleFor now _ _ element helement
      exact .arr (List.forall_mem_singleton.mpr hdistinct)
  · exact h

theorem tidy_withExample {now : Moment} {s : Schema} (h : s.Tidy) :
    (withExample now s).Tidy := by
  rw [withExample]
  split
  · exact h
  · split
    · exact h
    · refine tidy_withSample h fun j hj => ?_
      split at hj
      · next value hvalue =>
          have hdistinct := distinct_sample h value hvalue
          exact Option.some.inj hj ▸ Scalar.distinct_coerceExample hdistinct _
      · exact Scalar.distinct_exampleFor now _ _ j hj

theorem tidy_withShape {shape s : Schema} (hshape : shape.Tidy) (h : s.Tidy) :
    (withShape shape s).Tidy := by
  have hbare := (tidy_withSample h (by simp : ∀ j ∈ (none : Option Json), j.Distinct)).here
  rw [withShape]
  split
  · exact .intro ⟨hbare.values, hbare.properties, hbare.extensions⟩ h.inProperties
      hshape.inItems
  · exact .intro ⟨hbare.values, hshape.here.properties, hbare.extensions⟩
      hshape.inProperties h.inItems

theorem tidy_schema {now : Moment} {builders : Builders} {owner : String} {f : ClassField}
    {s : Schema} (hbuilders : builders.Tidy) (hf : ∀ j ∈ f.value, j.Distinct)
    (h : f.schema now builders owner = .ok s) : s.Tidy := by
  obtain ⟨comment, hcomment, h⟩ := bind_eq_ok_iff.mp h
  have hentries := CommentProperties.forall_distinct_of_read hcomment
  have hbase : (withElements now comment.entries
      (overlay comment.entries (f.base comment.summary))).Tidy :=
    tidy_withElements (tidy_overlay comment.summary hf hentries)
  dsimp only at h
  split at h
  · next raw hraw =>
      split at h
      · next made hmade =>
          exact Except.ok.inj h ▸
            Schema.tidy_of_ofJson? raw (Json.distinct_find? hentries hraw) hmade
      · cases h
  · split at h
    · exact Except.ok.inj h ▸ tidy_withExample hbase
    · obtain ⟨found, hfound, h⟩ := bind_eq_ok_iff.mp h
      cases found with
      | some shape =>
          have hshape := Reference.tidy_structured hbuilders hfound shape rfl
          exact Except.ok.inj h ▸ tidy_withExample (tidy_withShape hshape hbase)
      | none => exact Except.ok.inj h ▸ Schema.tidy_ref _

end ClassField

theorem SchemaClass.tidy_schema {now : Moment} {builders : Builders} {c : SchemaClass}
    {s : Schema} (hbuilders : builders.Tidy) (hc : c.Tidy)
    (h : c.schema now builders = .ok s) : s.Tidy := by
  obtain ⟨comment, -, h⟩ := bind_eq_ok_iff.mp h
  obtain ⟨fields, hfields, h⟩ := bind_eq_ok_iff.mp h
  obtain rfl := Except.ok.inj h
  have htidy : ∀ entry ∈ fields, entry.2.Tidy := by
    intro entry hentry
    obtain ⟨f, hf, hmade⟩ := exists_of_mem_mapM hfields hentry
    obtain ⟨made, hschema, heq⟩ := bind_eq_ok_iff.mp hmade
    obtain rfl := Except.ok.inj heq
    exact ClassField.tidy_schema hbuilders (hc f hf) hschema
  exact (Schema.tidy_object.withProperties (Dict.increasing_ofList fields)
    (Dict.forall_mem_ofList htidy)).congr rfl rfl rfl rfl

/-! ## All entities -/

namespace Entities

/-- The values that stand in models and classes repeat no key. -/
structure Tidy (e : Entities) : Prop where
  models : ∀ m ∈ e.models, m.Tidy
  classes : ∀ c ∈ e.classes, c.Tidy

theorem tidy_discover {ignored : List String} {sources : List Entities}
    (h : ∀ e ∈ sources, e.Tidy) : (discover ignored sources).Tidy := by
  constructor
  · intro m hm
    rw [discover] at hm
    dsimp only at hm
    split at hm
    · cases hm
    · obtain ⟨e, he, hmodel⟩ := List.mem_flatMap.mp (List.mem_of_mem_filter hm)
      exact (h e he).models m hmodel
  · intro c hc
    obtain ⟨e, he, hclass⟩ := List.mem_flatMap.mp (List.mem_of_mem_filter hc)
    exact (h e he).classes c hclass

theorem tidy_schemas {now : Moment} {builders : Builders} {e : Entities}
    {schemas : Dict Schema} (hbuilders : builders.Tidy) (he : e.Tidy)
    (h : e.schemas now builders = .ok schemas) :
    schemas.Increasing ∧ ∀ entry ∈ schemas, entry.2.Tidy := by
  refine ⟨increasing_schemas h, ?_⟩
  obtain ⟨classes, hclasses, h⟩ := bind_eq_ok_iff.mp h
  obtain rfl := Except.ok.inj h
  refine Dict.forall_mem_insertAll ?_ ?_
  · refine Dict.forall_mem_ofList fun entry hentry => ?_
    obtain ⟨m, hm, hmade⟩ := List.mem_filterMap.mp hentry
    obtain ⟨s, hs, rfl⟩ := Option.map_eq_some_iff.mp hmade
    exact Model.tidy_schema? (he.models m hm) hs
  · intro entry hentry
    obtain ⟨c, hc, hmade⟩ := exists_of_mem_mapM hclasses hentry
    obtain ⟨s, hs, heq⟩ := bind_eq_ok_iff.mp hmade
    obtain rfl := Except.ok.inj heq
    exact SchemaClass.tidy_schema hbuilders (he.classes c hc) hs

end Entities

end ApiDoc
