import ApiDoc.Assembly.Documented
import ApiDoc.Proofs.Builder
import ApiDoc.Proofs.Dict
import ApiDoc.Proofs.Except

/-!
# Where components come from

The component of a name is made from the last class of that name, and where there is no
class, from the last model of that name that has a table.  So the names that count as
defined are the names of the components, and a name becomes the path of a component
exactly if there is one.
-/

namespace ApiDoc

theorem mem_of_find?_reverse {α : Type} {p : α → Bool} {xs : List α} {x : α}
    (h : xs.reverse.find? p = some x) : x ∈ xs :=
  List.mem_reverse.mp (List.mem_of_find?_eq_some h)

/-- Named calls that all came to their ends: under each name stands what the last call of
the name gave. -/
theorem find?_reverse_of_mapM {ε α β : Type} {name : α → String} {f : α → Except ε β}
    {xs : List α} {made : List (String × β)}
    (h : (xs.mapM fun x => do return (name x, ← f x)) = .ok made) (key : String) :
    Dict.find? made.reverse key =
      (xs.reverse.find? fun x => name x = key).bind fun x => (f x).toOption := by
  induction xs using List.reverseRecOn generalizing made with
  | nil =>
      obtain rfl := Except.ok.inj h
      rfl
  | append_singleton xs x ih =>
      obtain ⟨front, entry, hfront, hentry, rfl⟩ := mapM_concat_eq_ok_iff.mp h
      obtain ⟨value, hvalue, hentry⟩ := bind_eq_ok_iff.mp hentry
      obtain rfl := Except.ok.inj hentry
      rw [List.reverse_append, List.reverse_append, List.reverse_singleton,
        List.reverse_singleton, List.singleton_append, List.singleton_append, Dict.find?]
      by_cases hname : name x = key
      · simp [hname, hvalue, Except.toOption]
      · simp [hname, ih hfront]

theorem Model.isSome_schema? (now : Moment) (m : Model) :
    (m.schema? now).isSome = m.columns.isSome :=
  Option.isSome_map

/-- What gives a component. -/
inductive Giver
  | ofClass (c : SchemaClass)
  | ofModel (m : Model)

/-- The schema of what gives a component, if it has one. -/
def Giver.schema? (now : Moment) (builders : Builders) : Giver → Option Schema
  | .ofClass c => (c.schema now builders).toOption
  | .ofModel m => m.schema? now

namespace Entities

/-- The last class of a name. -/
def class? (e : Entities) (name : String) : Option SchemaClass :=
  e.classes.reverse.find? fun c => c.name = name

/-- The last model of a name that has a table. -/
def model? (e : Entities) (name : String) : Option Model :=
  e.models.reverse.find? fun m => m.columns.isSome && m.name = name

/-- What gives the component of a name: a class before a model. -/
def giver? (e : Entities) (name : String) : Option Giver :=
  ((e.class? name).map .ofClass).or ((e.model? name).map .ofModel)

variable {now : Moment} {builders : Builders} {e : Entities} {schemas : Dict Schema}
  {name : String}

theorem find?_modelSchemas (now : Moment) (e : Entities) (name : String) :
    Dict.find? (e.modelSchemas now) name = (e.model? name).bind (Model.schema? now) := by
  rw [modelSchemas, Dict.find?_ofList_reverse, ← List.filterMap_reverse, model?]
  simpa only [Model.isSome_schema?] using
    Dict.find?_filterMap Model.name (Model.schema? now) e.models.reverse name

/-- If all entities have their schemas, so does what gives a component. -/
theorem isSome_schema?_of_giver? (h : e.schemas now builders = .ok schemas) {g : Giver}
    (hg : e.giver? name = some g) : (g.schema? now builders).isSome := by
  rw [giver?] at hg
  rcases Option.or_eq_some_iff.mp hg with hclass | ⟨-, hmodel⟩
  · obtain ⟨c, hlast, rfl⟩ := Option.map_eq_some_iff.mp hclass
    obtain ⟨made, hmade, -⟩ := bind_eq_ok_iff.mp h
    obtain ⟨entry, hentry⟩ := exists_of_mapM hmade (mem_of_find?_reverse hlast)
    obtain ⟨s, hs, -⟩ := bind_eq_ok_iff.mp hentry
    rw [Giver.schema?, hs]
    rfl
  · obtain ⟨m, hlast, rfl⟩ := Option.map_eq_some_iff.mp hmodel
    rw [model?] at hlast
    have hfound := List.find?_some hlast
    rw [Giver.schema?, Model.isSome_schema?]
    exact (Bool.and_eq_true_iff.mp hfound).1

/-- Each component is the schema of what gives it. -/
theorem find?_schemas (h : e.schemas now builders = .ok schemas) (name : String) :
    Dict.find? schemas name = (e.giver? name).bind (Giver.schema? now builders) := by
  obtain ⟨made, hmade, hmerged⟩ := bind_eq_ok_iff.mp h
  obtain rfl := Except.ok.inj hmerged
  rw [Dict.find?_insertAll_reverse, find?_reverse_of_mapM hmade, find?_modelSchemas, ← class?]
  cases hclass : e.class? name with
  | none =>
      rw [giver?, hclass]
      cases e.model? name with
      | none => rfl
      | some m => rfl
  | some c =>
      have hgiver : e.giver? name = some (.ofClass c) := by
        rw [giver?, hclass]
        rfl
      obtain ⟨s, hs⟩ := Option.isSome_iff_exists.mp (isSome_schema?_of_giver? h hgiver)
      rw [hgiver, Option.bind_some, Option.bind_some, hs]
      rw [Giver.schema?] at hs
      rw [hs]
      rfl

theorem increasing_schemas (h : e.schemas now builders = .ok schemas) : schemas.Increasing := by
  obtain ⟨made, -, h⟩ := bind_eq_ok_iff.mp h
  obtain rfl := Except.ok.inj h
  exact (Dict.increasing_ofList _).insertAll made

/-- What each component has exactly if its giver has a property of its own, all components
have exactly if all givers do. -/
theorem forall_mem_schemas_iff (h : e.schemas now builders = .ok schemas)
    {q : String → Schema → Prop} {r : String → Giver → Prop}
    (hq : ∀ name, ∀ g ∈ e.giver? name, ∀ s, g.schema? now builders = some s →
      (q name s ↔ r name g)) :
    (∀ entry ∈ schemas, q entry.1 entry.2) ↔ ∀ name, ∀ g ∈ e.giver? name, r name g :=
  Dict.forall_mem_iff_givers (increasing_schemas h).nodup_keys (find?_schemas h)
    (fun _ _ hg => isSome_schema?_of_giver? h hg) hq

/-- The defined names are those of the entities that give a component. -/
theorem mem_defined_iff : name ∈ e.defined ↔ (e.giver? name).isSome := by
  rw [giver?, Option.isSome_or, Option.isSome_map, Option.isSome_map, Bool.or_eq_true]
  simp only [defined, class?, model?, List.mem_append, List.mem_map, List.mem_filter,
    List.find?_isSome, List.mem_reverse, decide_eq_true_eq, Bool.and_eq_true, and_assoc]
  exact or_comm

/-- A name is defined exactly if it has a component. -/
theorem mem_defined_iff_mem_keys (h : e.schemas now builders = .ok schemas) :
    name ∈ e.defined ↔ name ∈ Dict.keys schemas := by
  rw [mem_defined_iff, Dict.mem_keys_iff, find?_schemas h]
  cases hgiver : e.giver? name with
  | none => rfl
  | some g => exact iff_of_true rfl (isSome_schema?_of_giver? h hgiver)

end Entities

/-! ## Paths of components -/

namespace Schema

theorem isComponentPath_componentPath (name : String) :
    isComponentPath (componentPath ++ name) = true := by
  rw [isComponentPath, String.toList_append]
  exact List.isPrefixOf_iff_prefix.mpr (List.prefix_append _ _)

theorem refPath_of_isComponentPath {name : String} (h : isComponentPath name = false) :
    refPath name = componentPath ++ name := by
  rw [refPath, h]
  rfl

end Schema

namespace Entities

variable {e : Entities}

/-- A name that is no path becomes the path of its component if it is defined, and stays
as it is if not. -/
theorem componentPath_eq {name : String} (h : Schema.isComponentPath name = false) :
    e.componentPath name =
      if name ∈ e.defined then Schema.componentPath ++ name else name := by
  rw [componentPath, h, Schema.refPath_of_isComponentPath h]
  simp

theorem isComponentPath_componentPath_iff {name : String}
    (h : Schema.isComponentPath name = false) :
    Schema.isComponentPath (e.componentPath name) = true ↔ name ∈ e.defined := by
  rw [componentPath_eq h]
  split
  · next hdefined => exact iff_of_true (Schema.isComponentPath_componentPath name) hdefined
  · next hunknown => exact iff_of_false (by simp [h]) hunknown

end Entities

/-- A plain reference of a response becomes a reference to what its name stands for. -/
theorem Documented.responseSchema_of_plain (a : Assembly) {reference : String} (uri : String)
    (h : Reference.parse reference = .plain) :
    responseSchema a reference uri =
      .ok { reference := some (a.entities.componentPath (Reference.trimmed reference)) } := by
  have hplain : Reference.structured a.builders reference uri = .ok none := by
    rw [Reference.structured, h]
  rw [responseSchema, hplain]
  rfl

/-- When the entities that were discovered have their schemas, the defined names are those
of the components, a name that is no path becomes the path of a component exactly if there
is one, and a plain reference of a response is left as it is or leads to a component. -/
theorem Entities.componentPath_leads_to_component {settings : Settings}
    {sources : List Entities} {now : Moment} {builders : Builders} {schemas : Dict Schema}
    (h : (discover settings.ignored.models sources).schemas now builders = .ok schemas) :
    let e := discover settings.ignored.models sources
    (∀ name, name ∈ e.defined ↔ name ∈ Dict.keys schemas) ∧
      (∀ name, Schema.isComponentPath name = false →
        (Schema.isComponentPath (e.componentPath name) = true ↔ name ∈ Dict.keys schemas)) ∧
      ∀ a : Assembly, a.entities = e → ∀ reference uri, Reference.parse reference = .plain →
        Schema.isComponentPath (Reference.trimmed reference) = false →
        ∃ target,
          Documented.responseSchema a reference uri = .ok { reference := some target } ∧
          (target = Reference.trimmed reference ∧
              Reference.trimmed reference ∉ Dict.keys schemas ∨
            target = Schema.componentPath ++ Reference.trimmed reference ∧
              Reference.trimmed reference ∈ Dict.keys schemas) := by
  intro e
  have hdefined : ∀ name, name ∈ e.defined ↔ name ∈ Dict.keys schemas :=
    fun name => mem_defined_iff_mem_keys h
  refine ⟨hdefined, ?_, ?_⟩
  · intro name hname
    rw [isComponentPath_componentPath_iff hname]
    exact hdefined name
  · intro a hentities reference uri hplain hname
    refine ⟨_, Documented.responseSchema_of_plain a uri hplain, ?_⟩
    rw [hentities, componentPath_eq hname, ← hdefined]
    split
    · next hthere => exact .inr ⟨rfl, hthere⟩
    · next hunknown => exact .inl ⟨rfl, hunknown⟩

/-- A model, a class that takes the place of another model and wraps the first one by a builder
of its own, and a model without table. -/
theorem Entities.componentPath_leads_to_component_pets :
    let sources : List Entities :=
      [{ models := [{ name := "Pet", columns := some [] }, { name := "Owner", columns := some [] },
          { name := "Report" }] },
        { classes :=
            [{ name := "Owner"
               fields := [{ name := "pet", comment := some "@Property(ref: W(Pet))" }] }] }]
    let e := discover ({} : Settings).ignored.models sources
    let a : Assembly :=
      { settings := {}, builders := Builders.register {} "W" (.wrapping "item"), entities := e
        now := ⟨"", ""⟩ }
    ∃ schemas, e.schemas a.now a.builders = .ok schemas ∧
      (∀ name, name ∈ e.defined ↔ name ∈ ["Owner", "Pet"]) ∧
      Schema.isComponentPath (e.componentPath "Owner") = true ∧
      ¬ Schema.isComponentPath (e.componentPath "Report") = true ∧
      Documented.responseSchema a " Owner " "/pets" =
        .ok { reference := some (Schema.componentPath ++ "Owner") } := by
  intro sources e a
  obtain ⟨schemas, hschemas, hkeys⟩ : ∃ schemas, e.schemas a.now a.builders = .ok schemas ∧
      Dict.keys schemas = ["Owner", "Pet"] := by
    decide +kernel
  obtain ⟨hdefined, hpaths, hresponses⟩ := @componentPath_leads_to_component {} _ _ _ _ hschemas
  simp only [hkeys] at hdefined hpaths hresponses
  have htrimmed : Reference.trimmed " Owner " = "Owner" := by decide +kernel
  obtain ⟨target, htarget, ⟨-, hunknown⟩ | ⟨rfl, -⟩⟩ :=
    hresponses a rfl " Owner " "/pets" (by decide +kernel) (by decide +kernel)
  · rw [htrimmed] at hunknown
    exact absurd (by decide) hunknown
  · rw [htrimmed] at htarget
    refine ⟨schemas, hschemas, hdefined, ?_, ?_, htarget⟩
    · exact (hpaths "Owner" (by decide +kernel)).mpr (by decide)
    · exact fun hpath => absurd ((hpaths "Report" (by decide +kernel)).mp hpath) (by decide)

end ApiDoc
