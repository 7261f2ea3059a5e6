import ApiDoc.CommandLine.Run
import ApiDoc.Proofs.Assembly.Distinct
import ApiDoc.Proofs.Yaml.Values

/-!
# Tidy files

Settings, models and schema classes hold values without repeated keys whenever they come
from files.  So the command makes documents of tidy assemblies only.
-/

namespace ApiDoc

/-! ## Records in data files -/

theorem DataFile.distinct_of_read {α : Type} {ofDatum? : Datum → Option α} {path text : String}
    {a : α} (h : read ofDatum? path text = .ok a) :
    ∃ d : Datum, d.Distinct ∧ ofDatum? d = some a := by
  have helim : ∀ {value : Option α} {e : Error},
      value.elim (Except.error e) Except.ok = .ok a → value = some a := by
    intro value e hvalue
    cases value with
    | none => cases hvalue
    | some b => exact congrArg some (Except.ok.inj hvalue)
  unfold read at h
  split at h
  · obtain ⟨j, -, hj⟩ := Option.bind_eq_some_iff.mp (helim h)
    exact ⟨.ofJson j, Datum.distinct_ofJson j, hj⟩
  · obtain ⟨d, hd, hread⟩ := Option.bind_eq_some_iff.mp (helim h)
    refine ⟨d, ?_, hread⟩
    split at hd
    · exact Option.some.inj hd ▸ .blank
    · exact Yaml.distinct_of_read? hd

theorem Column.distinct_default {d : Datum} (hd : d.Distinct) {c : Column}
    (h : ofDatum? d = some c) : ∀ j ∈ c.default, j.Distinct := by
  obtain ⟨r, hr, h⟩ := Option.bind_eq_some_iff.mp h
  obtain ⟨name, -, h⟩ := Option.bind_eq_some_iff.mp h
  obtain ⟨type, -, h⟩ := Option.bind_eq_some_iff.mp h
  obtain ⟨nullable, -, h⟩ := Option.bind_eq_some_iff.mp h
  obtain ⟨default, hdefault, h⟩ := Option.bind_eq_some_iff.mp h
  obtain ⟨comment, -, h⟩ := Option.bind_eq_some_iff.mp h
  obtain ⟨length, -, h⟩ := Option.bind_eq_some_iff.mp h
  obtain rfl := Option.some.inj h
  exact Datum.distinct_of_valueField (Datum.distinct_of_record? hd hr) hdefault

theorem Model.tidy_of_ofDatum? {d : Datum} (hd : d.Distinct) {m : Model}
    (h : ofDatum? d = some m) : m.Tidy := by
  obtain ⟨r, hr, h⟩ := Option.bind_eq_some_iff.mp h
  obtain ⟨name, -, h⟩ := Option.bind_eq_some_iff.mp h
  obtain ⟨isAbstract, -, h⟩ := Option.bind_eq_some_iff.mp h
  obtain ⟨columns, hcolumns, h⟩ := Option.bind_eq_some_iff.mp h
  obtain ⟨hidden, -, h⟩ := Option.bind_eq_some_iff.mp h
  obtain ⟨relations, -, h⟩ := Option.bind_eq_some_iff.mp h
  obtain ⟨computed, -, h⟩ := Option.bind_eq_some_iff.mp h
  obtain rfl := Option.some.inj h
  exact Datum.of_defaulted?
    (q := fun value : Option (List Column) =>
      ∀ cs ∈ value, ∀ c ∈ cs, ∀ j ∈ c.default, j.Distinct)
    (Datum.distinct_of_record? hd hr) (by simp)
    (fun _ hd _ hread => Datum.forall_of_orNone?
      (fun _ hd _ hlist => Datum.forall_of_list?
        (fun _ hd _ hc => Column.distinct_default hd hc) hd hlist) hd hread) hcolumns

theorem ClassField.distinct_value {d : Datum} (hd : d.Distinct) {f : ClassField}
    (h : ofDatum? d = some f) : ∀ j ∈ f.value, j.Distinct := by
  obtain ⟨r, hr, h⟩ := Option.bind_eq_some_iff.mp h
  obtain ⟨name, -, h⟩ := Option.bind_eq_some_iff.mp h
  obtain ⟨typeHint, -, h⟩ := Option.bind_eq_some_iff.mp h
  obtain ⟨nullable, -, h⟩ := Option.bind_eq_some_iff.mp h
  obtain ⟨comment, -, h⟩ := Option.bind_eq_some_iff.mp h
  obtain ⟨value, hvalue, h⟩ := Option.bind_eq_some_iff.mp h
  obtain rfl := Option.some.inj h
  exact Datum.distinct_of_valueField (Datum.distinct_of_record? hd hr) hvalue

theorem SchemaClass.tidy_of_ofDatum? {d : Datum} (hd : d.Distinct) {c : SchemaClass}
    (h : ofDatum? d = some c) : c.Tidy := by
  obtain ⟨r, hr, h⟩ := Option.bind_eq_some_iff.mp h
  obtain ⟨name, -, h⟩ := Option.bind_eq_some_iff.mp h
  obtain ⟨isAbstract, -, h⟩ := Option.bind_eq_some_iff.mp h
  obtain ⟨comment, -, h⟩ := Option.bind_eq_some_iff.mp h
  obtain ⟨fields, hfields, h⟩ := Option.bind_eq_some_iff.mp h
  obtain rfl := Option.some.inj h
  exact Datum.forall_of_listField (fun _ hd _ hf => ClassField.distinct_value hd hf)
    (Datum.distinct_of_record? hd hr) hfields

theorem Manifest.tidy_of_ofFile {path text : String} {m : Manifest}
    (h : ofFile path text = .ok m) : m.entities.Tidy := by
  obtain ⟨d, hd, h⟩ := DataFile.distinct_of_read h
  obtain ⟨r, hr, h⟩ := Option.bind_eq_some_iff.mp h
  obtain ⟨routes, -, h⟩ := Option.bind_eq_some_iff.mp h
  obtain ⟨handlers, -, h⟩ := Option.bind_eq_some_iff.mp h
  obtain ⟨models, hmodels, h⟩ := Option.bind_eq_some_iff.mp h
  obtain ⟨classes, hclasses, h⟩ := Option.bind_eq_some_iff.mp h
  obtain rfl := Option.some.inj h
  have hfields := Datum.distinct_of_record? hd hr
  constructor
  · exact Datum.forall_of_listField (fun _ hd _ hm => Model.tidy_of_ofDatum? hd hm) hfields
      hmodels
  · exact Datum.forall_of_listField (fun _ hd _ hc => SchemaClass.tidy_of_ofDatum? hd hc) hfields
      hclasses

/-! ## Settings -/

theorem AppendedHeader.distinct_sample {d : Datum} (hd : d.Distinct) {header : AppendedHeader}
    (h : ofDatum? d = some header) : ∀ j ∈ header.sample, j.Distinct := by
  obtain ⟨r, hr, h⟩ := Option.bind_eq_some_iff.mp h
  obtain ⟨type, -, h⟩ := Option.bind_eq_some_iff.mp h
  obtain ⟨sample, hsample, h⟩ := Option.bind_eq_some_iff.mp h
  obtain ⟨description, -, h⟩ := Option.bind_eq_some_iff.mp h
  obtain ⟨required, -, h⟩ := Option.bind_eq_some_iff.mp h
  obtain rfl := Option.some.inj h
  exact Datum.distinct_of_valueField (Datum.distinct_of_record? hd hr) hsample

theorem Appended.distinct_samples {d : Datum} (hd : d.Distinct) {appended : Appended}
    (h : ofDatum? d = some appended) :
    ∀ header ∈ appended.headers, ∀ j ∈ header.2.sample, j.Distinct := by
  obtain ⟨r, hr, h⟩ := Option.bind_eq_some_iff.mp h
  obtain ⟨responses, -, h⟩ := Option.bind_eq_some_iff.mp h
  obtain ⟨headers, hheaders, h⟩ := Option.bind_eq_some_iff.mp h
  obtain rfl := Option.some.inj h
  exact Datum.of_defaulted?
    (q := fun headers : Dict AppendedHeader =>
      ∀ header ∈ headers, ∀ j ∈ header.2.sample, j.Distinct)
    (Datum.distinct_of_record? hd hr) (by simp)
    (fun _ hd _ hread => (Datum.forall_of_dict?
      (q := fun header : AppendedHeader => ∀ j ∈ header.sample, j.Distinct)
      (fun _ hd _ hheader => AppendedHeader.distinct_sample hd hheader) hd hread).2) hheaders

namespace Settings

theorem tidy_default : Tidy {} :=
  ⟨by decide +kernel, List.Pairwise.nil, fun _ hnone => nomatch hnone⟩

theorem tidy_of_ofDatum? {d : Datum} (hd : d.Distinct) {s : Settings}
    (h : ofDatum? d = some s) : s.Tidy := by
  obtain ⟨r, hr, h⟩ := Option.bind_eq_some_iff.mp h
  have hfields := Datum.distinct_of_record? hd hr
  have hdict : ∀ {name : String} {fallback made : Dict String}, fallback.Increasing →
      r.defaulted? name fallback (Datum.dict? Datum.text?) = some made → made.Increasing := by
    intro name fallback made hfallback hmade
    exact Datum.of_defaulted? (q := fun d : Dict String => d.Increasing) hfields hfallback
      (fun _ hd _ hread => (Datum.forall_of_dict? (q := fun _ => True)
        (fun _ _ _ _ => trivial) hd hread).1) hmade
  obtain ⟨title, -, h⟩ := Option.bind_eq_some_iff.mp h
  obtain ⟨description, -, h⟩ := Option.bind_eq_some_iff.mp h
  obtain ⟨version, -, h⟩ := Option.bind_eq_some_iff.mp h
  obtain ⟨host, -, h⟩ := Option.bind_eq_some_iff.mp h
  obtain ⟨basePath, -, h⟩ := Option.bind_eq_some_iff.mp h
  obtain ⟨servers, -, h⟩ := Option.bind_eq_some_iff.mp h
  obtain ⟨schemaDirectory, -, h⟩ := Option.bind_eq_some_iff.mp h
  obtain ⟨tags, -, h⟩ := Option.bind_eq_some_iff.mp h
  obtain ⟨tagging, -, h⟩ := Option.bind_eq_some_iff.mp h
  obtain ⟨sources, -, h⟩ := Option.bind_eq_some_iff.mp h
  obtain ⟨flows, hflows, h⟩ := Option.bind_eq_some_iff.mp h
  obtain ⟨scopes, hscopes, h⟩ := Option.bind_eq_some_iff.mp h
  obtain ⟨guards, -, h⟩ := Option.bind_eq_some_iff.mp h
  obtain ⟨appended, happended, h⟩ := Option.bind_eq_some_iff.mp h
  obtain ⟨ignored, -, h⟩ := Option.bind_eq_some_iff.mp h
  obtain ⟨pageKinds, -, h⟩ := Option.bind_eq_some_iff.mp h
  obtain rfl := Option.some.inj h
  refine ⟨hdict tidy_default.flows hflows, hdict tidy_default.scopes hscopes, ?_⟩
  exact Datum.of_defaulted?
    (q := fun appended : Appended =>
      ∀ header ∈ appended.headers, ∀ j ∈ header.2.sample, j.Distinct)
    hfields tidy_default.samples (fun _ hd _ hread => Appended.distinct_samples hd hread)
    happended

theorem tidy_of_ofFile {path text : String} {s : Settings} (h : ofFile path text = .ok s) :
    s.Tidy := by
  obtain ⟨made, hmade, h⟩ := bind_eq_ok_iff.mp h
  obtain ⟨-, -, h⟩ := bind_eq_ok_iff.mp h
  obtain rfl := Except.ok.inj h
  obtain ⟨d, hd, hread⟩ := DataFile.distinct_of_read hmade
  exact tidy_of_ofDatum? hd hread

end Settings

/-! ## Source files -/

namespace Source

/-- A field of a struct has no value. -/
theorem Field.value_eq_none {f : Field} {c : ClassField} (h : f.classField? = some c) :
    c.value = none := by
  rw [classField?] at h
  split at h
  · cases h
  · split at h
    · cases h
    · obtain rfl := Option.some.inj h
      rfl

theorem Struct.tidy_schemaClass (s : Struct) : s.schemaClass.Tidy := by
  intro c hc j hj
  obtain ⟨f, -, hf⟩ := List.mem_filterMap.mp hc
  rw [Field.value_eq_none hf] at hj
  cases hj

mutual

theorem Item.tidy_classes : (item : Item) → ∀ c ∈ item.classes, c.Tidy
  | .struct s => List.forall_mem_singleton.mpr s.tidy_schemaClass
  | .module items => tidy_classesOf items
  | .methods _ _ => fun _ h => nomatch h
  | .other => fun _ h => nomatch h

theorem tidy_classesOf : (items : List Item) → ∀ c ∈ classesOf items, c.Tidy
  | [] => fun _ h => nomatch h
  | item :: rest => List.forall_mem_append.mpr ⟨item.tidy_classes, tidy_classesOf rest⟩

end

theorem Findings.tidy_entities (items : List Item) : (ofItems items).entities.Tidy :=
  ⟨(fun _ h => nomatch h), tidy_classesOf items⟩

end Source

/-! ## Runs -/

namespace CommandLine

theorem Options.tidy_settings {o : Options} {look : Lookup} {s : Settings}
    (h : o.settings look = .ok s) : s.Tidy := by
  unfold settings at h
  split at h
  · exact Except.ok.inj h ▸ Settings.tidy_default
  · have hread := mapError_eq_ok_iff.mp h
    split at hread
    · exact Settings.tidy_of_ofFile hread
    · cases hread

theorem Options.tidy_manifest {o : Options} {look : Lookup} {m : Manifest}
    (h : o.readManifest look = .ok m) : m.entities.Tidy := by
  have hread := mapError_eq_ok_iff.mp h
  split at hread
  · exact Manifest.tidy_of_ofFile hread
  · cases hread

theorem tidy_findings {look : Lookup} {path : String} {f : Source.Findings}
    {warnings : List Warning} (h : findings look path = .ok (f, warnings)) :
    f.entities.Tidy := by
  rw [findings] at h
  split at h
  · have hf := congrArg Prod.fst (Except.ok.inj h)
    obtain rfl : _ = f := hf
    exact Source.Findings.tidy_entities _
  · cases h

/-- The text of a run shows the document of a tidy assembly. -/
theorem Options.exists_tidy_of_generate {o : Options} {look : Lookup} {now : Moment}
    {text : String} {warnings : List Warning} (h : o.generate look now = .ok (text, warnings)) :
    ∃ (app : Application) (a : Assembly) (document : Document) (told : List Warning),
      a.Tidy ∧ app.documentOf a o.filter = .ok (document, told) ∧
        text = o.format.render document := by
  obtain ⟨-, -, h⟩ := bind_eq_ok_iff.mp h
  obtain ⟨s, hs, h⟩ := bind_eq_ok_iff.mp h
  obtain ⟨m, hm, h⟩ := bind_eq_ok_iff.mp h
  obtain ⟨found, hfound, h⟩ := bind_eq_ok_iff.mp h
  obtain ⟨a, ha, h⟩ := bind_eq_ok_iff.mp h
  obtain ⟨⟨document, told⟩, hdocument, h⟩ := bind_eq_ok_iff.mp h
  obtain ⟨rfl, -⟩ := Prod.mk.inj (Except.ok.inj h)
  rw [mapError_eq_ok_iff] at ha hdocument
  refine ⟨_, a, document, told, ?_, hdocument, rfl⟩
  refine Application.tidy_assembly (Options.tidy_settings hs) ?_ ha
  refine List.forall_mem_cons.mpr ⟨Options.tidy_manifest hm, ?_⟩
  intro e he
  obtain ⟨f, hf, rfl⟩ := List.mem_map.mp he
  obtain ⟨p, hp, rfl⟩ := List.mem_map.mp hf
  obtain ⟨path, -, hpath⟩ := exists_of_mem_mapM hfound hp
  exact tidy_findings hpath

end CommandLine

end ApiDoc
