import ApiDoc.Proofs.Document.Read

/-!
# Overlaying one key of an operation

A value is overlaid by writing the operation down, putting the value under its key, and
reading the whole back.  What a part of the operation is read from stands under one key,
so the part follows the value if that is its key, and stays as it was if not.
-/

namespace ApiDoc

theorem Json.segments_ne_nil (path : String) : segments path ≠ [] := by
  rw [segments]
  exact fun h => Text.splitOn_ne_nil '.' path.toList (List.map_eq_nil_iff.mp h)

/-- Overlaying an object changes it under the first segment of the path. -/
theorem Json.exists_setDotted_obj (members : List (String × Json)) (path : String)
    (value : Json) :
    ∃ first written, (segments path).head? = some first ∧
      setDotted (obj members) path value = obj (Dict.put members first written) ∧
      (segments path = [first] → written = value) := by
  rw [setDotted]
  cases hsegments : segments path with
  | nil => exact absurd hsegments (segments_ne_nil path)
  | cons first rest =>
      refine ⟨first, _, rfl, rfl, fun hrest => ?_⟩
      obtain rfl : rest = [] := (List.cons.inj hrest).2
      rfl

namespace Operation

/-- All that is written. -/
def members (o : Operation) : List (String × Json) :=
  o.fields ++ o.extensions

theorem toJson_eq_obj (o : Operation) : o.toJson = .obj o.members := rfl

/-- A clean operation whose security is written in order, so that writing it loses
nothing. -/
structure Settled (o : Operation) : Prop where
  clean : o.Clean
  security : ∀ requirements ∈ o.security, ∀ requirement ∈ requirements,
    Dict.Increasing requirement

namespace Settled

variable {o : Operation}

theorem distinct (h : o.Settled) : (Json.obj o.members).Distinct :=
  h.clean.tidy.distinct_toJson_iff.mpr fun p hp hkey =>
    absurd hkey (h.clean.parameters p hp).noSchema

theorem fields (h : o.Settled) : Json.Fields fieldNames o.fields :=
  h.clean.tidy.fields fun p hp =>
    (h.clean.tidy.parameters p hp).distinct_toJson_iff.mpr fun hkey =>
      absurd hkey (h.clean.parameters p hp).noSchema

/-- What stands under the name of a field is written by the field. -/
theorem find?_members_of_mem (h : o.Settled) {key : String} (hkey : key ∈ fieldNames) :
    Dict.find? o.members key = Dict.find? o.fields key := by
  rw [members, Dict.find?_append, h.clean.tidy.extensions.find?_eq_none hkey, Option.or_none]

theorem find?_members_of_not_mem (h : o.Settled) {key : String} (hkey : key ∉ fieldNames) :
    Dict.find? o.members key = Dict.find? o.extensions key := by
  rw [members, Dict.find?_append, h.fields.find?_eq_none hkey, Option.none_or]

end Settled

theorem settled_of_ofJson? {members : List (String × Json)} (h : (Json.obj members).Distinct)
    {o : Operation} (hread : ofJson? (.obj members) = some o) : o.Settled where
  clean := clean_of_ofJson? h hread
  security := (readFrom_of_ofJson? hread).increasing_security (Json.distinct_obj_iff.mp h).2

/-- A value was overlaid: the operation is read from what it was written as, with a
change under the first segment. -/
theorem mergeValue_eq_ok {o merged : Operation} {path : String} {value : Json}
    (ho : o.Settled) (hvalue : value.Distinct) (h : o.mergeValue path value = .ok merged) :
    ∃ first written, (Json.segments path).head? = some first ∧
      (Json.segments path = [first] → written = value) ∧
      (Json.obj (Dict.put o.members first written)).Distinct ∧
      ofJson? (.obj (Dict.put o.members first written)) = some merged := by
  obtain ⟨first, written, hfirst, hset, hwritten⟩ :=
    Json.exists_setDotted_obj o.members path value
  have hdistinct := Json.distinct_setDotted ho.distinct hvalue path
  rw [mergeValue, toJson_eq_obj, Json.merged_of_distinct _ ho.distinct, hset] at h
  rw [hset] at hdistinct
  refine ⟨first, written, hfirst, hwritten, hdistinct, ?_⟩
  split at h
  · next hread => exact Except.ok.inj h ▸ hread
  · cases h

theorem settled_of_mergeValue {o merged : Operation} {path : String} {value : Json}
    (ho : o.Settled) (hvalue : value.Distinct) (h : o.mergeValue path value = .ok merged) :
    merged.Settled := by
  obtain ⟨first, written, -, -, hdistinct, hread⟩ := mergeValue_eq_ok ho hvalue h
  exact settled_of_ofJson? hdistinct hread

/-- A part of an operation that is read from what stands under one key, and that is not
generated. -/
structure Part {α : Type} (key : String) (get : Operation → α)
    (read : Option Json → Option α) : Prop where
  /-- The part is read from its key. -/
  reads : ∀ {members : List (String × Json)} {o : Operation}, (Dict.keys members).Nodup →
    ReadFrom members o → read (Dict.find? members key) = some (get o)
  /-- What the part is written as is read back. -/
  writes : ∀ {o : Operation}, o.Settled → read (Dict.find? o.members key) = some (get o)
  generated : ∀ (o : Operation) parameters requestBody responses,
    get { o with parameters, requestBody, responses } = get o
  identifier : key ≠ "operationId" → ∀ (o : Operation) operationId,
    get { o with operationId } = get o

namespace Part

variable {α : Type} {key : String} {get : Operation → α} {read : Option Json → Option α}
  {o merged : Operation} {path : String} {value : Json}

/-- A part whose key is overlaid is read from the value. -/
theorem of_mergeValue (hp : Part key get read) (ho : o.Settled) (hvalue : value.Distinct)
    (hkey : Json.segments key = [key]) (h : o.mergeValue key value = .ok merged) :
    read (some value) = some (get merged) := by
  obtain ⟨first, written, hfirst, hwritten, hdistinct, hread⟩ := mergeValue_eq_ok ho hvalue h
  obtain rfl : key = first := by simpa [hkey] using hfirst
  obtain rfl := hwritten hkey
  have hfound := hp.reads (Json.distinct_obj_iff.mp hdistinct).1 (readFrom_of_ofJson? hread)
  rwa [Dict.find?_put, if_pos rfl] at hfound

/-- A part stays as it was when another key is overlaid. -/
theorem of_mergeValue_of_ne (hp : Part key get read) (ho : o.Settled)
    (hvalue : value.Distinct) (hpath : (Json.segments path).head? ≠ some key)
    (h : o.mergeValue path value = .ok merged) : get merged = get o := by
  obtain ⟨first, written, hfirst, -, hdistinct, hread⟩ := mergeValue_eq_ok ho hvalue h
  have hne : first ≠ key := fun heq => hpath (heq ▸ hfirst)
  have hfound := hp.reads (Json.distinct_obj_iff.mp hdistinct).1 (readFrom_of_ofJson? hread)
  rw [Dict.find?_put, if_neg hne, hp.writes ho] at hfound
  exact (Option.some.inj hfound).symm

end Part

/-! ## The parts -/

/-- A text without a value is empty. -/
def readText (found : Option Json) : Option String :=
  found.elim (some "") Json.asStr?

theorem part_summary : Part "summary" summary readText where
  reads _ h := (Record.defaulted?_named ..).symm.trans h.summary
  writes h := by
    rw [h.find?_members_of_mem (by decide)]
    simp [fields, Dict.find?_append, Json.find?_listMember, Dict.find?, readText, Json.asStr?]
  generated _ _ _ _ := rfl
  identifier _ _ _ := rfl

theorem part_description : Part "description" description readText where
  reads _ h := (Record.defaulted?_named ..).symm.trans h.description
  writes h := by
    rw [h.find?_members_of_mem (by decide)]
    simp [fields, Dict.find?_append, Json.find?_listMember, Dict.find?, readText, Json.asStr?]
  generated _ _ _ _ := rfl
  identifier _ _ _ := rfl

theorem part_deprecated :
    Part "deprecated" deprecated fun found => found.elim (some false) Json.asBool? where
  reads _ h := (Record.defaulted?_named ..).symm.trans h.deprecated
  writes h := by
    rw [h.find?_members_of_mem (by decide)]
    simp [fields, Dict.find?_append, Json.find?_listMember, Json.find?_optionalMember,
      Dict.find?, Json.asBool?]
  generated _ _ _ _ := rfl
  identifier _ _ _ := rfl

theorem part_operationId :
    Part "operationId" operationId
      fun found => found.elim (some none) (Json.orNull? Json.asStr?) where
  reads _ h := (Record.optional?_named ..).symm.trans h.operationId
  writes {o} h := by
    rw [h.find?_members_of_mem (by decide)]
    cases hid : o.operationId <;>
      simp [fields, Dict.find?_append, Json.find?_listMember, Json.find?_optionalMember,
        Dict.find?, Json.orNull?, Json.asStr?, hid]
  generated _ _ _ _ := rfl
  identifier hkey := absurd rfl hkey

theorem part_tags :
    Part "tags" tags fun found => found.elim (some []) (Json.listOf? Json.asStr?) where
  reads _ h := (Record.defaulted?_named ..).symm.trans h.tags
  writes {o} h := by
    rw [h.find?_members_of_mem (by decide)]
    have hread : Json.listOf? Json.asStr? (.arr (o.tags.map .str)) = some o.tags :=
      Json.listOf?_map fun _ _ => rfl
    cases htags : o.tags <;>
      simp_all [fields, Dict.find?_append, Json.find?_listMember, Json.find?_optionalMember,
        Dict.find?]
  generated _ _ _ _ := rfl
  identifier _ _ _ := rfl

/-- The requirements of an overlaid security; none for `null`. -/
def readSecurity : Json → Option (Option (List SecurityRequirement)) :=
  Json.orNull? (Json.listOf? SecurityRequirement.ofJson?)

theorem part_security :
    Part "security" security fun found => found.elim (some none) readSecurity where
  reads _ h := (Record.optional?_named ..).symm.trans h.security
  writes {o} h := by
    rw [h.find?_members_of_mem (by decide)]
    cases hsecurity : o.security with
    | none =>
        simp [fields, Dict.find?_append, Json.find?_listMember, Json.find?_optionalMember,
          Dict.find?, hsecurity]
    | some requirements =>
        have hread : Json.listOf? SecurityRequirement.ofJson?
            (.arr (requirements.map SecurityRequirement.toJson)) = some requirements :=
          Json.listOf?_map fun requirement hrequirement =>
            Json.dictOf?_ofDict (h.security requirements hsecurity requirement hrequirement)
              fun _ _ => Json.listOf?_map fun _ _ => rfl
        simp [fields, Dict.find?_append, Json.find?_listMember, Json.find?_optionalMember,
          Dict.find?, hsecurity, readSecurity, Json.orNull?, hread]
  generated _ _ _ _ := rfl
  identifier _ _ _ := rfl

theorem part_extension {key : String} (hkey : key ∉ fieldNames) :
    Part key (fun o => Dict.find? o.extensions key) some where
  reads hkeys h := by rw [h.extensions, Json.find?_others hkeys hkey]
  writes h := by rw [h.find?_members_of_not_mem hkey]
  generated _ _ _ _ := rfl
  identifier _ _ _ := rfl

end Operation

end ApiDoc
