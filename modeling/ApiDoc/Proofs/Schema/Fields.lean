import ApiDoc.Proofs.Json.Field
import ApiDoc.Proofs.Schema.Tidy

/-!
# The fields of a schema

A schema is written as its table of fields, and then its extensions.  It is read member by
member: the member of a field sets the part of the field, any other becomes an extension, and
everything else stays as it is.  So in the end each part is what its field finds among the
members.
-/

namespace ApiDoc.Schema

open Json (Row)

/-! ## Schemas inside schemas -/

/-- Elements are read from a list, or from one schema. -/
def itemsOf? : Json → Option (Items Schema)
  | .arr items => (Json.listOf? ofJson? (.arr items)).map .list
  | j => (ofJson? j).map .single

theorem itemsOf?_obj (members : List (String × Json)) :
    itemsOf? (.obj members) = (ofJson? (.obj members)).map .single := rfl

/-- The elements as a value. -/
def itemsValue : Items Schema → Json
  | .list slots => .arr (slots.map toJson)
  | .single item => item.toJson

theorem readPropertyList?_eq (members : List (String × Json)) (made : Dict Schema) :
    readPropertyList? members made =
      (members.mapM fun entry => (ofJson? entry.2).map fun s => (entry.1, s)).map
        (Dict.insertAll made) := by
  induction members generalizing made with
  | nil => rfl
  | cons entry rest ih =>
      rw [readPropertyList?, List.mapM_cons]
      cases ofJson? entry.2 with
      | none => rfl
      | some s =>
          dsimp only
          rw [ih]
          cases rest.mapM fun entry => (ofJson? entry.2).map fun s => (entry.1, s) <;> rfl

theorem readProperties?_eq (j : Json) :
    readProperties? j = Json.orNull? (Json.dictOf? ofJson?) j := by
  cases j with
  | obj members =>
      rw [readProperties?, readPropertyList?_eq]
      rfl
  | _ => rfl

theorem readSlots?_eq (values : List Json) : readSlots? values = values.mapM ofJson? := by
  induction values with
  | nil => rfl
  | cons j rest ih =>
      rw [readSlots?, List.mapM_cons, ih]
      cases ofJson? j with
      | none => rfl
      | some s => cases rest.mapM ofJson? <;> rfl

theorem readItems?_eq (j : Json) : readItems? j = Json.orNull? itemsOf? j := by
  cases j with
  | arr values =>
      have hlist : Json.orNull? itemsOf? (.arr values) =
          ((values.mapM ofJson?).map Items.list).map some := rfl
      rw [readItems?, readSlots?_eq, hlist, Option.map_map]
      rfl
  | obj members =>
      have hsingle : Json.orNull? itemsOf? (.obj members) =
          ((readMembers? members {}).map Items.single).map some := rfl
      rw [readItems?, hsingle, Option.map_map]
      rfl
  | _ => rfl

/-! ## The table -/

/-- The fields, in the order in which they are written. -/
def table : List (Row Schema) :=
  [.optional "$ref" reference (Json.orNull? Json.asStr?) .str,
    .optional "type" type (Json.orNull? Json.asStr?) .str,
    .optional "format" format (Json.orNull? Json.asStr?) .str,
    .optional "description" description (Json.orNull? Json.asStr?) .str,
    .optional "nullable" nullable (Json.orNull? Json.asBool?) .bool,
    .optional "enum" enum (Json.orNull? Json.asArr?) .arr,
    .optional "default" default (Json.orNull? some) id,
    .optional "example" sample (Json.orNull? some) id,
    .optional "minimum" minimum (Json.orNull? some) id,
    .optional "maximum" maximum (Json.orNull? some) id,
    .optional "minLength" minLength (Json.orNull? Json.asWord?) .ofNat,
    .optional "maxLength" maxLength (Json.orNull? Json.asWord?) .ofNat,
    .optional "minItems" minItems (Json.orNull? Json.asWord?) .ofNat,
    .optional "maxItems" maxItems (Json.orNull? Json.asWord?) .ofNat,
    .optional "properties" properties (Json.orNull? (Json.dictOf? ofJson?)) (Json.ofDict toJson),
    .optional "items" items (Json.orNull? itemsOf?) itemsValue,
    .optional "required" Schema.required (Json.orNull? (Json.listOf? Json.asStr?))
      fun names => .arr (names.map .str)]

theorem map_key_table : table.map Row.key = fieldNames := rfl

/-- A schema is its parts and its extensions. -/
theorem eq_of_parts {s t : Schema} (hparts : ∀ f ∈ table, f.part s = f.part t)
    (hextensions : s.extensions = t.extensions) : s = t := by
  cases s
  cases t
  simp only [table, Row.optional, List.forall_mem_cons, List.not_mem_nil, false_implies,
    implies_true, and_true] at hparts
  simp_all

theorem eq_of_isEmpty {s : Schema} (h : s.isEmpty = true) : s = {} := by
  cases s
  simp_all [isEmpty]

theorem fields_eq_written (s : Schema) : s.fields = Json.written table s := by
  have hproperties : propertiesMember s.properties =
      Json.optionalMember "properties" (Json.ofDict toJson) s.properties := by
    cases s.properties with
    | none => rfl
    | some properties =>
        rw [propertiesMember, propertyMembers_eq_map]
        rfl
  have hitems : itemsMember s.items = Json.optionalMember "items" itemsValue s.items := by
    cases s.items with
    | none => rfl
    | some items =>
        cases items with
        | list slots =>
            rw [itemsMember, slotItems_eq_map]
            rfl
        | single item => rfl
  rw [fields, hproperties, hitems]
  simp only [Json.written, table, List.flatMap_cons, List.flatMap_nil, List.append_nil,
    List.append_assoc, Row.member_optional]

/-! ## Reading one member -/

/-- Read one member. -/
def readMember? (key : String) (value : Json) (s : Schema) : Option Schema :=
  match key with
  | "properties" =>
      (Json.orNull? (Json.dictOf? ofJson?) value).map fun p => { s with properties := p }
  | "items" => (Json.orNull? itemsOf? value).map fun i => { s with items := i }
  | _ => readPlain? key value s

theorem readMembers?_cons (key : String) (value : Json) (rest : List (String × Json))
    (s : Schema) :
    readMembers? ((key, value) :: rest) s = (readMember? key value s).bind (readMembers? rest) := by
  rw [readMembers?.eq_def]
  simp only [readProperties?_eq, readItems?_eq]
  split
  · next t heq =>
      have hread : readMember? key value s = some t := heq
      rw [hread]
      rfl
  · next heq =>
      have hread : readMember? key value s = none := heq
      rw [hread]
      rfl

/-- One part of a schema gets this value, and everything else stays as it is. -/
structure Sets (f : Row Schema) (value : f.Value) (s t : Schema) : Prop where
  part : f.part t = value
  others : ∀ g ∈ table, g.key ≠ f.key → g.part t = g.part s
  extensions : t.extensions = s.extensions

/-- The member of a field is read by the field, and sets its part. -/
theorem exists_set {f : Row Schema} (hf : f ∈ table) (s : Schema) :
    ∃ set : f.Value → Schema, (∀ j, readMember? f.key j s = (f.read j).map set) ∧
      ∀ value, Sets f value s (set value) := by
  simp only [table, List.mem_cons, List.not_mem_nil, or_false] at hf
  rcases hf with rfl | rfl | rfl | rfl | rfl | rfl | rfl | rfl | rfl | rfl | rfl | rfl | rfl | rfl |
    rfl | rfl | rfl
  all_goals
    exact ⟨_, fun _ => rfl, fun value => ⟨rfl, by simp [table, Row.optional], rfl⟩⟩

theorem readMember?_of_not_mem {key : String} (h : key ∉ fieldNames) (value : Json)
    (s : Schema) :
    readMember? key value s =
      some { s with extensions := Dict.insert s.extensions key value } := by
  simp only [fieldNames, List.mem_cons, List.not_mem_nil, or_false, not_or] at h
  unfold readMember? readPlain?
  split <;> simp_all

/-- A member that was read set the part of its field, or became an extension. -/
theorem readMember?_cases {key : String} {j : Json} {s t : Schema}
    (h : readMember? key j s = some t) :
    (∃ f ∈ table, f.key = key ∧ ∃ value, f.read j = some value ∧ Sets f value s t) ∨
      key ∉ fieldNames ∧ t = { s with extensions := Dict.insert s.extensions key j } := by
  by_cases hkey : key ∈ fieldNames
  · obtain ⟨f, hf, rfl⟩ := List.mem_map.mp (map_key_table ▸ hkey : key ∈ table.map Row.key)
    obtain ⟨set, hread, hset⟩ := exists_set hf s
    rw [hread] at h
    obtain ⟨value, hvalue, rfl⟩ := Option.map_eq_some_iff.mp h
    exact .inl ⟨f, hf, rfl, value, hvalue, hset value⟩
  · rw [readMember?_of_not_mem hkey] at h
    exact .inr ⟨hkey, (Option.some.inj h).symm⟩

/-- No two fields have the same key. -/
theorem eq_of_key_eq {f g : Row Schema} (hf : f ∈ table) (hg : g ∈ table)
    (h : f.key = g.key) : f = g :=
  List.inj_on_of_nodup_map (by decide : (table.map Row.key).Nodup) hf hg h

/-- One member is where the part of its field comes from, and of no other. -/
theorem part_of_readMember? {f : Row Schema} (hf : f ∈ table) {key : String} {j : Json}
    {s t : Schema} (h : readMember? key j s = some t) :
    (if key = f.key then f.read j else some (f.part s)) = some (f.part t) := by
  rcases readMember?_cases h with ⟨g, hg, rfl, value, hvalue, hset⟩ | ⟨hkey, rfl⟩
  · split
    · next heq =>
        obtain rfl := eq_of_key_eq hg hf heq
        rw [hvalue, hset.part]
    · next hne => rw [hset.others f hf (Ne.symm hne)]
  · have hne : key ≠ f.key := by
      rintro rfl
      exact hkey (map_key_table ▸ List.mem_map_of_mem hf)
    rw [if_neg hne]
    simp only [table, List.mem_cons, List.not_mem_nil, or_false] at hf
    rcases hf with rfl | rfl | rfl | rfl | rfl | rfl | rfl | rfl | rfl | rfl | rfl | rfl | rfl |
      rfl | rfl | rfl | rfl
    all_goals rfl

/-! ## Reading all members -/

/-- The member of a field sets its part; without one the part stays as it is. -/
theorem part_of_readMembers? {f : Row Schema} (hf : f ∈ table)
    {members : List (String × Json)} (hkeys : (Dict.keys members).Nodup) {s t : Schema}
    (h : readMembers? members s = some t) :
    (Dict.find? members f.key).elim (some (f.part s)) f.read = some (f.part t) := by
  induction members generalizing s with
  | nil =>
      obtain rfl : s = t := Option.some.inj h
      rfl
  | cons member rest ih =>
      obtain ⟨key, j⟩ := member
      obtain ⟨hkey, hrest⟩ := List.nodup_cons.mp hkeys
      rw [readMembers?_cons] at h
      obtain ⟨u, hu, hrun⟩ := Option.bind_eq_some_iff.mp h
      have hstep := part_of_readMember? hf hu
      have hpart := ih hrest hrun
      rw [Dict.find?]
      split
      · next heq =>
          have hnone : Dict.find? rest f.key = none :=
            Dict.find?_eq_none_iff.mpr fun value hvalue =>
              hkey (List.mem_map.mpr ⟨(f.key, value), hvalue, heq.symm⟩)
          rw [hnone] at hpart
          rw [if_pos heq] at hstep
          exact hstep.trans hpart
      · next hne =>
          rw [if_neg hne] at hstep
          rw [hstep]
          exact hpart

theorem extensions_of_readMembers? {members : List (String × Json)} {s t : Schema}
    (h : readMembers? members s = some t) :
    t.extensions = Dict.insertAll s.extensions
      (members.filter fun member => !fieldNames.contains member.1) := by
  induction members generalizing s with
  | nil =>
      obtain rfl : s = t := Option.some.inj h
      rfl
  | cons member rest ih =>
      obtain ⟨key, j⟩ := member
      rw [readMembers?_cons] at h
      obtain ⟨u, hu, hrun⟩ := Option.bind_eq_some_iff.mp h
      rw [ih hrun]
      rcases readMember?_cases hu with ⟨f, hf, rfl, value, -, hset⟩ | ⟨hkey, rfl⟩
      · have hmem : f.key ∈ fieldNames := map_key_table ▸ List.mem_map_of_mem hf
        rw [List.filter_cons_of_neg (by simpa using hmem), hset.extensions]
      · rw [List.filter_cons_of_pos (by simpa using hkey)]
        rfl

/-- Members are read if each of them is. -/
theorem exists_readMembers? {members : List (String × Json)}
    (h : ∀ f ∈ table, ∀ j, (f.key, j) ∈ members → ∃ value, f.read j = some value) (s : Schema) :
    ∃ t, readMembers? members s = some t := by
  induction members generalizing s with
  | nil => exact ⟨s, rfl⟩
  | cons member rest ih =>
      obtain ⟨key, j⟩ := member
      obtain ⟨u, hu⟩ : ∃ u, readMember? key j s = some u := by
        by_cases hkey : key ∈ fieldNames
        · obtain ⟨f, hf, rfl⟩ :=
            List.mem_map.mp (map_key_table ▸ hkey : key ∈ table.map Row.key)
          obtain ⟨set, hread, -⟩ := exists_set hf s
          obtain ⟨value, hvalue⟩ := h f hf j List.mem_cons_self
          exact ⟨set value, by rw [hread, hvalue, Option.map_some]⟩
        · exact ⟨_, readMember?_of_not_mem hkey j s⟩
      obtain ⟨t, ht⟩ := ih (fun f hf k hk => h f hf k (List.mem_cons_of_mem _ hk)) u
      exact ⟨t, by rw [readMembers?_cons, hu, Option.bind_some, ht]⟩

theorem absent_eq {f : Row Schema} (hf : f ∈ table) : f.absent = some (f.part {}) := by
  simp only [table, List.mem_cons, List.not_mem_nil, or_false] at hf
  rcases hf with rfl | rfl | rfl | rfl | rfl | rfl | rfl | rfl | rfl | rfl | rfl | rfl | rfl | rfl |
    rfl | rfl | rfl
  all_goals rfl

/-- A schema is read from an object exactly if the object holds it. -/
theorem ofJson?_obj_iff {members : List (String × Json)} (hkeys : (Dict.keys members).Nodup)
    {s : Schema} :
    ofJson? (.obj members) = some s ↔ Json.Holds table extensions members s := by
  rw [ofJson?]
  constructor
  · intro h
    refine ⟨fun f hf => ?_, extensions_of_readMembers? h⟩
    have hpart := part_of_readMembers? hf hkeys h
    rwa [← absent_eq hf] at hpart
  · rintro ⟨hfound, hextensions⟩
    obtain ⟨t, ht⟩ : ∃ t, readMembers? members {} = some t := by
      refine exists_readMembers? (fun f hf j hj => ?_) {}
      have hread := hfound f hf
      rw [Row.found, Dict.find?_of_mem_of_nodup hkeys hj] at hread
      exact ⟨_, hread⟩
    rw [ht]
    refine congrArg some (eq_of_parts (fun f hf => ?_) ?_)
    · have hpart := part_of_readMembers? hf hkeys ht
      rw [← absent_eq hf] at hpart
      exact Option.some.inj (hpart.symm.trans (hfound f hf))
    · exact (extensions_of_readMembers? ht).trans hextensions.symm

end ApiDoc.Schema
