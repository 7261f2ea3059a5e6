import ApiDoc.Proofs.Json.Shape
import ApiDoc.Proofs.Schema.Tidy

/-!
# Schemas that were read

A schema that was read from a value without repeated keys is tidy: every member settles
one field, and a member that settles none becomes an extension.
-/

namespace ApiDoc.Schema

theorem tidy_of_map {α : Type} {value : Option α} {set : α → Schema} {s : Schema}
    (h : value.map set = some s) (hset : ∀ a, value = some a → (set a).Tidy) : s.Tidy := by
  obtain ⟨a, ha, rfl⟩ := Option.map_eq_some_iff.mp h
  exact hset a ha

theorem distinct_of_orNull? {j : Json} {value : Option Json} (hj : j.Distinct)
    (h : Json.orNull? some j = some value) : ∀ v ∈ value, v.Distinct := fun v hv =>
  Option.some.inj (Json.of_orNull? h v hv) ▸ hj

theorem tidy_of_readPlain? {key : String} {j : Json} {s t : Schema} (hs : s.Tidy)
    (hj : j.Distinct) (hkey : key ≠ "properties" ∧ key ≠ "items")
    (h : readPlain? key j s = some t) : t.Tidy := by
  obtain ⟨henum, hdefault, hsample, hminimum, hmaximum⟩ := forall_mem_values.mp hs.here.values
  unfold readPlain? at h
  split at h
  · exact tidy_of_map h fun _ _ => hs.congr rfl rfl rfl rfl
  · exact tidy_of_map h fun _ _ => hs.congr rfl rfl rfl rfl
  · exact tidy_of_map h fun _ _ => hs.congr rfl rfl rfl rfl
  · exact tidy_of_map h fun _ _ => hs.congr rfl rfl rfl rfl
  · exact tidy_of_map h fun _ _ => hs.congr rfl rfl rfl rfl
  · refine tidy_of_map h fun value hvalue =>
      hs.withValues (forall_mem_values.mpr ⟨?_, hdefault, hsample, hminimum, hmaximum⟩) rfl rfl rfl
    intro js hjs
    have harr := Json.of_orNull? hvalue js hjs
    cases hj with
    | arr hitems => exact Option.some.inj harr ▸ hitems
    | _ => cases harr
  · exact tidy_of_map h fun value hvalue =>
      hs.withValues (forall_mem_values.mpr
        ⟨henum, distinct_of_orNull? hj hvalue, hsample, hminimum, hmaximum⟩) rfl rfl rfl
  · exact tidy_of_map h fun value hvalue =>
      hs.withValues (forall_mem_values.mpr
        ⟨henum, hdefault, distinct_of_orNull? hj hvalue, hminimum, hmaximum⟩) rfl rfl rfl
  · exact tidy_of_map h fun value hvalue =>
      hs.withValues (forall_mem_values.mpr
        ⟨henum, hdefault, hsample, distinct_of_orNull? hj hvalue, hmaximum⟩) rfl rfl rfl
  · exact tidy_of_map h fun value hvalue =>
      hs.withValues (forall_mem_values.mpr
        ⟨henum, hdefault, hsample, hminimum, distinct_of_orNull? hj hvalue⟩) rfl rfl rfl
  · exact tidy_of_map h fun _ _ => hs.congr rfl rfl rfl rfl
  · exact tidy_of_map h fun _ _ => hs.congr rfl rfl rfl rfl
  · exact tidy_of_map h fun _ _ => hs.congr rfl rfl rfl rfl
  · exact tidy_of_map h fun _ _ => hs.congr rfl rfl rfl rfl
  · exact tidy_of_map h fun _ _ => hs.congr rfl rfl rfl rfl
  · obtain rfl := Option.some.inj h
    refine .intro ⟨hs.here.values, hs.here.properties, ?_⟩ hs.inProperties hs.inItems
    refine hs.here.extensions.insert ?_ hj
    simp_all [fieldNames]

mutual

/-- A schema that was read from a value without repeated keys is tidy. -/
theorem tidy_of_ofJson? : (j : Json) → j.Distinct → ∀ {s}, ofJson? j = some s → s.Tidy
  | .obj members, hj, s, h =>
      tidy_of_readMembers? members (Json.distinct_obj_iff.mp hj).2 tidy_empty h
  | .null, _, _, h | .bool _, _, _, h | .num _, _, _, h | .str _, _, _, h | .arr _, _, _, h => by
      cases h

theorem tidy_of_readMembers? : (members : List (String × Json)) →
    (∀ entry ∈ members, entry.2.Distinct) → ∀ {s t}, s.Tidy → readMembers? members s = some t →
      t.Tidy
  | [], _, s, t, hs, h => Option.some.inj h ▸ hs
  | (key, j) :: rest, hmembers, s, t, hs, h => by
      obtain ⟨hj, hrest⟩ := List.forall_mem_cons.mp hmembers
      unfold readMembers? at h
      split at h
      · next made hmade =>
          refine tidy_of_readMembers? rest hrest ?_ h
          split at hmade
          · refine tidy_of_map hmade fun properties hproperties => ?_
            have hread := tidy_of_readProperties? j hj hproperties
            exact .intro
              ⟨hs.here.values, fun ps hps => (hread ps hps).1, hs.here.extensions⟩
              (fun ps hps => (hread ps hps).2) hs.inItems
          · refine tidy_of_map hmade fun items hitems => ?_
            exact .intro ⟨hs.here.values, hs.here.properties, hs.here.extensions⟩
              hs.inProperties (tidy_of_readItems? j hj hitems)
          · next hproperties hitems =>
              exact tidy_of_readPlain? hs hj ⟨hproperties, hitems⟩ hmade
      · cases h

theorem tidy_of_readProperties? : (j : Json) → j.Distinct → ∀ {properties},
    readProperties? j = some properties → ∀ ps ∈ properties,
      Dict.Increasing ps ∧ ∀ entry ∈ ps, entry.2.Tidy
  | .null, _, _, h => by
      obtain rfl := Option.some.inj h
      simp
  | .obj members, hj, properties, h => by
      rw [readProperties?] at h
      obtain ⟨ps, hps, rfl⟩ := Option.map_eq_some_iff.mp h
      rintro _ ⟨⟩
      exact tidy_of_readPropertyList? members (Json.distinct_obj_iff.mp hj).2
        List.Pairwise.nil (by simp) hps
  | .bool _, _, _, h | .num _, _, _, h | .str _, _, _, h | .arr _, _, _, h => by cases h

theorem tidy_of_readPropertyList? : (members : List (String × Json)) →
    (∀ entry ∈ members, entry.2.Distinct) → ∀ {made properties : Dict Schema},
      made.Increasing → (∀ entry ∈ made, entry.2.Tidy) →
      readPropertyList? members made = some properties →
      properties.Increasing ∧ ∀ entry ∈ properties, entry.2.Tidy
  | [], _, made, properties, hincreasing, hmade, h => Option.some.inj h ▸ ⟨hincreasing, hmade⟩
  | (name, j) :: rest, hmembers, made, properties, hincreasing, hmade, h => by
      obtain ⟨hj, hrest⟩ := List.forall_mem_cons.mp hmembers
      rw [readPropertyList?] at h
      split at h
      · next s hs =>
          exact tidy_of_readPropertyList? rest hrest (hincreasing.insert name s)
            (Dict.forall_mem_insert (p := fun entry : String × Schema => entry.2.Tidy)
              (tidy_of_ofJson? j hj hs) hmade) h
      · cases h

theorem tidy_of_readItems? : (j : Json) → j.Distinct → ∀ {items}, readItems? j = some items →
    ∀ i ∈ items, ∀ item ∈ i.schemas, item.Tidy
  | .null, _, _, h => by
      obtain rfl := Option.some.inj h
      simp
  | .arr values, hj, items, h => by
      rw [readItems?] at h
      obtain ⟨slots, hslots, rfl⟩ := Option.map_eq_some_iff.mp h
      rintro _ ⟨⟩
      exact tidy_of_readSlots? values (Json.distinct_arr_iff.mp hj) hslots
  | .obj members, hj, items, h => by
      rw [readItems?] at h
      obtain ⟨s, hs, rfl⟩ := Option.map_eq_some_iff.mp h
      rintro _ ⟨⟩
      exact List.forall_mem_singleton.mpr
        (tidy_of_readMembers? members (Json.distinct_obj_iff.mp hj).2 tidy_empty hs)
  | .bool _, _, _, h | .num _, _, _, h | .str _, _, _, h => by cases h

theorem tidy_of_readSlots? : (values : List Json) → (∀ j ∈ values, j.Distinct) → ∀ {slots},
    readSlots? values = some slots → ∀ slot ∈ slots, slot.Tidy
  | [], _, slots, h => by
      obtain rfl := Option.some.inj h
      simp
  | j :: rest, hvalues, slots, h => by
      obtain ⟨hj, hrest⟩ := List.forall_mem_cons.mp hvalues
      rw [readSlots?] at h
      split at h
      · next s hs =>
          obtain ⟨others, hothers, rfl⟩ := Option.map_eq_some_iff.mp h
          exact List.forall_mem_cons.mpr
            ⟨tidy_of_ofJson? j hj hs, tidy_of_readSlots? rest hrest hothers⟩
      · cases h

end

end ApiDoc.Schema
