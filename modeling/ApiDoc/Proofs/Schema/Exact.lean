import ApiDoc.Proofs.Schema.Read
import ApiDoc.Proofs.Schema.RoundTrip

/-!
# Schemas that were read are exact

`null` is read as no value, and a length only if it fits a word.  So nothing in a schema that
was read is written like something else, and such a schema is read back as it was.  The
induction is on the value, and says the same of properties and elements.
-/

namespace ApiDoc

namespace Json

theorem ne_null_of_orNull? {j : Json} {value : Option Json}
    (h : orNull? some j = some value) : value ≠ some null := by
  rintro rfl
  obtain rfl : j = null := Option.some.inj (of_orNull? h null rfl)
  cases h

theorem lt_of_asWord? {j : Json} {n : Nat} (h : j.asWord? = some n) : n < 2 ^ 64 := by
  cases j with
  | num number =>
      cases number with
      | int i =>
          rw [asWord?] at h
          split at h
          · next hrange =>
              obtain rfl := Option.some.inj h
              rw [Bool.and_eq_true, decide_eq_true_iff, decide_eq_true_iff] at hrange
              have hbound : i < ((2 ^ 64 : Nat) : Int) := hrange.2
              omega
          · cases h
      | float _ => cases h
  | _ => cases h

end Json

namespace Schema

open Json (Row)

theorem exact_empty : Exact {} :=
  .intro ⟨tidy_empty.here, by simp, by simp⟩ (by simp) (by simp)

/-- Whatever is read from the value as a schema, as properties or as elements, is exact. -/
structure ReadsExact (j : Json) : Prop where
  schema : ∀ s, ofJson? j = some s → s.Exact
  properties : ∀ ps, Json.dictOf? ofJson? j = some ps → ∀ entry ∈ ps, entry.2.Exact
  items : ∀ items, itemsOf? j = some items → ∀ item ∈ items.schemas, item.Exact

/-- A schema that was read is exact, if the properties and elements in it are. -/
theorem exact_of_holds {members : List (String × Json)} {s : Schema}
    (hs : s.Tidy) (hread : ∀ member ∈ members, ReadsExact member.2)
    (h : Json.Holds table extensions members s) : s.Exact := by
  have hvalue : ∀ {name : String} {value : Option Json},
      (Record.named members).optional? name (Json.orNull? some) = some value →
        value ≠ some .null := by
    intro name value hfound
    have hnot : ∀ j ∈ value, j ≠ .null :=
      Record.forall_of_optional? (fun _ _ _ hmade j hj heq =>
        Json.ne_null_of_orNull? hmade (heq ▸ hj)) hfound
    exact fun hnull => hnot .null hnull rfl
  have hlength : ∀ {name : String} {length : Option Nat},
      (Record.named members).optional? name (Json.orNull? Json.asWord?) = some length →
        ∀ n ∈ length, n < 2 ^ 64 :=
    fun hfound => Record.forall_of_optional? (fun _ _ _ hmade n hn =>
      Json.lt_of_asWord? (Json.of_orNull? hmade n hn)) hfound
  have hparts := h.parts
  simp only [table, List.forall_mem_cons, Row.found_optional] at hparts
  obtain ⟨-, -, -, -, -, -, hdefault, hsample, hminimum, hmaximum, hminLength, hmaxLength,
    hminItems, hmaxItems, hproperties, hitems, -, -⟩ := hparts
  refine .intro ⟨hs.here, ?_, ?_⟩ ?_ ?_
  · simp only [List.forall_mem_cons]
    exact ⟨hvalue hdefault, hvalue hsample, hvalue hminimum, hvalue hmaximum,
      List.forall_mem_nil _⟩
  · simp only [List.forall_mem_cons]
    exact ⟨hlength hminLength, hlength hmaxLength, hlength hminItems, hlength hmaxItems,
      List.forall_mem_nil _⟩
  · exact Record.forall_of_optional? (fun member hmember _ hmade ps hps =>
      (hread member hmember).properties ps (Json.of_orNull? hmade ps hps)) hproperties
  · exact Record.forall_of_optional? (fun member hmember _ hmade items hi =>
      (hread member hmember).items items (Json.of_orNull? hmade items hi)) hitems

theorem readsExact_of_distinct {j : Json} (hj : j.Distinct) : ReadsExact j := by
  induction hj with
  | @arr values hvalues ih =>
      refine ⟨by rintro _ ⟨⟩, by rintro _ ⟨⟩, fun items hitems => ?_⟩
      obtain ⟨slots, hslots, rfl⟩ := Option.map_eq_some_iff.mp hitems
      exact Json.forall_mem_of_listOf? (fun value hvalue => (ih value hvalue).schema) hslots
  | @obj members hkeys hvalues ih =>
      have hschema : ∀ s, ofJson? (.obj members) = some s → s.Exact := fun s hs =>
        exact_of_holds (tidy_of_ofJson? _ (.obj hkeys hvalues) hs) ih
          ((ofJson?_obj_iff hkeys).mp hs)
      refine ⟨hschema, fun ps hps => ?_, fun items hitems => ?_⟩
      · exact Json.forall_mem_of_dictOf? (fun member hmember => (ih member hmember).schema) hps
      · rw [itemsOf?_obj] at hitems
        obtain ⟨s, hs, rfl⟩ := Option.map_eq_some_iff.mp hitems
        exact List.forall_mem_singleton.mpr (hschema s hs)
  | null | bool | num | str => exact ⟨by rintro _ ⟨⟩, by rintro _ ⟨⟩, by rintro _ ⟨⟩⟩

/-- A schema that was read from a value without repeated keys is exact. -/
theorem exact_of_ofJson? (j : Json) (hj : j.Distinct) (s : Schema) (h : ofJson? j = some s) :
    s.Exact :=
  (readsExact_of_distinct hj).schema s h

end Schema

end ApiDoc
