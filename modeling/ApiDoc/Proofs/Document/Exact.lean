import ApiDoc.Proofs.Document.Overlay
import ApiDoc.Proofs.Document.RoundTrip
import ApiDoc.Proofs.Json.Place
import ApiDoc.Proofs.Schema.Exact

/-!
# Overlaid operations are exact

An operation that was read is exact, so it is what it is written as.  Every operation that
comes from the empty one by overlaying values is exact, and overlaying one more value changes
the written operation in one place.  Overlaying a single tag shows it: the tag replaces one of
the list or follows its last, but an empty list is not written, and a list is never made on
the way to a place.
-/

namespace ApiDoc

open Json (Row)

/-! ## Parts that were read -/

theorem Parameter.exact_of_ofJson? (j : Json) (hj : j.Distinct) (p : Parameter)
    (h : ofJson? j = some p) : p.Exact := by
  obtain ⟨members, rfl, hparts, hextensions⟩ := ofJson?_eq_some_iff.mp h
  have hvalues := (Json.distinct_obj_iff.mp hj).2
  simp only [table, List.forall_mem_cons, Row.found_skipping] at hparts
  obtain ⟨-, -, -, -, hschema, -⟩ := hparts
  exact ⟨Record.of_defaulted? hvalues Schema.exact_empty Schema.exact_of_ofJson? hschema,
    hextensions ▸ Json.extends_others hvalues⟩

theorem MediaType.exact_of_ofJson? (j : Json) (hj : j.Distinct) (m : MediaType)
    (h : ofJson? j = some m) : m.Exact := by
  obtain ⟨members, rfl, hparts, hextensions⟩ := ofJson?_eq_some_iff.mp h
  have hvalues := (Json.distinct_obj_iff.mp hj).2
  simp only [table, List.forall_mem_cons, Row.found_skipping] at hparts
  obtain ⟨hschema, -⟩ := hparts
  exact ⟨Record.of_defaulted? hvalues Schema.exact_empty Schema.exact_of_ofJson? hschema,
    hextensions ▸ Json.extends_others hvalues⟩

theorem Dict.increasingOf_nil {α : Type} {p : α → Prop} : IncreasingOf p [] :=
  ⟨List.Pairwise.nil, List.forall_mem_nil _⟩

/-- A dictionary that was read has what each of its values has. -/
theorem Json.increasingOf_of_dictOf? {α : Type} {q : α → Prop} {read : Json → Option α}
    (hread : ∀ j : Json, j.Distinct → ∀ a, read j = some a → q a) (j : Json) (hj : j.Distinct)
    (d : Dict α) (h : dictOf? read j = some d) : d.IncreasingOf q :=
  have hd := forall_of_dictOf? hread hj h
  ⟨hd.1, hd.2⟩

theorem RequestBody.exact_of_ofJson? (j : Json) (hj : j.Distinct) (b : RequestBody)
    (h : ofJson? j = some b) : b.Exact := by
  obtain ⟨members, rfl, hparts, hextensions⟩ := ofJson?_eq_some_iff.mp h
  have hvalues := (Json.distinct_obj_iff.mp hj).2
  simp only [table, List.forall_mem_cons, Row.found_defaulted] at hparts
  obtain ⟨-, -, hcontent, -⟩ := hparts
  exact ⟨Record.of_defaulted? hvalues Dict.increasingOf_nil
    (Json.increasingOf_of_dictOf? MediaType.exact_of_ofJson?) hcontent,
    hextensions ▸ Json.extends_others hvalues⟩

theorem Response.exact_of_ofJson? (j : Json) (hj : j.Distinct) (r : Response)
    (h : ofJson? j = some r) : r.Exact := by
  obtain ⟨members, rfl, hparts, hextensions⟩ := ofJson?_eq_some_iff.mp h
  have hvalues := (Json.distinct_obj_iff.mp hj).2
  simp only [table, List.forall_mem_cons, Row.found_optional] at hparts
  obtain ⟨-, hcontent, -⟩ := hparts
  exact ⟨Record.of_optional? hvalues (fun _ hj _ hread => Json.forall_of_orNull?
      (Json.increasingOf_of_dictOf? MediaType.exact_of_ofJson?) hj hread) hcontent,
    hextensions ▸ Json.extends_others hvalues⟩

namespace Operation

/-- An operation that was read from a value without repeated keys is exact. -/
theorem exact_of_ofJson? {j : Json} (hj : j.Distinct) {o : Operation}
    (h : ofJson? j = some o) : o.Exact := by
  obtain ⟨members, rfl, hparts, hextensions⟩ := ofJson?_eq_some_iff.mp h
  have hvalues := (Json.distinct_obj_iff.mp hj).2
  simp only [table, List.forall_mem_cons, Row.found_defaulted, Row.found_optional,
    Row.found_list] at hparts
  obtain ⟨-, -, -, -, -, hparameters, hbody, hresponses, -, -⟩ := hparts
  exact
    { parameters :=
        Record.of_defaulted? (q := fun ps : List Parameter => ∀ p ∈ ps, p.Exact) hvalues
          (List.forall_mem_nil _)
          (fun _ hj _ hread => Json.forall_of_listOf? Parameter.exact_of_ofJson? hj hread)
          hparameters
      requestBody :=
        Record.of_optional? hvalues
          (fun _ hj _ hread => Json.forall_of_orNull? RequestBody.exact_of_ofJson? hj hread) hbody
      responses :=
        Record.of_defaulted? hvalues Dict.increasingOf_nil
          (Json.increasingOf_of_dictOf? Response.exact_of_ofJson?) hresponses
      security := (readFrom_of_ofJson? h).increasing_security hvalues
      extensions := hextensions ▸ Json.extends_others hvalues }

theorem exact_empty : Exact {} where
  parameters := List.forall_mem_nil _
  requestBody := by simp
  responses := Dict.increasingOf_nil
  security := by simp
  extensions := Json.extends_nil _

/-- Whatever an operation was, it is exact after a value has been overlaid. -/
theorem exact_of_mergeValue {o merged : Operation} {key : String} {value : Json}
    (hvalue : value.Distinct) (h : o.mergeValue key value = .ok merged) : merged.Exact := by
  rw [mergeValue] at h
  split at h
  · next read hread =>
      obtain rfl := Except.ok.inj h
      exact exact_of_ofJson?
        (Json.distinct_setDotted (Json.distinct_merged o.toJson) hvalue key) hread
  · cases h

/-- An operation that comes from the empty one by overlaying values.  A value is a tree whose
objects repeat no key. -/
inductive Reached : Operation → Prop
  | empty : Reached {}
  | merge {o merged : Operation} {key : String} {value : Json} (h : Reached o)
      (hvalue : value.Distinct) (hmerge : o.mergeValue key value = .ok merged) : Reached merged

theorem Reached.exact {o : Operation} (h : o.Reached) : o.Exact := by
  cases h with
  | empty => exact exact_empty
  | merge _ hvalue hmerge => exact exact_of_mergeValue hvalue hmerge

/-! ## Overlaying a tag -/

section Tags

variable {o : Operation} {i : Nat}

theorem Exact.merged_toJson (h : o.Exact) : o.toJson.merged = o.toJson :=
  Json.merged_of_distinct o.toJson (h.tidy.distinct_toJson_iff.mpr fun p hp =>
    (h.parameters p hp).schemaUnshared)

theorem Exact.withTags (h : o.Exact) (tags : List String) : Exact { o with tags } :=
  ⟨h.parameters, h.requestBody, h.responses, h.security, h.extensions⟩

/-- Tags are written in front of everything else. -/
theorem toJson_of_tags (h : o.tags ≠ []) :
    o.toJson = .obj (("tags", .arr (o.tags.map .str)) :: members { o with tags := [] }) := by
  obtain ⟨first, rest, htags⟩ := List.exists_cons_of_ne_nil h
  rw [toJson_eq_obj, members, fields, htags]
  rfl

theorem segments_tag (i : Nat) :
    Json.segments ("tags." ++ toString i) = ["tags", toString i] := by
  have hkey : "tags." ++ toString i = "tags" ++ "." ++ toString i := rfl
  rw [hkey, Json.segments_append_dot, Json.segments_toString]
  rfl

/-- One of some tags is written where the written operation has it, or behind the last. -/
theorem setDotted_tag (h : o.tags ≠ []) (hi : i ≤ o.tags.length) (tag : String) :
    Json.setDotted o.toJson ("tags." ++ toString i) (.str tag) =
      toJson { o with tags := putItem o.tags i tag } := by
  have hslot : Json.slot? (toString i) (o.tags.map Json.str).length = some i :=
    Json.slot?_eq_some_iff.mpr ⟨Json.position?_toString i, by rwa [List.length_map]⟩
  rw [Json.setDotted, segments_tag, toJson_of_tags h, Json.setAt_obj, Dict.find?_cons_self,
    Option.getD_some, Json.setAt_arr hslot, Json.setAt, ← map_putItem,
    toJson_of_tags (putItem_ne_nil hi tag)]
  simp [Dict.put]

/-- Without tags, the place of the first one becomes a member of an object, which is no list of
tags. -/
theorem ofJson?_setDotted_tag (ho : o.Exact) (h : o.tags = []) (i : Nat) (tag : String) :
    ofJson? (Json.setDotted o.toJson ("tags." ++ toString i) (.str tag)) = none := by
  have hmissing : Dict.find? (Json.written table o ++ o.extensions) "tags" = none := by
    have hrow : .list "tags" tags Json.asStr? .str ∈ table := List.mem_cons_self
    refine (Json.find?_written_append (by decide) hrow ho.extensions o).trans ?_
    change (if o.tags.isEmpty then none else some _) = none
    rw [h]
    rfl
  rw [Json.setDotted, segments_tag, toJson_eq_written, Json.setAt_obj, hmissing,
    Option.getD_none, Option.eq_none_iff_forall_ne_some]
  intro merged hmerged
  have hread := (readFrom_of_ofJson? hmerged).tags
  rw [Record.defaulted?_named, Dict.find?_put, if_pos rfl] at hread
  cases hread

/-- Overlaying one tag of an operation that comes from the empty one: with tags, it takes the
place of the one at its position or follows the last, and nothing else changes; without any,
the first tag cannot be given. -/
theorem mergeValue_tag (h : o.Reached) (hi : i ≤ o.tags.length) (tag : String) :
    o.mergeValue ("tags." ++ toString i) (.str tag) =
      if o.tags = [] then .error (.badTag ("tags." ++ toString i) .misfit)
      else .ok { o with tags := putItem o.tags i tag } := by
  have ho := h.exact
  rw [mergeValue, ho.merged_toJson]
  by_cases htags : o.tags = []
  · rw [if_pos htags, ofJson?_setDotted_tag ho htags]
  · rw [if_neg htags, setDotted_tag htags hi, ofJson?_toJson (ho.withTags _)]

/-- A tag behind the last one, and one in the place of the first. -/
theorem mergeValue_tag_pets :
    let o : Operation := { tags := ["Pets"], summary := "List pets" }
    o.Reached ∧
      o.mergeValue ("tags." ++ toString 1) (.str "Animals") =
        .ok { o with tags := ["Pets", "Animals"] } ∧
      o.mergeValue ("tags." ++ toString 0) (.str "Animals") =
        .ok { o with tags := ["Animals"] } := by
  intro o
  have htags : mergeValue {} "tags" (.arr [.str "Pets"]) = .ok { tags := ["Pets"] } := by rfl
  have hsummary : mergeValue { tags := ["Pets"] } "summary" (.str "List pets") = .ok o := by rfl
  have hlist : (Json.arr [.str "Pets"]).Distinct := .arr (List.forall_mem_singleton.mpr .str)
  have ho : o.Reached := .merge (.merge .empty hlist htags) .str hsummary
  exact ⟨ho, mergeValue_tag ho (by decide) "Animals", mergeValue_tag ho (by decide) "Animals"⟩

/-- The first tag of an operation without any cannot be given by its position. -/
theorem not_mergeValue_tag_empty :
    Reached {} ∧ 0 ≤ (({} : Operation).tags).length ∧
      ¬ ∃ merged, mergeValue {} ("tags." ++ toString 0) (.str "Users") = .ok merged := by
  refine ⟨.empty, Nat.zero_le _, ?_⟩
  rintro ⟨merged, hmerged⟩
  cases hmerged

end Tags

end Operation

end ApiDoc
