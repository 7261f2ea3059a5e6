import ApiDoc.Proofs.Except
import ApiDoc.Proofs.Json.Members

/-!
# Typed values that were read

A reader is put together from smaller ones.  What each part gives for values without
repeated keys, the whole gives as well.
-/

namespace ApiDoc

namespace Json

theorem of_orNull? {α : Type} {read : Json → Option α} {j : Json} {value : Option α}
    (h : orNull? read j = some value) : ∀ a ∈ value, read j = some a := by
  intro a ha
  obtain rfl : value = some a := ha
  unfold orNull? at h
  split at h
  · cases h
  · obtain ⟨b, hb, heq⟩ := Option.map_eq_some_iff.mp h
    exact Option.some.inj heq ▸ hb

theorem eq_str_of_asStr? {j : Json} {text : String} (h : j.asStr? = some text) :
    j = str text := by
  cases j with
  | str s => exact congrArg str (Option.some.inj h)
  | _ => cases h

theorem eq_bool_of_asBool? {j : Json} {flag : Bool} (h : j.asBool? = some flag) :
    j = bool flag := by
  cases j with
  | bool b => exact congrArg bool (Option.some.inj h)
  | _ => cases h

theorem eq_obj_of_asObj? {j : Json} {members : List (String × Json)}
    (h : j.asObj? = some members) : j = obj members := by
  cases j with
  | obj members => exact congrArg obj (Option.some.inj h)
  | _ => cases h

variable {α : Type} {q : α → Prop}

theorem forall_of_orNull? {read : Json → Option α}
    (hread : ∀ j : Json, j.Distinct → ∀ a, read j = some a → q a) {j : Json}
    (hj : j.Distinct) {value : Option α} (h : orNull? read j = some value) : ∀ a ∈ value, q a :=
  fun a ha => hread j hj a (of_orNull? h a ha)

theorem forall_mem_of_listOf? {read : Json → Option α} {items : List Json}
    (hread : ∀ item ∈ items, ∀ a, read item = some a → q a) {values : List α}
    (h : listOf? read (arr items) = some values) : ∀ a ∈ values, q a := by
  intro a ha
  obtain ⟨item, hitem, hmade⟩ := exists_of_mem_mapM_some h ha
  exact hread item hitem a hmade

theorem forall_of_listOf? {read : Json → Option α}
    (hread : ∀ j : Json, j.Distinct → ∀ a, read j = some a → q a) {j : Json}
    (hj : j.Distinct) {values : List α} (h : listOf? read j = some values) :
    ∀ a ∈ values, q a := by
  cases hj with
  | arr hitems => exact forall_mem_of_listOf? (fun item hitem => hread item (hitems item hitem)) h
  | _ => cases h

theorem forall_mem_of_dictOf? {read : Json → Option α} {members : List (String × Json)}
    (hread : ∀ member ∈ members, ∀ a, read member.2 = some a → q a) {d : Dict α}
    (h : dictOf? read (obj members) = some d) : ∀ entry ∈ d, q entry.2 := by
  obtain ⟨entries, hentries, rfl⟩ := Option.map_eq_some_iff.mp h
  refine Dict.forall_mem_ofList fun entry hentry => ?_
  obtain ⟨member, hmember, hmade⟩ := exists_of_mem_mapM_some hentries hentry
  obtain ⟨a, ha, rfl⟩ := Option.map_eq_some_iff.mp hmade
  exact hread member hmember a ha

theorem increasing_of_dictOf? {read : Json → Option α} {j : Json} {d : Dict α}
    (h : dictOf? read j = some d) : d.Increasing := by
  unfold dictOf? at h
  split at h
  · obtain ⟨entries, -, rfl⟩ := Option.map_eq_some_iff.mp h
    exact Dict.increasing_ofList entries
  · cases h

theorem forall_of_dictOf? {read : Json → Option α}
    (hread : ∀ j : Json, j.Distinct → ∀ a, read j = some a → q a) {j : Json}
    (hj : j.Distinct) {d : Dict α} (h : dictOf? read j = some d) :
    d.Increasing ∧ ∀ entry ∈ d, q entry.2 := by
  refine ⟨increasing_of_dictOf? h, ?_⟩
  cases hj with
  | obj _ hvalues =>
      exact forall_mem_of_dictOf? (fun member hmember => hread _ (hvalues member hmember)) h
  | _ => cases h

/-! ## Reading what was written -/

theorem listOf?_map {read : Json → Option α} {write : α → Json} {values : List α}
    (h : ∀ a ∈ values, read (write a) = some a) :
    listOf? read (arr (values.map write)) = some values :=
  mapM_map_eq_some h

theorem dictOf?_ofDict {read : Json → Option α} {write : α → Json} {d : Dict α}
    (hd : d.Increasing) (h : ∀ entry ∈ d, read (write entry.2) = some entry.2) :
    dictOf? read (ofDict write d) = some d := by
  have hentries : (d.map fun entry => (entry.1, write entry.2)).mapM
      (fun entry => (read entry.2).map fun a => (entry.1, a)) = some d :=
    mapM_map_eq_some fun entry hentry => by rw [h entry hentry, Option.map_some]
  calc dictOf? read (ofDict write d)
    _ = ((d.map fun entry => (entry.1, write entry.2)).mapM
          fun entry => (read entry.2).map fun a => (entry.1, a)).map Dict.ofList := rfl
    _ = some d := by rw [hentries, Option.map_some, Dict.ofList_of_increasing hd]

/-- The texts of a list are all that it holds. -/
theorem eq_of_listOf?_asStr? {j : Json} {texts : List String}
    (h : listOf? asStr? j = some texts) : j = arr (texts.map str) := by
  unfold listOf? at h
  split at h
  · next items =>
      congr 1
      induction items generalizing texts with
      | nil =>
          obtain rfl : [] = texts := Option.some.inj h
          rfl
      | cons item rest ih =>
          rw [List.mapM_cons] at h
          obtain ⟨text, htext, h⟩ := Option.bind_eq_some_iff.mp h
          obtain ⟨others, hothers, h⟩ := Option.bind_eq_some_iff.mp h
          obtain rfl := Option.some.inj h
          rw [List.map_cons, ← ih hothers, ← eq_str_of_asStr? htext]
  · cases h

end Json

namespace Record

variable {α : Type} {members : List (String × Json)} {name : String}

theorem defaulted?_named (members : List (String × Json)) (name : String) (fallback : α)
    (read : Json → Option α) :
    (named members).defaulted? name fallback read =
      (Dict.find? members name).elim (some fallback) read := by
  rw [defaulted?, find?, named]
  cases Dict.find? members name <;> rfl

theorem optional?_named (members : List (String × Json)) (name : String)
    (read : Json → Option (Option α)) :
    (named members).optional? name read =
      (Dict.find? members name).elim (some none) read := by
  rw [optional?, find?, named]
  cases Dict.find? members name <;> rfl

theorem of_defaulted? {q : α → Prop} {fallback a : α} {read : Json → Option α}
    (hmembers : ∀ member ∈ members, member.2.Distinct) (hfallback : q fallback)
    (hread : ∀ j : Json, j.Distinct → ∀ a, read j = some a → q a)
    (h : (named members).defaulted? name fallback read = some a) : q a := by
  unfold defaulted? at h
  split at h
  · next j hj => exact hread j (Json.distinct_find? hmembers hj) a h
  · exact Option.some.inj h ▸ hfallback

/-- A field that may be absent has what it is read from, if it is read from a member. -/
theorem forall_of_optional? {q : α → Prop} {value : Option α} {read : Json → Option (Option α)}
    (hread : ∀ member ∈ members, ∀ value, read member.2 = some value → ∀ a ∈ value, q a)
    (h : (named members).optional? name read = some value) : ∀ a ∈ value, q a := by
  unfold optional? at h
  split at h
  · next j hj => exact hread (name, j) (Dict.mem_of_find? hj) value h
  · obtain rfl : none = value := Option.some.inj h
    simp

theorem of_optional? {q : α → Prop} {value : Option α} {read : Json → Option (Option α)}
    (hmembers : ∀ member ∈ members, member.2.Distinct)
    (hread : ∀ j : Json, j.Distinct → ∀ value, read j = some value → ∀ a ∈ value, q a)
    (h : (named members).optional? name read = some value) : ∀ a ∈ value, q a :=
  forall_of_optional? (fun member hmember => hread member.2 (hmembers member hmember)) h

end Record

end ApiDoc
