import ApiDoc.Json.Shape
import ApiDoc.Proofs.Json.Distinct

/-!
# Objects with fields and extensions

A record is written as its fields, under fixed names in a fixed order, and then its
extensions.  The object repeats no key, if no extension has the name of a field.
-/

namespace ApiDoc

/-- No extension stands under the key of a field. -/
def Unshared (fields extensions : List (String × Json)) : Prop :=
  ∀ extension ∈ extensions, ∀ field ∈ fields, field.1 ≠ extension.1

instance (fields extensions : List (String × Json)) : Decidable (Unshared fields extensions) :=
  inferInstanceAs (Decidable (∀ extension ∈ extensions, ∀ field ∈ fields, _ ≠ _))

namespace Json

variable {α : Type} {names more : List String} {fields others : List (String × Json)}

/-- Members under some of these names, in their order, whose values repeat no key. -/
structure Fields (names : List String) (fields : List (String × Json)) : Prop where
  sublist : (Dict.keys fields).Sublist names
  values : ∀ field ∈ fields, field.2.Distinct

/-- Extensions of a record whose fields have these names. -/
structure Extends (names : List String) (extensions : Dict Json) : Prop where
  increasing : extensions.Increasing
  values : ∀ extension ∈ extensions, extension.2.Distinct
  fresh : ∀ extension ∈ extensions, extension.1 ∉ names

namespace Fields

theorem append (h : Fields names fields) (hmore : Fields more others) :
    Fields (names ++ more) (fields ++ others) where
  sublist := by
    rw [Dict.keys, List.map_append]
    exact h.sublist.append hmore.sublist
  values := List.forall_mem_append.mpr ⟨h.values, hmore.values⟩

theorem cons {key : String} (h : Fields [key] fields) (hmore : Fields more others) :
    Fields (key :: more) (fields ++ others) :=
  h.append hmore

theorem member {key : String} {j : Json} (h : j.Distinct) : Fields [key] [(key, j)] where
  sublist := List.Sublist.refl _
  values := List.forall_mem_singleton.mpr h

theorem consMember {key : String} {j : Json} (hj : j.Distinct) (h : Fields names fields) :
    Fields (key :: names) ((key, j) :: fields) :=
  (member hj).append h

theorem absent {key : String} : Fields [key] [] where
  sublist := List.nil_sublist _
  values := by simp

theorem optional {key : String} {write : α → Json} {value : Option α}
    (h : ∀ a ∈ value, (write a).Distinct) : Fields [key] (optionalMember key write value) := by
  cases value with
  | none => exact absent
  | some a => exact member (h a rfl)

theorem list {key : String} {write : α → Json} {values : List α}
    (h : ∀ a ∈ values, (write a).Distinct) : Fields [key] (listMember key write values) := by
  cases values with
  | nil => exact absent
  | cons a rest =>
      refine member (.arr ?_)
      intro j hj
      obtain ⟨b, hb, rfl⟩ := List.mem_map.mp hj
      exact h b hb

theorem unshared (h : Fields names fields) {extensions : Dict Json}
    (hextensions : Extends names extensions) : Unshared fields extensions := by
  intro extension hextension field hfield heq
  have hname : field.1 ∈ names := h.sublist.mem (List.mem_map_of_mem hfield)
  exact hextensions.fresh extension hextension (heq ▸ hname)

theorem distinct_obj (h : Fields names fields) (hnames : names.Nodup) :
    (obj fields).Distinct :=
  .obj (h.sublist.nodup hnames) h.values

/-- Fields and extensions together repeat no key, if none of them is shared. -/
theorem distinct_obj_append (h : Fields names fields) (hnames : names.Nodup)
    {extensions : Dict Json} (hkeys : (Dict.keys extensions).Nodup)
    (hvalues : ∀ extension ∈ extensions, extension.2.Distinct)
    (hunshared : Unshared fields extensions) : (obj (fields ++ extensions)).Distinct := by
  refine .obj ?_ (List.forall_mem_append.mpr ⟨h.values, hvalues⟩)
  rw [Dict.keys, List.map_append]
  refine List.nodup_append.mpr ⟨h.sublist.nodup hnames, hkeys, ?_⟩
  intro a ha b hb
  obtain ⟨field, hfield, rfl⟩ := List.mem_map.mp ha
  obtain ⟨extension, hextension, rfl⟩ := List.mem_map.mp hb
  exact hunshared extension hextension field hfield

theorem distinct_obj_extends (h : Fields names fields) (hnames : names.Nodup)
    {extensions : Dict Json} (hextensions : Extends names extensions) :
    (obj (fields ++ extensions)).Distinct :=
  h.distinct_obj_append hnames hextensions.increasing.nodup_keys hextensions.values
    (h.unshared hextensions)

end Fields

theorem extends_nil (names : List String) : Extends names [] where
  increasing := List.Pairwise.nil
  values := by simp
  fresh := by simp

theorem extends_others {members : List (String × Json)}
    (h : ∀ entry ∈ members, entry.2.Distinct) : Extends names (Json.others names members) where
  increasing := Dict.increasing_ofList _
  values := Dict.forall_mem_ofList (p := fun entry : String × Json => entry.2.Distinct)
    fun entry hentry => h entry (List.mem_of_mem_filter hentry)
  fresh := Dict.forall_mem_ofList (p := fun entry : String × Json => entry.1 ∉ names)
    fun entry hentry => by simpa using (List.mem_filter.mp hentry).2

theorem Extends.insert {extensions : Dict Json} (h : Extends names extensions)
    {key : String} {value : Json} (hkey : key ∉ names) (hvalue : value.Distinct) :
    Extends names (Dict.insert extensions key value) where
  increasing := h.increasing.insert key value
  values := Dict.forall_mem_insert hvalue h.values
  fresh := Dict.forall_mem_insert (p := fun entry : String × Json => entry.1 ∉ names)
    hkey h.fresh

theorem Extends.insertAll {extensions entries : Dict Json} (h : Extends names extensions)
    (hkeys : ∀ entry ∈ entries, entry.1 ∉ names)
    (hvalues : ∀ entry ∈ entries, entry.2.Distinct) :
    Extends names (Dict.insertAll extensions entries) where
  increasing := h.increasing.insertAll entries
  values := Dict.forall_mem_insertAll h.values hvalues
  fresh := Dict.forall_mem_insertAll (p := fun entry : String × Json => entry.1 ∉ names)
    h.fresh hkeys

theorem distinct_ofDict {write : α → Json} {d : Dict α} (hkeys : (Dict.keys d).Nodup)
    (hvalues : ∀ entry ∈ d, (write entry.2).Distinct) : (ofDict write d).Distinct := by
  refine .obj ?_ ?_
  · rw [Dict.keys, List.map_map]
    exact hkeys
  · intro entry hentry
    obtain ⟨old, hold, rfl⟩ := List.mem_map.mp hentry
    exact hvalues old hold

theorem distinct_of_ofDict {write : α → Json} {d : Dict α} (h : (ofDict write d).Distinct) :
    ∀ entry ∈ d, (write entry.2).Distinct := fun entry hentry =>
  (distinct_obj_iff.mp h).2 (entry.1, write entry.2) (List.mem_map_of_mem hentry)

theorem distinct_of_listMember {key : String} {write : α → Json} {values : List α}
    (h : ∀ field ∈ listMember key write values, field.2.Distinct) :
    ∀ a ∈ values, (write a).Distinct := by
  intro a ha
  cases values with
  | nil => cases ha
  | cons first rest =>
      have harr : (arr ((first :: rest).map write)).Distinct := h _ List.mem_cons_self
      exact distinct_arr_iff.mp harr _ (List.mem_map_of_mem ha)

theorem find?_optionalMember (key : String) (write : α → Json) (value : Option α)
    (name : String) :
    Dict.find? (optionalMember key write value) name =
      if key = name then value.map write else none := by
  cases value <;> simp [optionalMember, Dict.find?]

theorem find?_listMember (key : String) (write : α → Json) (values : List α) (name : String) :
    Dict.find? (listMember key write values) name =
      if key = name ∧ values ≠ [] then some (arr (values.map write)) else none := by
  cases values <;> simp [listMember, Dict.find?]

theorem find?_others {members : List (String × Json)} (hkeys : (Dict.keys members).Nodup)
    {key : String} (hkey : key ∉ names) :
    Dict.find? (Json.others names members) key = Dict.find? members key := by
  have hsub : (Dict.keys (members.filter fun entry => !names.contains entry.1)).Nodup :=
    hkeys.sublist (List.filter_sublist.map _)
  rw [Json.others, Dict.find?_ofList hsub, Dict.find?_filter fun key => !names.contains key]
  simp [hkey]

theorem Fields.find?_eq_none (h : Fields names fields) {key : String} (hkey : key ∉ names) :
    Dict.find? fields key = none :=
  Dict.find?_eq_none_iff.mpr fun _ hfield =>
    hkey (h.sublist.mem (List.mem_map_of_mem hfield))

theorem Extends.find?_eq_none {extensions : Dict Json} (h : Extends names extensions)
    {key : String} (hkey : key ∈ names) : Dict.find? extensions key = none :=
  Dict.find?_eq_none_iff.mpr fun _ hextension => h.fresh _ hextension hkey

/-- An object without repeated keys shares none between fields and extensions. -/
theorem unshared_of_distinct {extensions : Dict Json}
    (h : (obj (fields ++ extensions)).Distinct) : Unshared fields extensions := by
  have hkeys := (distinct_obj_iff.mp h).1
  rw [Dict.keys, List.map_append] at hkeys
  intro extension hextension field hfield heq
  exact (List.nodup_append.mp hkeys).2.2 _ (List.mem_map_of_mem hfield) _
    (List.mem_map_of_mem hextension) heq

theorem distinct_texts (texts : List String) : (arr (texts.map .str)).Distinct := by
  refine .arr ?_
  intro j hj
  obtain ⟨text, -, rfl⟩ := List.mem_map.mp hj
  exact .str

end Json

end ApiDoc
