import ApiDoc.Proofs.Json.Field
import ApiDoc.Proofs.Json.Place

/-!
# Values that are kept

A value keeps the scalars of another one if each of them stands at the same path.  Reading
and writing again may lose `null`, and objects and lists that hold no scalar, but no scalar:
a reader and a writer keep a value if the readers and writers of its parts do, and a record
keeps an object if each of its fields keeps its member, because all other members become
extensions.
-/

namespace ApiDoc.Json

/-- A text, a number or a truth value. -/
def isScalar : Json → Bool
  | .str _ | .num _ | .bool _ => true
  | _ => false

/-- Every scalar in the first value stands at the same path in the second. -/
def Keeps (j other : Json) : Prop :=
  ∀ path x, at? path j = some x → x.isScalar = true → at? path other = some x

/-- There is no scalar in the value. -/
def Hollow (j : Json) : Prop :=
  ∀ path x, at? path j = some x → x.isScalar = false

@[refl] theorem Keeps.refl (j : Json) : j.Keeps j := fun _ _ h _ => h

theorem Keeps.hollow {j other : Json} (h : j.Keeps other) (hother : other.Hollow) :
    j.Hollow := by
  intro path x hx
  by_contra hscalar
  rw [Bool.not_eq_false] at hscalar
  have hnone := hother path x (h path x hx hscalar)
  rw [hscalar] at hnone
  cases hnone

theorem Hollow.keeps {j : Json} (h : j.Hollow) (other : Json) : j.Keeps other := by
  intro path x hx hscalar
  have hnone := h path x hx
  rw [hscalar] at hnone
  cases hnone

theorem hollow_null : null.Hollow := by
  rintro (_ | ⟨segment, path⟩) x hx
  · obtain rfl := Option.some.inj hx
    rfl
  · cases hx

theorem hollow_arr {items : List Json} (h : ∀ item ∈ items, item.Hollow) :
    (arr items).Hollow := by
  rintro (_ | ⟨segment, path⟩) x hx
  · obtain rfl := Option.some.inj hx
    rfl
  · rw [at?_arr] at hx
    obtain ⟨i, -, hx⟩ := Option.bind_eq_some_iff.mp hx
    obtain ⟨item, hitem, hx⟩ := Option.bind_eq_some_iff.mp hx
    exact h item (List.mem_of_getElem? hitem) path x hx

theorem hollow_obj {members : List (String × Json)} (h : ∀ member ∈ members, member.2.Hollow) :
    (obj members).Hollow := by
  rintro (_ | ⟨key, path⟩) x hx
  · obtain rfl := Option.some.inj hx
    rfl
  · rw [at?_obj] at hx
    obtain ⟨j, hj, hx⟩ := Option.bind_eq_some_iff.mp hx
    exact h _ (Dict.mem_of_find? hj) path x hx

/-! ## Lists and objects -/

theorem keeps_arr {items others : List Json} (h : List.Forall₂ Keeps items others) :
    (arr items).Keeps (arr others) := by
  rintro (_ | ⟨segment, path⟩) x hx hscalar
  · obtain rfl := Option.some.inj hx
    cases hscalar
  · rw [at?_arr] at hx ⊢
    obtain ⟨i, hi, hx⟩ := Option.bind_eq_some_iff.mp hx
    obtain ⟨item, hitem, hx⟩ := Option.bind_eq_some_iff.mp hx
    obtain ⟨hlt, rfl⟩ := List.getElem?_eq_some_iff.mp hitem
    have hother : i < others.length := h.length_eq ▸ hlt
    have hkeeps : (items[i]).Keeps others[i] := h.get hlt hother
    rw [hi, Option.bind_some, List.getElem?_eq_getElem hother, Option.bind_some]
    exact hkeeps path x hx hscalar

/-- A member without a scalar may be missing. -/
theorem keeps_obj {members others : List (String × Json)}
    (h : ∀ key j, Dict.find? members key = some j →
      j.Keeps ((Dict.find? others key).getD null)) : (obj members).Keeps (obj others) := by
  rintro (_ | ⟨key, path⟩) x hx hscalar
  · obtain rfl := Option.some.inj hx
    cases hscalar
  · rw [at?_obj] at hx ⊢
    obtain ⟨j, hj, hx⟩ := Option.bind_eq_some_iff.mp hx
    have hkeeps := h key j hj
    cases hfind : Dict.find? others key with
    | some other =>
        rw [hfind] at hkeeps
        exact hkeeps path x hx hscalar
    | none =>
        rw [hfind] at hkeeps
        have hnone := (hkeeps.hollow hollow_null) path x hx
        rw [hscalar] at hnone
        cases hnone

/-! ## Readers and writers -/

variable {α : Type} {read : Json → Option α} {write : α → Json}

/-- What is read from the value keeps it when it is written. -/
def KeptBy (read : Json → Option α) (write : α → Json) (j : Json) : Prop :=
  ∀ a, read j = some a → j.Keeps (write a)

/-- What is read from any value without repeated keys keeps it when it is written. -/
def Keeping (read : Json → Option α) (write : α → Json) : Prop :=
  ∀ j : Json, j.Distinct → KeptBy read write j

theorem keeping_str : Keeping asStr? str := by
  intro j _ text h
  rw [eq_str_of_asStr? h]

theorem keeping_bool : Keeping asBool? bool := by
  intro j _ flag h
  rw [eq_bool_of_asBool? h]

theorem keeping_arr : Keeping asArr? arr := by
  intro j _ items h
  cases j with
  | arr values =>
      obtain rfl := Option.some.inj h
      exact Keeps.refl _
  | _ => cases h

theorem keeping_word : Keeping asWord? ofNat := by
  intro j _ n h
  cases j with
  | num number =>
      cases number with
      | int i =>
          rw [asWord?] at h
          split at h
          · next hrange =>
              obtain rfl := Option.some.inj h
              have hnonneg : 0 ≤ i := by simp_all
              rw [ofNat, Int.toNat_of_nonneg hnonneg]
          · cases h
      | float _ => cases h
  | _ => cases h

theorem keeping_some : Keeping some id := by
  intro j _ k h
  obtain rfl := Option.some.inj h
  exact Keeps.refl _

theorem KeptBy.orNull {j : Json} (h : KeptBy read write j) :
    KeptBy (orNull? read) (fun value => (value.map write).getD null) j := by
  intro value hread
  unfold orNull? at hread
  split at hread
  · exact hollow_null.keeps _
  · obtain ⟨a, ha, rfl⟩ := Option.map_eq_some_iff.mp hread
    exact h a ha

theorem keptBy_listOf? {items : List Json} (h : ∀ item ∈ items, KeptBy read write item) :
    KeptBy (listOf? read) (fun values => arr (values.map write)) (arr items) := by
  intro values hread
  have hmade : List.Forall₂ (fun item a => read item = some a) items values :=
    forall₂_of_mapM_some hread
  apply keeps_arr
  rw [List.forall₂_map_right_iff]
  have hkept := (List.forall₂_and_left _ _).mpr ⟨h, hmade⟩
  exact hkept.imp fun item a hitem => hitem.1 a hitem.2

theorem Keeping.listOf (h : Keeping read write) :
    Keeping (listOf? read) fun values => arr (values.map write) := by
  intro j hj
  cases hj with
  | arr hitems => exact keptBy_listOf? fun item hitem => h item (hitems item hitem)
  | _ => rintro _ ⟨⟩

theorem find?_mapped (write : α → Json) (d : Dict α) (key : String) :
    Dict.find? (d.map fun entry => (entry.1, write entry.2)) key =
      (Dict.find? d key).map write :=
  Dict.find?_mapValues write d key

theorem keptBy_dictOf? {members : List (String × Json)} (hkeys : (Dict.keys members).Nodup)
    (h : ∀ member ∈ members, KeptBy read write member.2) :
    KeptBy (dictOf? read) (ofDict write) (obj members) := by
  intro d hread
  obtain ⟨entries, hentries, rfl⟩ := Option.map_eq_some_iff.mp hread
  have hmade : List.Forall₂ (fun member entry => member.1 = entry.1 ∧ read member.2 = some entry.2)
      members entries := by
    refine (forall₂_of_mapM_some hentries).imp fun member entry hmade => ?_
    obtain ⟨a, ha, rfl⟩ := Option.map_eq_some_iff.mp hmade
    exact ⟨rfl, ha⟩
  let R := fun (j : Json) (a : α) => read j = some a
  have hdistinct : (Dict.keys entries).Nodup :=
    Dict.keys_eq_of_forall₂ (R := R) hmade ▸ hkeys
  refine keeps_obj fun key j hj => ?_
  have hrel : Option.Rel R (Dict.find? members key) (Dict.find? entries key) :=
    Dict.rel_find?_of_forall₂ hmade key
  rw [hj] at hrel
  rw [find?_mapped, Dict.find?_ofList hdistinct]
  cases hfind : Dict.find? entries key with
  | none =>
      rw [hfind] at hrel
      cases hrel
  | some a =>
      rw [hfind] at hrel
      have hread : R j a := Option.rel_some_some.mp hrel
      exact h _ (Dict.mem_of_find? hj) a hread

theorem Keeping.dictOf (h : Keeping read write) : Keeping (dictOf? read) (ofDict write) := by
  intro j hj
  cases hj with
  | obj hkeys hvalues =>
      exact keptBy_dictOf? hkeys fun member hmember => h member.2 (hvalues member hmember)
  | _ => rintro _ ⟨⟩

/-! ## Records -/

namespace Row

variable {σ : Type} {key : String}

/-- What the field reads from the value keeps it when it is written, or left out. -/
def Keeps (f : Row σ) (j : Json) : Prop :=
  KeptBy f.read (fun value => (f.write value).getD null) j

theorem keeps_required {part : σ → α} {j : Json} (h : KeptBy read write j) :
    (required key part read write).Keeps j := h

theorem keeps_defaulted {part : σ → α} {absent : α} {j : Json} (h : KeptBy read write j) :
    (defaulted key part absent read write).Keeps j := h

theorem keeps_optional {part : σ → Option α} {j : Json} (h : KeptBy read write j) :
    (optional key part (orNull? read) write).Keeps j :=
  h.orNull

/-- What is left out must not hold a scalar. -/
theorem keeps_skipping {part : σ → α} {skip : α → Bool} {absent : α} {j : Json}
    (hskip : ∀ a, skip a = true → (write a).Hollow) (h : KeptBy read write j) :
    (skipping key part skip absent read write).Keeps j := by
  intro a hread
  have hkeeps : j.Keeps (write a) := h a hread
  change j.Keeps ((if skip a then none else some (write a)).getD null)
  split
  · next hskipped => exact (hkeeps.hollow (hskip a hskipped)).keeps _
  · exact hkeeps

theorem keeps_list {part : σ → List α} {j : Json}
    (h : KeptBy (listOf? read) (fun values => arr (values.map write)) j) :
    (list key part read write).Keeps j := by
  refine keeps_skipping (fun values hempty => ?_) h
  rw [List.isEmpty_iff.mp hempty]
  exact hollow_arr (List.forall_mem_nil _)

end Row

/-- A record keeps the object that holds it, if each field keeps its member: all other
members are extensions. -/
theorem keeps_written {σ : Type} {table : List (Row σ)} {s : σ}
    {members : List (String × Json)} {extensions : σ → Dict Json}
    (hmembers : (obj members).Distinct) (htable : (table.map Row.key).Nodup)
    (hholds : Holds table extensions members s)
    (hkeeps : ∀ f ∈ table, ∀ j, (f.key, j) ∈ members → f.Keeps j) :
    (obj members).Keeps (obj (written table s ++ extensions s)) := by
  obtain ⟨hkeys, hvalues⟩ := distinct_obj_iff.mp hmembers
  refine keeps_obj fun key j hj => ?_
  by_cases hkey : key ∈ table.map Row.key
  · obtain ⟨f, hf, rfl⟩ := List.mem_map.mp hkey
    have hread : f.read j = some (f.part s) := by
      have hpart := hholds.parts f hf
      rwa [Row.found, hj] at hpart
    rw [hholds.extensions, find?_written_append htable hf (extends_others hvalues)]
    exact hkeeps f hf j (Dict.mem_of_find? hj) _ hread
  · rw [find?_written_append_of_not_mem hkey, hholds.extensions, find?_others hkeys hkey, hj]
    exact Keeps.refl j

/-- A record is kept through reading and writing, if each of its fields is. -/
theorem keeping_record {σ : Type} {read : Json → Option σ} {write : σ → Json}
    {table : List (Row σ)} {extensions : σ → Dict Json}
    (hread : ∀ j s, read j = some s → ∃ members, j = obj members ∧ Holds table extensions members s)
    (hwrite : ∀ s, write s = obj (written table s ++ extensions s))
    (htable : (table.map Row.key).Nodup)
    (hkeeps : ∀ j : Json, j.Distinct → ∀ f ∈ table, f.Keeps j) : Keeping read write := by
  intro j hj s hs
  obtain ⟨members, rfl, hholds⟩ := hread j s hs
  rw [hwrite]
  refine keeps_written hj htable hholds fun f hf value hvalue => ?_
  exact hkeeps value ((distinct_obj_iff.mp hj).2 _ hvalue) f hf

end ApiDoc.Json
