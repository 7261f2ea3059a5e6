import ApiDoc.Datum
import ApiDoc.Proofs.Except
import ApiDoc.Proofs.Json.Distinct

/-!
# Values of data files

The value of a datum repeats no key, if the values of its scalars repeat none.  So the
values that are read from a datum into a record repeat none either.
-/

namespace ApiDoc.Datum

/-- No scalar of the datum has a value that repeats a key. -/
inductive Distinct : Datum → Prop
  | blank : Distinct blank
  | scalar {value : Option Json} {text : Option String} (hvalue : ∀ j ∈ value, j.Distinct) :
      Distinct (scalar value text)
  | list {items : List Datum} {tuple : Bool} (hitems : ∀ d ∈ items, Distinct d) :
      Distinct (list items tuple)
  | map {entries : List (Datum × Datum)} (hentries : ∀ entry ∈ entries, Distinct entry.2) :
      Distinct (map entries)

mutual

theorem distinct_of_value? : (d : Datum) → d.Distinct → ∀ {j}, value? d = some j → j.Distinct
  | .blank, _, _, h => Option.some.inj h ▸ .null
  | .scalar value text, hd, j, h => by
      cases hd with
      | scalar hvalue => exact hvalue j h
  | .list items tuple, hd, j, h => by
      cases hd with
      | list hitems =>
          obtain ⟨values, hvalues, rfl⟩ := Option.map_eq_some_iff.mp h
          exact .arr (distinct_of_values? items hitems hvalues)
  | .map entries, hd, j, h => by
      cases hd with
      | map hentries =>
          obtain ⟨members, hmembers, rfl⟩ := Option.map_eq_some_iff.mp h
          exact .obj (Dict.nodup_keys_merged members)
            (Dict.forall_mem_merged (distinct_of_members? entries hentries hmembers))

theorem distinct_of_values? : (items : List Datum) → (∀ d ∈ items, d.Distinct) → ∀ {js},
    values? items = some js → ∀ j ∈ js, j.Distinct
  | [], _, js, h => by
      obtain rfl : [] = js := Option.some.inj h
      simp
  | d :: rest, hitems, js, h => by
      obtain ⟨hd, hrest⟩ := List.forall_mem_cons.mp hitems
      obtain ⟨j, hj, h⟩ := Option.bind_eq_some_iff.mp h
      obtain ⟨others, hothers, h⟩ := Option.bind_eq_some_iff.mp h
      obtain rfl := Option.some.inj h
      exact List.forall_mem_cons.mpr
        ⟨distinct_of_value? d hd hj, distinct_of_values? rest hrest hothers⟩

theorem distinct_of_members? : (entries : List (Datum × Datum)) →
    (∀ entry ∈ entries, entry.2.Distinct) → ∀ {members}, members? entries = some members →
      ∀ member ∈ members, member.2.Distinct
  | [], _, members, h => by
      obtain rfl : [] = members := Option.some.inj h
      simp
  | (key, d) :: rest, hentries, members, h => by
      obtain ⟨hd, hrest⟩ := List.forall_mem_cons.mp hentries
      obtain ⟨name, -, h⟩ := Option.bind_eq_some_iff.mp h
      obtain ⟨j, hj, h⟩ := Option.bind_eq_some_iff.mp h
      obtain ⟨others, hothers, h⟩ := Option.bind_eq_some_iff.mp h
      obtain rfl := Option.some.inj h
      exact List.forall_mem_cons.mpr
        ⟨distinct_of_value? d hd hj, distinct_of_members? rest hrest hothers⟩

end

mutual

/-- The scalars of a JSON value are numbers, truth values, texts and null. -/
theorem distinct_ofJson : (j : Json) → (ofJson j).Distinct
  | .null => .scalar fun _ h => Option.some.inj h ▸ .null
  | .bool _ => .scalar fun _ h => Option.some.inj h ▸ .bool
  | .num _ => .scalar fun _ h => Option.some.inj h ▸ .num
  | .str _ => .scalar fun _ h => Option.some.inj h ▸ .str
  | .arr items => .list (distinct_ofItems items)
  | .obj members => .map (distinct_ofMembers members)

theorem distinct_ofItems : (items : List Json) → ∀ d ∈ ofItems items, d.Distinct
  | [] => by simp [ofItems]
  | j :: rest => by
      rw [ofItems]
      exact List.forall_mem_cons.mpr ⟨distinct_ofJson j, distinct_ofItems rest⟩

theorem distinct_ofMembers : (members : List (String × Json)) →
    ∀ entry ∈ ofMembers members, entry.2.Distinct
  | [] => by simp [ofMembers]
  | (key, j) :: rest => by
      rw [ofMembers]
      exact List.forall_mem_cons.mpr ⟨distinct_ofJson j, distinct_ofMembers rest⟩

end

/-! ## Records -/

variable {α : Type} {q : α → Prop} {d : Datum}

theorem forall_of_orNone? {read : Datum → Option α}
    (hread : ∀ d : Datum, d.Distinct → ∀ a, read d = some a → q a) (hd : d.Distinct)
    {value : Option α} (h : orNone? read d = some value) : ∀ a ∈ value, q a := by
  intro a ha
  obtain rfl : value = some a := ha
  unfold orNone? at h
  split at h
  · cases h
  · cases h
  · obtain ⟨b, hb, heq⟩ := Option.map_eq_some_iff.mp h
    exact Option.some.inj heq ▸ hread d hd b hb

theorem forall_of_list? {read : Datum → Option α}
    (hread : ∀ d : Datum, d.Distinct → ∀ a, read d = some a → q a) (hd : d.Distinct)
    {values : List α} (h : list? read d = some values) : ∀ a ∈ values, q a := by
  unfold list? at h
  split at h
  · obtain rfl : [] = values := Option.some.inj h
    simp
  · cases hd with
    | list hitems =>
        intro a ha
        obtain ⟨item, hitem, hmade⟩ := exists_of_mem_mapM_some h ha
        exact hread item (hitems item hitem) a hmade
  · cases h

theorem forall_of_entries? {read : Datum → Option α}
    (hread : ∀ d : Datum, d.Distinct → ∀ a, read d = some a → q a) (hd : d.Distinct)
    {made : List (String × α)} (h : entries? read d = some made) :
    ∀ entry ∈ made, q entry.2 := by
  unfold entries? at h
  split at h
  · obtain rfl : [] = made := Option.some.inj h
    simp
  · cases hd with
    | map hentries =>
        intro entry hentry
        obtain ⟨old, hold, hmade⟩ := exists_of_mem_mapM_some h hentry
        obtain ⟨key, -, hmade⟩ := Option.bind_eq_some_iff.mp hmade
        obtain ⟨a, ha, hmade⟩ := Option.bind_eq_some_iff.mp hmade
        obtain rfl := Option.some.inj hmade
        exact hread old.2 (hentries old hold) a ha
  · cases h

theorem forall_of_dict? {read : Datum → Option α}
    (hread : ∀ d : Datum, d.Distinct → ∀ a, read d = some a → q a) (hd : d.Distinct)
    {made : Dict α} (h : dict? read d = some made) :
    made.Increasing ∧ ∀ entry ∈ made, q entry.2 := by
  obtain ⟨entries, hentries, rfl⟩ := Option.map_eq_some_iff.mp h
  exact ⟨Dict.increasing_ofList entries,
    Dict.forall_mem_ofList (p := fun entry : String × α => q entry.2)
      (forall_of_entries? hread hd hentries)⟩

theorem distinct_of_record? {fields : List Field} {r : Record Datum} (hd : d.Distinct)
    (h : record? fields d = some r) : ∀ field ∈ r.fields, field.2.Distinct := by
  unfold record? at h
  split at h
  · cases hd with
    | list hitems =>
        unfold Record.ofValues? at h
        split at h
        · obtain rfl := Option.some.inj h
          exact fun field hfield => hitems _ (List.of_mem_zip hfield).2
        · cases h
  · obtain ⟨entries, hentries, h⟩ := Option.bind_eq_some_iff.mp h
    have hvalues := forall_of_entries?
      (fun d hd a ha => Option.some.inj ha ▸ hd) hd hentries
    dsimp only at h
    split at h
    · obtain rfl := Option.some.inj h
      intro field hfield
      obtain ⟨entry, hentry, hmade⟩ := List.mem_filterMap.mp hfield
      obtain ⟨name, -, rfl⟩ := Option.map_eq_some_iff.mp hmade
      exact hvalues entry hentry
    · cases h

theorem of_defaulted? {r : Record Datum} (hr : ∀ field ∈ r.fields, field.2.Distinct)
    {name : String} {fallback a : α} {read : Datum → Option α} (hfallback : q fallback)
    (hread : ∀ d : Datum, d.Distinct → ∀ a, read d = some a → q a)
    (h : r.defaulted? name fallback read = some a) : q a := by
  unfold Record.defaulted? at h
  split at h
  · next d hd => exact hread d (hr _ (Dict.mem_of_find? hd)) a h
  · exact Option.some.inj h ▸ hfallback

section Field

variable {r : Record Datum} {name : String}

theorem distinct_of_valueField (hr : ∀ field ∈ r.fields, field.2.Distinct)
    {value : Option Json} (h : r.defaulted? name none (orNone? value?) = some value) :
    ∀ j ∈ value, j.Distinct := by
  refine of_defaulted? (q := fun value : Option Json => ∀ j ∈ value, j.Distinct) hr (by simp)
    ?_ h
  intro d hd value hvalue
  exact forall_of_orNone? (fun d hd _ hread => distinct_of_value? d hd hread) hd hvalue

theorem forall_of_listField {read : Datum → Option α}
    (hread : ∀ d : Datum, d.Distinct → ∀ a, read d = some a → q a)
    (hr : ∀ field ∈ r.fields, field.2.Distinct) {values : List α}
    (h : r.defaulted? name [] (list? read) = some values) : ∀ a ∈ values, q a := by
  refine of_defaulted? (q := fun values : List α => ∀ a ∈ values, q a) hr (by simp) ?_ h
  intro d hd values hvalues
  exact forall_of_list? hread hd hvalues

end Field

end ApiDoc.Datum
