import ApiDoc.Dict
import Mathlib.Data.List.Forall2
import Mathlib.Data.List.Induction
import Mathlib.Data.List.Nodup
import Mathlib.Data.Option.Basic
import Mathlib.Data.String.Basic

/-!
# Dictionaries with increasing keys

`Dict.insert` and what is built from it keep the keys of a dictionary increasing.
In such a dictionary every key stands once, so looking up a key and being an entry
are the same thing, and what stands at each key determines the dictionary.
`Dict.put` keeps no order, and keeps the keys apart.
-/

namespace ApiDoc.Dict

variable {α : Type u} {β : Type v}

/-- The keys grow from each entry to every later one. -/
def Increasing (d : Dict α) : Prop :=
  d.Pairwise fun x y => x.1 < y.1

instance (d : Dict α) : Decidable d.Increasing :=
  inferInstanceAs (Decidable (List.Pairwise _ d))

theorem increasing_iff_keys {d : Dict α} : d.Increasing ↔ (keys d).Pairwise (· < ·) :=
  List.pairwise_map.symm

theorem lt_of_not_lt_of_ne {a b : String} (hlt : ¬a < b) (hne : a ≠ b) : b < a := by
  by_contra h
  exact hne (String.le_antisymm (String.not_lt.mp h) (String.not_lt.mp hlt))

theorem mem_of_find? {d : Dict α} {key : String} {value : α}
    (h : find? d key = some value) : (key, value) ∈ d := by
  induction d with
  | nil => simp at h
  | cons entry rest ih =>
      obtain ⟨k, v⟩ := entry
      by_cases hk : k = key
      · simp only [find?, if_pos hk, Option.some.injEq] at h
        rw [hk, h]
        exact List.mem_cons_self
      · rw [find?, if_neg hk] at h
        exact List.mem_cons_of_mem _ (ih h)

theorem find?_eq_none_iff {d : Dict α} {key : String} :
    find? d key = none ↔ ∀ value, (key, value) ∉ d := by
  induction d with
  | nil => simp
  | cons entry rest ih =>
      obtain ⟨k, v⟩ := entry
      by_cases hk : k = key
      · subst hk
        simp only [find?, ↓reduceIte, reduceCtorEq, false_iff, not_forall, not_not]
        exact ⟨v, List.mem_cons_self⟩
      · simp [find?, hk, ih, Ne.symm hk]

theorem mem_keys_iff {d : Dict α} {key : String} : key ∈ keys d ↔ (find? d key).isSome := by
  induction d with
  | nil => simp [keys]
  | cons entry rest ih =>
      have hkeys : keys (entry :: rest) = entry.1 :: keys rest := rfl
      rw [hkeys, List.mem_cons, find?, ih]
      by_cases hk : entry.1 = key
      · simp [hk]
      · simp [hk, Ne.symm hk]

theorem find?_eq_none_iff_not_mem_keys {d : Dict α} {key : String} :
    find? d key = none ↔ key ∉ keys d := by
  rw [mem_keys_iff, Bool.not_eq_true, Option.isSome_eq_false_iff, Option.isNone_iff_eq_none]

theorem Increasing.nodup_keys {d : Dict α} (hd : d.Increasing) : (keys d).Nodup := by
  refine List.pairwise_map.mpr (hd.imp ?_)
  intro x y hlt heq
  rw [heq] at hlt
  exact String.lt_irrefl _ hlt

theorem find?_of_mem_of_nodup {d : Dict α} (hd : (keys d).Nodup) {key : String} {value : α}
    (h : (key, value) ∈ d) : find? d key = some value := by
  induction d with
  | nil => cases h
  | cons entry rest ih =>
      obtain ⟨k, v⟩ := entry
      obtain ⟨hfirst, hrest⟩ := List.nodup_cons.mp hd
      rcases List.mem_cons.mp h with heq | hmem
      · obtain ⟨rfl, rfl⟩ := Prod.mk.injEq .. ▸ heq
        simp [find?]
      · have hne : k ≠ key := fun heq =>
          hfirst (List.mem_map.mpr ⟨(key, value), hmem, heq.symm⟩)
        rw [find?, if_neg hne]
        exact ih hrest hmem

theorem find?_eq_some_iff_mem {d : Dict α} (hd : (keys d).Nodup) {key : String} {value : α} :
    find? d key = some value ↔ (key, value) ∈ d :=
  ⟨mem_of_find?, find?_of_mem_of_nodup hd⟩

theorem find?_of_mem {d : Dict α} (hd : d.Increasing) {key : String} {value : α}
    (h : (key, value) ∈ d) : find? d key = some value :=
  find?_of_mem_of_nodup hd.nodup_keys h

/-- When each key has the value that is made from its giver, what each value has exactly if
its giver has a property of its own, all values have exactly if all givers do. -/
theorem forall_mem_iff_givers {γ : Type w} {d : Dict β} (hd : (keys d).Nodup)
    {giver : String → Option γ} {make : γ → Option β}
    (hfind : ∀ key, find? d key = (giver key).bind make)
    (hmake : ∀ key, ∀ g ∈ giver key, (make g).isSome)
    {q : String → β → Prop} {r : String → γ → Prop}
    (hq : ∀ key, ∀ g ∈ giver key, ∀ value, make g = some value → (q key value ↔ r key g)) :
    (∀ entry ∈ d, q entry.1 entry.2) ↔ ∀ key, ∀ g ∈ giver key, r key g := by
  constructor
  · intro hall key g hg
    obtain ⟨value, hvalue⟩ := Option.isSome_iff_exists.mp (hmake key g hg)
    apply (hq key g hg value hvalue).mp
    apply hall (key, value)
    apply mem_of_find?
    rw [hfind, Option.mem_def.mp hg, Option.bind_some, hvalue]
  · rintro hgivers ⟨key, value⟩ hentry
    have hthere := find?_of_mem_of_nodup hd hentry
    rw [hfind] at hthere
    obtain ⟨g, hg, hvalue⟩ := Option.bind_eq_some_iff.mp hthere
    exact (hq key g hg value hvalue).mpr (hgivers key g hg)

theorem find?_append (d e : Dict α) (key : String) :
    find? (d ++ e) key = (find? d key).or (find? e key) := by
  induction d with
  | nil => rfl
  | cons entry rest ih =>
      rw [List.cons_append, find?, find?, ih]
      split <;> rfl

theorem find?_cons_self (key : String) (value : α) (rest : Dict α) :
    find? ((key, value) :: rest) key = some value :=
  if_pos rfl

theorem mem_insert {d : Dict α} {key : String} {value : α} {entry : String × α}
    (h : entry ∈ insert d key value) : entry = (key, value) ∨ entry ∈ d := by
  induction d with
  | nil => exact .inl (List.mem_singleton.mp h)
  | cons first rest ih =>
      obtain ⟨k, v⟩ := first
      rw [insert] at h
      split at h
      · next hk =>
          rcases List.mem_cons.mp h with heq | hmem
          · exact .inl (hk ▸ heq)
          · exact .inr (List.mem_cons_of_mem _ hmem)
      · split at h
        · rcases List.mem_cons.mp h with heq | hmem
          · exact .inl heq
          · exact .inr hmem
        · rcases List.mem_cons.mp h with heq | hmem
          · exact .inr (heq ▸ List.mem_cons_self)
          · exact (ih hmem).imp_right (List.mem_cons_of_mem _)

theorem mem_erase {d : Dict α} {key : String} {entry : String × α}
    (h : entry ∈ erase d key) : entry ∈ d := by
  induction d with
  | nil => exact h
  | cons first rest ih =>
      obtain ⟨k, v⟩ := first
      rw [erase] at h
      split at h
      · exact List.mem_cons_of_mem _ (ih h)
      · rcases List.mem_cons.mp h with heq | hmem
        · exact heq ▸ List.mem_cons_self
        · exact List.mem_cons_of_mem _ (ih hmem)

/-- What holds of a value and of every entry holds after the insertion. -/
theorem forall_mem_insert {p : String × α → Prop} {d : Dict α} {key : String} {value : α}
    (hnew : p (key, value)) (hd : ∀ entry ∈ d, p entry) :
    ∀ entry ∈ insert d key value, p entry := by
  intro entry h
  rcases mem_insert h with rfl | h
  · exact hnew
  · exact hd entry h

theorem forall_mem_insertAll {p : String × α → Prop} {d entries : Dict α}
    (hd : ∀ entry ∈ d, p entry) (hnew : ∀ entry ∈ entries, p entry) :
    ∀ entry ∈ insertAll d entries, p entry := by
  induction entries generalizing d with
  | nil => exact hd
  | cons entry rest ih =>
      have hfirst : p entry := hnew entry List.mem_cons_self
      exact ih (forall_mem_insert hfirst hd)
        fun e he => hnew e (List.mem_cons_of_mem _ he)

theorem forall_mem_ofList {p : String × α → Prop} {entries : List (String × α)}
    (hnew : ∀ entry ∈ entries, p entry) : ∀ entry ∈ ofList entries, p entry :=
  forall_mem_insertAll (by simp) hnew

theorem Increasing.insert {d : Dict α} (hd : d.Increasing) (key : String) (value : α) :
    (insert d key value).Increasing := by
  induction d with
  | nil => exact List.pairwise_singleton _ _
  | cons entry rest ih =>
      obtain ⟨k, v⟩ := entry
      have hrest := List.pairwise_cons.mp hd
      rw [Dict.insert]
      split
      · exact List.pairwise_cons.mpr ⟨fun e he => hrest.1 e he, hrest.2⟩
      · next hne =>
          split
          · next hlt =>
              refine List.pairwise_cons.mpr ⟨?_, hd⟩
              intro e he
              rcases List.mem_cons.mp he with rfl | he
              · exact hlt
              · exact String.lt_trans hlt (hrest.1 e he)
          · next hlt =>
              refine List.pairwise_cons.mpr ⟨?_, ih hrest.2⟩
              exact forall_mem_insert (p := fun e => k < e.1)
                (lt_of_not_lt_of_ne hlt hne) hrest.1

theorem Increasing.insertAll {d : Dict α} (hd : d.Increasing) (entries : List (String × α)) :
    (Dict.insertAll d entries).Increasing := by
  induction entries generalizing d with
  | nil => exact hd
  | cons entry rest ih => exact ih (hd.insert entry.1 entry.2)

theorem increasing_ofList (entries : List (String × α)) : (ofList entries).Increasing :=
  Increasing.insertAll List.Pairwise.nil entries

theorem Increasing.erase {d : Dict α} (hd : d.Increasing) (key : String) :
    (Dict.erase d key).Increasing := by
  induction d with
  | nil => exact hd
  | cons entry rest ih =>
      obtain ⟨k, v⟩ := entry
      have hrest := List.pairwise_cons.mp hd
      rw [Dict.erase]
      split
      · exact ih hrest.2
      · exact List.pairwise_cons.mpr
          ⟨fun e he => hrest.1 e (mem_erase he), ih hrest.2⟩

theorem Increasing.mapValues {d : Dict α} (hd : d.Increasing) (f : α → β) :
    (mapValues f d).Increasing :=
  List.pairwise_map.mpr hd

/-- Nothing stands at a key in front of the first one. -/
theorem Increasing.find?_eq_none_of_lt {k key : String} {v : α} {rest : Dict α}
    (h : Increasing ((k, v) :: rest)) (hlt : key < k) : find? ((k, v) :: rest) key = none := by
  refine find?_eq_none_iff.mpr fun value hvalue => ?_
  rcases List.mem_cons.mp hvalue with heq | hrest
  · obtain ⟨rfl, rfl⟩ := Prod.mk.inj heq
    exact String.lt_irrefl _ hlt
  · exact String.lt_irrefl key
      (String.lt_trans hlt ((List.pairwise_cons.mp h).1 _ hrest))

/-- The first key does not come again. -/
theorem Increasing.find?_tail {k key : String} {v : α} {rest : Dict α}
    (h : Increasing ((k, v) :: rest)) :
    find? rest key = if key = k then none else find? ((k, v) :: rest) key := by
  split
  · next heq =>
      subst heq
      refine find?_eq_none_iff.mpr fun value hvalue => ?_
      exact String.lt_irrefl key ((List.pairwise_cons.mp h).1 _ hvalue)
  · next hne => rw [find?, if_neg (Ne.symm hne)]

/-- Entries that agree one by one agree at every key. -/
theorem rel_find?_of_forall₂ {R : α → β → Prop} {d : Dict α} {e : Dict β}
    (h : List.Forall₂ (fun x y => x.1 = y.1 ∧ R x.2 y.2) d e) (key : String) :
    Option.Rel R (find? d key) (find? e key) := by
  induction h with
  | nil => exact .none
  | @cons x y rest others hentry _ ih =>
      obtain ⟨k, v⟩ := x
      obtain ⟨l, w⟩ := y
      obtain ⟨rfl, hvalue⟩ := hentry
      rw [find?, find?]
      split
      · exact .some hvalue
      · exact ih

theorem keys_eq_of_forall₂ {R : α → β → Prop} {d : Dict α} {e : Dict β}
    (h : List.Forall₂ (fun x y => x.1 = y.1 ∧ R x.2 y.2) d e) : keys d = keys e := by
  induction h with
  | nil => rfl
  | cons hentry _ ih => exact congrArg₂ List.cons hentry.1 ih

/-- Dictionaries with increasing keys that agree at every key agree entry by entry. -/
theorem Increasing.forall₂_of_find? {R : α → β → Prop} {d : Dict α} {e : Dict β}
    (hd : d.Increasing) (he : e.Increasing)
    (h : ∀ key, Option.Rel R (find? d key) (find? e key)) :
    List.Forall₂ (fun x y => x.1 = y.1 ∧ R x.2 y.2) d e := by
  induction d generalizing e with
  | nil =>
      cases e with
      | nil => exact .nil
      | cons second others =>
          have hnone := h second.1
          rw [find?_cons_self] at hnone
          cases hnone
  | cons first rest ih =>
      obtain ⟨k, v⟩ := first
      have hfirst := h k
      rw [find?_cons_self] at hfirst
      cases e with
      | nil => cases hfirst
      | cons second others =>
          obtain ⟨l, w⟩ := second
          have hsecond := h l
          rw [find?_cons_self] at hsecond
          -- A smaller first key of one dictionary is missing in the other.
          have hsame : k = l := by
            by_contra hne
            rcases lt_or_gt_of_ne hne with hlt | hlt
            · rw [he.find?_eq_none_of_lt hlt] at hfirst
              cases hfirst
            · rw [hd.find?_eq_none_of_lt hlt] at hsecond
              cases hsecond
          subst hsame
          rw [find?_cons_self] at hfirst
          refine .cons ⟨rfl, Option.rel_some_some.mp hfirst⟩
            (ih hd.of_cons he.of_cons fun key => ?_)
          rw [hd.find?_tail, he.find?_tail]
          split
          · exact .none
          · exact h key

/-- Dictionaries with increasing keys are determined by what stands at each key. -/
theorem Increasing.ext {d e : Dict α} (hd : d.Increasing) (he : e.Increasing)
    (h : ∀ key, find? d key = find? e key) : d = e := by
  have hentries : List.Forall₂ (fun x y : String × α => x.1 = y.1 ∧ x.2 = y.2) d e :=
    hd.forall₂_of_find? he fun key => by
      rw [h key]
      cases find? e key with
      | none => exact .none
      | some value => exact .some rfl
  exact List.forall₂_eq_eq_eq ▸ hentries.imp fun _ _ heq => Prod.ext heq.1 heq.2

theorem mapValues_eq_self_iff {f : α → α} {d : Dict α} :
    mapValues f d = d ↔ ∀ entry ∈ d, f entry.2 = entry.2 := by
  induction d with
  | nil => simp [mapValues]
  | cons entry rest ih =>
      rw [List.forall_mem_cons, ← ih]
      simp [mapValues, Prod.ext_iff]

theorem find?_mapValues (f : α → β) (d : Dict α) (key : String) :
    find? (mapValues f d) key = (find? d key).map f := by
  induction d with
  | nil => rfl
  | cons entry rest ih =>
      obtain ⟨k, v⟩ := entry
      by_cases hk : k = key
      · simp [mapValues, find?, hk]
      · simpa [mapValues, find?, hk] using ih

theorem find?_filter (p : String → Bool) (d : Dict α) (key : String) :
    find? (d.filter fun entry => p entry.1) key =
      if p key then find? d key else none := by
  induction d with
  | nil => simp
  | cons entry rest ih =>
      obtain ⟨k, v⟩ := entry
      by_cases hk : k = key
      · subst hk
        by_cases hp : p k <;> simp [find?, hp, ih]
      · by_cases hp : p k <;> simp [find?, hp, hk, ih]

/-- The last value inserted under a key is the one that stands there. -/
theorem find?_insertAll_reverse (d entries : Dict α) (key : String) :
    find? (insertAll d entries) key = (find? entries.reverse key).or (find? d key) := by
  induction entries using List.reverseRecOn with
  | nil => rfl
  | append_singleton rest entry ih =>
      have hlast : insertAll d (rest ++ [entry]) = insert (insertAll d rest) entry.1 entry.2 := by
        rw [insertAll, List.foldl_append]
        rfl
      rw [hlast, find?_insert, ih, List.reverse_append, List.reverse_singleton,
        List.singleton_append, find?]
      split
      · rfl
      · rfl

theorem find?_ofList_reverse (entries : List (String × α)) (key : String) :
    find? (ofList entries) key = find? entries.reverse key := by
  rw [ofList, find?_insertAll_reverse, find?_nil, Option.or_none]

theorem mem_keys_insertAll_iff {d entries : Dict α} {key : String} :
    key ∈ keys (insertAll d entries) ↔ key ∈ keys entries ∨ key ∈ keys d := by
  rw [mem_keys_iff, find?_insertAll_reverse, Option.isSome_or, Bool.or_eq_true, ← mem_keys_iff,
    ← mem_keys_iff, keys, List.map_reverse, List.mem_reverse, ← keys]

theorem mem_keys_ofList_iff {entries : List (String × α)} {key : String} :
    key ∈ keys (ofList entries) ↔ key ∈ keys entries :=
  mem_keys_insertAll_iff.trans (or_iff_left List.not_mem_nil)

/-- Where no key is repeated, the order of the entries does not matter. -/
theorem find?_reverse {d : Dict α} (hd : (keys d).Nodup) (key : String) :
    find? d.reverse key = find? d key := by
  have hreverse : (keys d.reverse).Nodup := by
    rw [keys, List.map_reverse]
    exact List.nodup_reverse.mpr hd
  refine Option.ext fun value => ?_
  rw [find?_eq_some_iff_mem hreverse, find?_eq_some_iff_mem hd, List.mem_reverse]

theorem find?_insertAll {entries : Dict α} (h : (keys entries).Nodup) (d : Dict α)
    (key : String) :
    find? (insertAll d entries) key = (find? entries key).or (find? d key) := by
  rw [find?_insertAll_reverse, find?_reverse h]

theorem find?_ofList {entries : List (String × α)} (h : (keys entries).Nodup) (key : String) :
    find? (ofList entries) key = find? entries key := by
  rw [ofList, find?_insertAll h, find?_nil, Option.or_none]

/-- Entries with increasing keys are the dictionary of them. -/
theorem ofList_of_increasing {d : Dict α} (hd : d.Increasing) : ofList d = d :=
  (increasing_ofList d).ext hd (find?_ofList hd.nodup_keys)

/-! ## Dictionaries made from lists of named things -/

/-- The value of a key is that of the first thing of this name that has a value. -/
theorem find?_filterMap (name : α → String) (f : α → Option β) (xs : List α) (key : String) :
    find? (xs.filterMap fun x => (f x).map fun value => (name x, value)) key =
      (xs.find? fun x => (f x).isSome && name x = key).bind f := by
  induction xs with
  | nil => rfl
  | cons x rest ih =>
      cases hx : f x with
      | none => simp [hx, ih]
      | some value =>
          by_cases hname : name x = key
          · simp [hx, hname, find?]
          · simp [hx, hname, find?, ih]

theorem find?_map (name : α → String) (f : α → β) (xs : List α) (key : String) :
    find? (xs.map fun x => (name x, f x)) key = (xs.find? fun x => name x = key).map f := by
  simpa [Option.map_eq_bind, Function.comp_def] using
    find?_filterMap name (fun x => some (f x)) xs key

theorem keys_filterMap (name : α → String) (f : α → Option β) (xs : List α) :
    keys (xs.filterMap fun x => (f x).map fun value => (name x, value)) =
      (xs.filter fun x => (f x).isSome).map name := by
  induction xs with
  | nil => rfl
  | cons x rest ih =>
      cases hx : f x with
      | none => simpa [hx] using ih
      | some value => simpa [hx, keys] using ih

/-! ## Entries in order of first occurrence -/

/-- The keys stay as they are, or grow by one that was not there. -/
theorem keys_put (d : Dict α) (key : String) (value : α) :
    keys (put d key value) = if key ∈ keys d then keys d else keys d ++ [key] := by
  induction d with
  | nil => rfl
  | cons entry rest ih =>
      obtain ⟨k, v⟩ := entry
      by_cases hk : k = key
      · simp [put, keys, hk]
      · have hrest : keys (put rest key value) = _ := ih
        by_cases hmem : key ∈ keys rest
        · simp_all [put, keys]
        · simp_all [put, keys, Ne.symm hk]

theorem put_of_not_mem {d : Dict α} {key : String} (h : key ∉ keys d) (value : α) :
    put d key value = d ++ [(key, value)] := by
  induction d with
  | nil => rfl
  | cons entry rest ih =>
      obtain ⟨hne, hrest⟩ : key ≠ entry.1 ∧ key ∉ keys rest := by simpa [keys] using h
      rw [put, if_neg (Ne.symm hne), ih hrest, List.cons_append]

theorem foldl_put_of_nodup {d entries : Dict α} (h : (keys (d ++ entries)).Nodup) :
    entries.foldl (fun acc entry => put acc entry.1 entry.2) d = d ++ entries := by
  induction entries generalizing d with
  | nil => exact (List.append_nil d).symm
  | cons entry rest ih =>
      have hnew : entry.1 ∉ keys d := by
        rw [keys, List.map_append] at h
        exact fun hold => (List.nodup_append.mp h).2.2 _ hold _ List.mem_cons_self rfl
      rw [List.append_cons] at h
      rw [List.foldl_cons, put_of_not_mem hnew, ih h, List.append_assoc, List.singleton_append]

/-- Entries without a repeated key stay as they are. -/
theorem merged_of_nodup {entries : Dict α} (h : (keys entries).Nodup) :
    merged entries = entries :=
  foldl_put_of_nodup (d := []) h

/-- The second value takes the place of the first. -/
theorem put_put (d : Dict α) (key : String) (first second : α) :
    put (put d key first) key second = put d key second := by
  induction d with
  | nil => simp [put]
  | cons entry rest ih =>
      obtain ⟨k, v⟩ := entry
      by_cases hk : k = key
      · simp [put, hk]
      · simp [put, hk, ih]

theorem nodup_keys_put {d : Dict α} (hd : (keys d).Nodup) (key : String) (value : α) :
    (keys (put d key value)).Nodup := by
  rw [keys_put]
  split
  · exact hd
  · next hmem =>
      refine List.nodup_append.mpr ⟨hd, List.nodup_singleton _, ?_⟩
      intro a ha b hb heq
      rw [heq, List.mem_singleton.mp hb] at ha
      exact hmem ha

theorem mem_put {d : Dict α} {key : String} {value : α} {entry : String × α}
    (h : entry ∈ put d key value) : entry = (key, value) ∨ entry ∈ d := by
  induction d with
  | nil => exact .inl (List.mem_singleton.mp h)
  | cons first rest ih =>
      obtain ⟨k, v⟩ := first
      rw [put] at h
      split at h
      · next hk =>
          rcases List.mem_cons.mp h with heq | hmem
          · exact .inl (hk ▸ heq)
          · exact .inr (List.mem_cons_of_mem _ hmem)
      · rcases List.mem_cons.mp h with heq | hmem
        · exact .inr (heq ▸ List.mem_cons_self)
        · exact (ih hmem).imp_right (List.mem_cons_of_mem _)

theorem nodup_keys_merged (entries : List (String × α)) : (keys (merged entries)).Nodup :=
  List.foldlRecOn (motive := fun d : Dict α => (keys d).Nodup) entries _ List.nodup_nil
    fun _ hd entry _ => nodup_keys_put hd entry.1 entry.2

theorem forall_mem_merged {p : String × α → Prop} {entries : List (String × α)}
    (h : ∀ entry ∈ entries, p entry) : ∀ entry ∈ merged entries, p entry := by
  refine List.foldlRecOn (motive := fun d : Dict α => ∀ entry ∈ d, p entry) entries _
    (by simp) ?_
  intro d hd entry hentry other hother
  rcases mem_put hother with rfl | hold
  · exact h _ hentry
  · exact hd other hold

end ApiDoc.Dict
