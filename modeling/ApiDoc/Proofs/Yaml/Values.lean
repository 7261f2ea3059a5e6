import ApiDoc.Proofs.Datum
import ApiDoc.Yaml.Reader

/-!
# Values of YAML files

Every scalar that a reader gives has a value without keys, and an alias stands for a
datum that a reader gave before.
-/

namespace ApiDoc.Yaml

theorem Plain.distinct_intValue? {i : Int} {j : Json} (h : intValue? i = some j) :
    j.Distinct := by
  rw [intValue?] at h
  split at h
  · exact Option.some.inj h ▸ .num
  · cases h

theorem Plain.distinct_floatValue (x : Binary64) : (floatValue x).Distinct := by
  rw [floatValue]
  split
  · exact .num
  · exact .null

theorem Plain.distinct_value? {cs : List Char} {j : Json} (h : value? cs = some j) :
    j.Distinct := by
  rw [value?] at h
  split at h
  · exact Option.some.inj h ▸ .null
  · exact Option.some.inj h ▸ .bool
  · exact distinct_intValue? h
  · exact Option.some.inj h ▸ distinct_floatValue _
  · exact Option.some.inj h ▸ .str

theorem distinct_scalarDatum (tag : Option String) (cs : List Char) (plain : Bool) :
    (scalarDatum tag cs plain).Distinct := by
  unfold scalarDatum
  dsimp only
  split
  · exact .blank
  · refine .scalar fun j hj => ?_
    split at hj
    · split at hj
      · exact Plain.distinct_value? hj
      · exact Option.some.inj hj ▸ .str
    · split at hj
      · obtain ⟨b, -, rfl⟩ := Option.map_eq_some_iff.mp hj
        exact .bool
      · split at hj
        · obtain ⟨i, -, hi⟩ := Option.bind_eq_some_iff.mp hj
          exact Plain.distinct_intValue? hi
        · split at hj
          · obtain ⟨x, -, rfl⟩ := Option.map_eq_some_iff.mp hj
            exact Plain.distinct_floatValue x
          · split at hj
            · split at hj
              · exact Option.some.inj hj ▸ .null
              · cases hj
            · split at hj
              · cases hj
              · exact Option.some.inj hj ▸ .str

/-- The data with an anchor have scalars that repeat no key. -/
def Scope.Distinct (s : Scope) : Prop :=
  ∀ entry ∈ s.anchors, ∀ d ∈ entry.2, d.Distinct

theorem Scope.Distinct.bind {s : Scope} (hs : s.Distinct) (anchor : Option String)
    {value : Option Datum} (hvalue : ∀ d ∈ value, d.Distinct) :
    (s.bind anchor value).Distinct := by
  cases anchor with
  | none => exact hs
  | some name =>
      intro entry hentry
      rcases Dict.mem_put hentry with rfl | hold
      · exact hvalue
      · exact hs entry hold

/-- What was read has a property, and the scope after it is in order. -/
def Sound {α : Type} (q : α → Prop) (p : Parsed α) : Prop :=
  q p.1 ∧ p.2.1.Distinct

/-- Lists of data whose scalars repeat no key. -/
def AllDistinct (items : List Datum) : Prop :=
  ∀ d ∈ items, d.Distinct

/-- Entries whose values have scalars that repeat no key. -/
def ValuesDistinct (entries : List (Datum × Datum)) : Prop :=
  ∀ entry ∈ entries, entry.2.Distinct

/-- The readers with this fuel give nothing but sound results in a scope that is in
order. -/
structure Reads (fuel : Nat) : Prop where
  value : ∀ {depth place s ts}, s.Distinct →
    ∀ p ∈ value? fuel depth place s ts, Sound Datum.Distinct p
  collection : ∀ {depth place s ts}, s.Distinct →
    ∀ found ∈ collection? fuel depth place s ts, ∀ p ∈ found, Sound Datum.Distinct p
  optional : ∀ {depth place stops s ts}, s.Distinct →
    ∀ p ∈ optional? fuel depth place stops s ts, Sound Datum.Distinct p
  blockItems : ∀ {depth acc s ts}, AllDistinct acc → s.Distinct →
    ∀ p ∈ blockItems? fuel depth acc s ts, Sound AllDistinct p
  indentless : ∀ {depth acc s ts}, AllDistinct acc → s.Distinct →
    ∀ p ∈ indentless? fuel depth acc s ts, Sound AllDistinct p
  blockEntries : ∀ {depth acc s ts}, ValuesDistinct acc → s.Distinct →
    ∀ p ∈ blockEntries? fuel depth acc s ts, Sound ValuesDistinct p
  flowItems : ∀ {depth acc s ts}, AllDistinct acc → s.Distinct →
    ∀ p ∈ flowItems? fuel depth acc s ts, Sound AllDistinct p
  pair : ∀ {depth s ts}, s.Distinct → ∀ p ∈ pair? fuel depth s ts, Sound Datum.Distinct p
  flowEntries : ∀ {depth acc s ts}, ValuesDistinct acc → s.Distinct →
    ∀ p ∈ flowEntries? fuel depth acc s ts, Sound ValuesDistinct p

section Step

variable {fuel depth : Nat} {place : Place} {s : Scope} {ts : List Token}

theorem reads_zero : Reads 0 where
  value _ _ h := by simp [value?] at h
  collection _ _ h := by simp [collection?] at h
  optional _ _ h := by simp [optional?] at h
  blockItems _ _ _ h := by simp [blockItems?] at h
  indentless _ _ _ h := by simp [indentless?] at h
  blockEntries _ _ _ h := by simp [blockEntries?] at h
  flowItems _ _ _ h := by simp [flowItems?] at h
  pair _ _ h := by simp [pair?] at h
  flowEntries _ _ _ h := by simp [flowEntries?] at h

theorem AllDistinct.reverse {items : List Datum} (h : AllDistinct items) :
    AllDistinct items.reverse := fun d hd => h d (List.mem_reverse.mp hd)

theorem ValuesDistinct.reverse {entries : List (Datum × Datum)} (h : ValuesDistinct entries) :
    ValuesDistinct entries.reverse := fun entry hentry => h entry (List.mem_reverse.mp hentry)

theorem Reads.value_succ (h : Reads fuel) (hs : s.Distinct) :
    ∀ p ∈ value? (fuel + 1) depth place s ts, Sound Datum.Distinct p := by
  intro p hp
  unfold value? at hp
  split at hp
  · split at hp
    · next d hfind =>
        obtain rfl := Option.some.inj hp
        exact ⟨hs _ (Dict.mem_of_find? hfind) d rfl, hs⟩
    · cases hp
  · split at hp
    · cases hp
    · next marks ts _ =>
        dsimp only at hp
        split at hp
        · obtain rfl := Option.some.inj hp
          have hd := distinct_scalarDatum marks.tag
          exact ⟨hd _ _, hs.bind _ fun _ heq => Option.some.inj heq ▸ hd _ _⟩
        · split at hp
          · next d _ _ hcollection =>
              obtain rfl := Option.some.inj hp
              obtain ⟨hd, hscope⟩ := h.collection (hs.bind _ (by simp)) _ hcollection _ rfl
              exact ⟨hd, hscope.bind _ fun _ heq => Option.some.inj heq ▸ hd⟩
          · split at hp
            · obtain rfl := Option.some.inj hp
              have hd := distinct_scalarDatum marks.tag [] true
              exact ⟨hd, hs.bind _ fun _ heq => Option.some.inj heq ▸ hd⟩
            · cases hp
          · cases hp

/-- What was read is made into a value without repeated keys. -/
theorem sound_of_made {α : Type} {P : α → Prop} {make : α → Datum}
    {read : Option (Parsed α)} {found : Option (Parsed Datum)}
    (hmake : ∀ a, P a → (make a).Distinct) (hread : ∀ p ∈ read, Sound P p)
    (hfound : (read.bind fun p => some (some (make p.1, p.2))) = some found) :
    ∀ p ∈ found, Sound Datum.Distinct p := by
  intro p hp
  obtain ⟨made, hmade, heq⟩ := Option.bind_eq_some_iff.mp hfound
  obtain rfl := Option.some.inj heq
  obtain rfl := Option.some.inj hp
  exact ⟨hmake _ (hread made hmade).1, (hread made hmade).2⟩

theorem Reads.collection_succ (h : Reads fuel) (hs : s.Distinct) :
    ∀ found ∈ collection? (fuel + 1) depth place s ts, ∀ p ∈ found,
      Sound Datum.Distinct p := by
  have hempty : AllDistinct [] := by simp [AllDistinct]
  have hnone : ValuesDistinct [] := by simp [ValuesDistinct]
  have hnothing : ∀ p ∈ (none : Option (Parsed Datum)), Sound Datum.Distinct p := by simp
  have hlist : ∀ {read : Option (Parsed (List Datum))} {found : Option (Parsed Datum)},
      (∀ p ∈ read, Sound AllDistinct p) →
      (read.bind fun p => some (some (Datum.list p.1 false, p.2))) = some found →
      ∀ p ∈ found, Sound Datum.Distinct p := sound_of_made fun _ => .list
  have hmap : ∀ {read : Option (Parsed (List (Datum × Datum)))} {found : Option (Parsed Datum)},
      (∀ p ∈ read, Sound ValuesDistinct p) →
      (read.bind fun p => some (some (Datum.map p.1, p.2))) = some found →
      ∀ p ∈ found, Sound Datum.Distinct p := sound_of_made fun _ => .map
  intro found hfound
  cases depth with
  | zero =>
      unfold collection? at hfound
      split at hfound
      · cases hfound
      · cases hfound
      · cases hfound
      · cases hfound
      · cases hfound
      · exact Option.some.inj hfound ▸ hnothing
  | succ depth =>
      unfold collection? at hfound
      dsimp only at hfound
      split at hfound
      · split at hfound
        · exact hlist (h.indentless hempty hs) hfound
        · exact Option.some.inj hfound ▸ hnothing
      · split at hfound
        · exact Option.some.inj hfound ▸ hnothing
        · exact hlist (h.blockItems hempty hs) hfound
      · split at hfound
        · exact Option.some.inj hfound ▸ hnothing
        · exact hmap (h.blockEntries hnone hs) hfound
      · exact hlist (h.flowItems hempty hs) hfound
      · exact hmap (h.flowEntries hnone hs) hfound
      · exact Option.some.inj hfound ▸ hnothing

theorem Reads.optional_succ (h : Reads fuel) {stops : List Token} (hs : s.Distinct) :
    ∀ p ∈ optional? (fuel + 1) depth place stops s ts, Sound Datum.Distinct p := by
  intro p hp
  unfold optional? at hp
  split at hp
  · obtain rfl := Option.some.inj hp
    exact ⟨.blank, hs⟩
  · exact h.value hs p hp

theorem Reads.blockItems_succ (h : Reads fuel) {acc : List Datum} (hacc : AllDistinct acc)
    (hs : s.Distinct) :
    ∀ p ∈ blockItems? (fuel + 1) depth acc s ts, Sound AllDistinct p := by
  intro p hp
  unfold blockItems? at hp
  split at hp
  · split at hp
    · next hitem =>
        obtain ⟨hd, hscope⟩ := h.optional hs _ hitem
        exact h.blockItems (List.forall_mem_cons.mpr ⟨hd, hacc⟩) hscope p hp
    · cases hp
  · obtain rfl := Option.some.inj hp
    exact ⟨hacc.reverse, hs⟩
  · cases hp

theorem Reads.indentless_succ (h : Reads fuel) {acc : List Datum} (hacc : AllDistinct acc)
    (hs : s.Distinct) :
    ∀ p ∈ indentless? (fuel + 1) depth acc s ts, Sound AllDistinct p := by
  intro p hp
  unfold indentless? at hp
  split at hp
  · split at hp
    · next hitem =>
        obtain ⟨hd, hscope⟩ := h.optional hs _ hitem
        exact h.indentless (List.forall_mem_cons.mpr ⟨hd, hacc⟩) hscope p hp
    · cases hp
  · obtain rfl := Option.some.inj hp
    exact ⟨hacc.reverse, hs⟩

theorem Reads.blockEntries_succ (h : Reads fuel) {acc : List (Datum × Datum)}
    (hacc : ValuesDistinct acc) (hs : s.Distinct) :
    ∀ p ∈ blockEntries? (fuel + 1) depth acc s ts, Sound ValuesDistinct p := by
  intro p hp
  unfold blockEntries? at hp
  split at hp
  · split at hp
    · next hkey =>
        obtain ⟨-, hscope⟩ := h.optional hs _ hkey
        split at hp
        · next hvalue =>
            obtain ⟨hd, hscope⟩ := h.optional hscope _ hvalue
            exact h.blockEntries (List.forall_mem_cons.mpr ⟨hd, hacc⟩) hscope p hp
        · cases hp
    · next hkey =>
        obtain ⟨-, hscope⟩ := h.optional hs _ hkey
        exact h.blockEntries (List.forall_mem_cons.mpr ⟨.blank, hacc⟩) hscope p hp
    · cases hp
  · obtain rfl := Option.some.inj hp
    exact ⟨hacc.reverse, hs⟩
  · cases hp

theorem Reads.pair_succ (h : Reads fuel) (hs : s.Distinct) :
    ∀ p ∈ pair? (fuel + 1) depth s ts, Sound Datum.Distinct p := by
  intro p hp
  unfold pair? at hp
  dsimp only at hp
  have hsound : ∀ key ∈ (if isMissing [.value, .flowEntry, .flowSequenceEnd] ts then
      some (Datum.blank, s, ts.drop 1) else value? fuel depth .flow s ts),
      Sound Datum.Distinct key := by
    intro key hkey
    split at hkey
    · exact Option.some.inj hkey ▸ ⟨.blank, hs⟩
    · exact h.value hs key hkey
  split at hp
  · next hkey =>
      obtain ⟨-, hscope⟩ := hsound _ hkey
      split at hp
      · next hvalue =>
          obtain rfl := Option.some.inj hp
          obtain ⟨hd, hscope⟩ := h.optional hscope _ hvalue
          exact ⟨.map (List.forall_mem_singleton.mpr hd), hscope⟩
      · cases hp
  · next hkey =>
      obtain rfl := Option.some.inj hp
      exact ⟨.map (List.forall_mem_singleton.mpr .blank), (hsound _ hkey).2⟩
  · cases hp

/-- An item of a list in brackets is a pair or a value; what follows it does not depend on
which. -/
theorem Reads.flowItem (h : Reads fuel) (hs : s.Distinct) {item : Parsed Datum}
    (hitem : (match ts with
      | .key :: rest =>
          match depth with
          | 0 => none
          | depth + 1 => pair? fuel depth s rest
      | _ => value? fuel depth .flow s ts) = some item) : Sound Datum.Distinct item := by
  split at hitem
  · split at hitem
    · cases hitem
    · exact h.pair hs item hitem
  · exact h.value hs item hitem

theorem Reads.flowItems_succ (h : Reads fuel) {acc : List Datum} (hacc : AllDistinct acc)
    (hs : s.Distinct) :
    ∀ p ∈ flowItems? (fuel + 1) depth acc s ts, Sound AllDistinct p := by
  intro p hp
  unfold flowItems? at hp
  split at hp
  · obtain rfl := Option.some.inj hp
    exact ⟨hacc.reverse, hs⟩
  · dsimp only at hp
    split at hp
    · next hitem =>
        obtain ⟨hd, hscope⟩ := h.flowItem hs hitem
        exact h.flowItems (List.forall_mem_cons.mpr ⟨hd, hacc⟩) hscope p hp
    · next hitem =>
        obtain ⟨hd, hscope⟩ := h.flowItem hs hitem
        obtain rfl := Option.some.inj hp
        exact ⟨AllDistinct.reverse (List.forall_mem_cons.mpr ⟨hd, hacc⟩), hscope⟩
    · cases hp

/-- An entry of a map in braces without a value, or without a key mark, has a blank value. -/
theorem Reads.flowEntry (h : Reads fuel) (hs : s.Distinct) {entry : Parsed (Datum × Datum)}
    (hentry : (match ts with
      | .key :: rest =>
          match optional? fuel depth .flow [.value, .flowEntry, .flowMappingEnd] s rest with
          | some (k, s, .value :: rest) =>
              match optional? fuel depth .flow [.flowEntry, .flowMappingEnd] s rest with
              | some (d, s, rest) => some ((k, d), s, rest)
              | none => none
          | some (k, s, rest) => some ((k, .blank), s, rest)
          | none => none
      | _ =>
          match value? fuel depth .flow s ts with
          | some (k, s, rest) => some ((k, .blank), s, rest)
          | none => none) = some entry) :
    Sound (fun entry : Datum × Datum => entry.2.Distinct) entry := by
  split at hentry
  · split at hentry
    · next hkey =>
        obtain ⟨-, hscope⟩ := h.optional hs _ hkey
        split at hentry
        · next hvalue =>
            obtain rfl := Option.some.inj hentry
            exact h.optional hscope _ hvalue
        · cases hentry
    · next hkey =>
        obtain rfl := Option.some.inj hentry
        exact ⟨.blank, (h.optional hs _ hkey).2⟩
    · cases hentry
  · split at hentry
    · next hkey =>
        obtain rfl := Option.some.inj hentry
        exact ⟨.blank, (h.value hs _ hkey).2⟩
    · cases hentry

theorem Reads.flowEntries_succ (h : Reads fuel) {acc : List (Datum × Datum)}
    (hacc : ValuesDistinct acc) (hs : s.Distinct) :
    ∀ p ∈ flowEntries? (fuel + 1) depth acc s ts, Sound ValuesDistinct p := by
  intro p hp
  unfold flowEntries? at hp
  split at hp
  · obtain rfl := Option.some.inj hp
    exact ⟨hacc.reverse, hs⟩
  · dsimp only at hp
    split at hp
    · next hentry =>
        obtain ⟨hd, hscope⟩ := h.flowEntry hs hentry
        exact h.flowEntries (List.forall_mem_cons.mpr ⟨hd, hacc⟩) hscope p hp
    · next hentry =>
        obtain ⟨hd, hscope⟩ := h.flowEntry hs hentry
        obtain rfl := Option.some.inj hp
        exact ⟨ValuesDistinct.reverse (List.forall_mem_cons.mpr ⟨hd, hacc⟩), hscope⟩
    · cases hp

end Step

theorem reads (fuel : Nat) : Reads fuel := by
  induction fuel with
  | zero => exact reads_zero
  | succ fuel ih =>
      exact
        { value := ih.value_succ
          collection := ih.collection_succ
          optional := ih.optional_succ
          blockItems := ih.blockItems_succ
          indentless := ih.indentless_succ
          blockEntries := ih.blockEntries_succ
          flowItems := ih.flowItems_succ
          pair := ih.pair_succ
          flowEntries := ih.flowEntries_succ }

theorem anchors_of_directives? {version : Bool} {own : List String} {s next : Scope}
    {ts rest : List Token} (h : directives? version own s ts = some (next, rest)) :
    next.anchors = s.anchors := by
  induction ts generalizing version own s with
  | nil =>
      unfold directives? at h
      exact congrArg Scope.anchors (Prod.mk.inj (Option.some.inj h)).1.symm
  | cons t later ih =>
      unfold directives? at h
      split at h
      · next heq =>
          obtain ⟨-, rfl⟩ := List.cons.inj heq
          split at h
          · cases h
          · exact ih h
      · next heq =>
          obtain ⟨-, rfl⟩ := List.cons.inj heq
          split at h
          · cases h
          · have hsame := ih h
            exact hsame
      · exact congrArg Scope.anchors (Prod.mk.inj (Option.some.inj h)).1.symm

theorem distinct_of_content? {s : Scope} (hs : s.Distinct) {ts : List Token} {d : Datum}
    (h : content? s ts = some d) : d.Distinct := by
  unfold content? at h
  dsimp only at h
  split at h
  · split at h
    · exact Option.some.inj h ▸ .blank
    · cases h
  · split at h
    · next hvalue =>
        split at h
        · exact Option.some.inj h ▸ ((reads _).value hs _ hvalue).1
        · cases h
    · cases h

/-- No scalar of a text has a value that repeats a key. -/
theorem distinct_of_read? {text : List Char} {d : Datum} (h : read? text = some d) :
    d.Distinct := by
  obtain ⟨ts, -, h⟩ := Option.bind_eq_some_iff.mp h
  have hnone : ∀ {s : Scope}, s.anchors = [] → s.Distinct := by
    intro s hs entry hentry
    rw [hs] at hentry
    cases hentry
  unfold document? at h
  split at h
  · exact Option.some.inj h ▸ .blank
  · split at h
    · split at h
      · next hdirectives =>
          exact distinct_of_content? (hnone (anchors_of_directives? hdirectives)) h
      · cases h
    · split at h
      · cases h
      · exact distinct_of_content? (hnone rfl) h

end ApiDoc.Yaml
