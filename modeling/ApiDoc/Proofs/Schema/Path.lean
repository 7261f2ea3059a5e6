import ApiDoc.Proofs.Dict
import ApiDoc.Proofs.Schema.Tidy

/-!
# Paths into schemas

A path leads into a schema segment by segment: a star to the schema of the elements, any
other segment to the property of that name.  Steps lead to properties of any name, a star
included.  Finishing the element slots keeps what paths lead to, and adds only the strings
of arrays without a slot.
-/

namespace ApiDoc.Schema

/-- The schema to which one segment of a path leads. -/
def child? (s : Schema) (token : String) : Option Schema :=
  if token = "*" then s.item? else Dict.find? (s.properties.getD []) token

/-- The schema to which a path leads. -/
def at? : List String → Schema → Option Schema
  | [], s => some s
  | token :: rest, s => (s.child? token).bind (at? rest)

theorem child?_star (s : Schema) : s.child? "*" = s.item? :=
  if_pos rfl

theorem child?_of_ne (s : Schema) {token : String} (h : token ≠ "*") :
    s.child? token = Dict.find? (s.properties.getD []) token :=
  if_neg h

/-- A schema without properties and elements leads nowhere. -/
theorem child?_eq_none {s : Schema} (hproperties : s.properties.getD [] = [])
    (hitem : s.item? = none) (token : String) : s.child? token = none := by
  by_cases hstar : token = "*"
  · rw [hstar, child?_star, hitem]
  · rw [child?_of_ne s hstar, hproperties, Dict.find?_nil]

@[simp] theorem at?_nil (s : Schema) : s.at? [] = some s := rfl

theorem at?_cons (s : Schema) (token : String) (rest : List String) :
    s.at? (token :: rest) = (s.child? token).bind (at? rest) := rfl

theorem at?_append (s : Schema) (p q : List String) :
    s.at? (p ++ q) = (s.at? p).bind (at? q) := by
  induction p generalizing s with
  | nil => rfl
  | cons token rest ih =>
      rw [List.cons_append, at?_cons, at?_cons, Option.bind_assoc]
      exact congrArg (Option.bind (s.child? token)) (funext fun child => ih child)

theorem at?_concat (s : Schema) (p : List String) (token : String) :
    s.at? (p ++ [token]) = (s.at? p).bind (child? · token) := by
  rw [at?_append]
  refine congrArg (Option.bind (s.at? p)) (funext fun node => ?_)
  rw [at?_cons]
  cases node.child? token <;> rfl

/-- One step into a schema, to that of the elements or to a property of any name. -/
inductive Step
  | element
  | property (name : String)

/-- The step that a segment stands for. -/
def Step.ofToken (token : String) : Step :=
  if token = "*" then element else property token

/-- The schema to which a step leads. -/
def step? (s : Schema) : Step → Option Schema
  | .element => s.item?
  | .property name => Dict.find? (s.properties.getD []) name

/-- The schema to which steps lead. -/
def node? : List Step → Schema → Option Schema
  | [], s => some s
  | step :: rest, s => (s.step? step).bind (node? rest)

theorem node?_cons (s : Schema) (step : Step) (rest : List Step) :
    s.node? (step :: rest) = (s.step? step).bind (node? rest) := rfl

theorem child?_eq_step? (s : Schema) (token : String) :
    s.child? token = s.step? (.ofToken token) := by
  rw [child?, Step.ofToken]
  split <;> rfl

theorem at?_eq_node? (s : Schema) (p : List String) : s.at? p = s.node? (p.map .ofToken) := by
  induction p generalizing s with
  | nil => rfl
  | cons token rest ih =>
      rw [at?_cons, List.map_cons, node?_cons, child?_eq_step?]
      exact congrArg (Option.bind _) (funext ih)

theorem Step.ofToken_eq_element_iff {token : String} : ofToken token = element ↔ token = "*" := by
  rw [ofToken]
  split <;> simp_all

/-- A path that leads somewhere does so all along. -/
theorem exists_at?_of_append {s node : Schema} {p q : List String}
    (h : s.at? (p ++ q) = some node) :
    ∃ middle, s.at? p = some middle ∧ middle.at? q = some node := by
  rw [at?_append] at h
  exact Option.bind_eq_some_iff.mp h

/-! ## Induction over the schemas inside a schema -/

theorem sizeOf_lt_of_mem_properties {s : Schema} {properties : List (String × Schema)}
    (h : s.properties = some properties) {entry : String × Schema} (hentry : entry ∈ properties) :
    sizeOf entry.2 < sizeOf s := by
  have hlist : sizeOf entry < sizeOf properties := List.sizeOf_lt_of_mem hentry
  have hpair : sizeOf entry = 1 + sizeOf entry.1 + sizeOf entry.2 := rfl
  have hsome : sizeOf s.properties = 1 + sizeOf properties := by rw [h]; rfl
  have hfield : sizeOf s.properties < sizeOf s := by
    cases s
    simp only [mk.sizeOf_spec]
    omega
  omega

theorem sizeOf_lt_of_mem_items {s : Schema} {items : Items Schema} (h : s.items = some items)
    {item : Schema} (hitem : item ∈ items.schemas) : sizeOf item < sizeOf s := by
  have hinner : sizeOf item < sizeOf items := by
    cases items with
    | list slots =>
        have hslot : sizeOf item < sizeOf slots := List.sizeOf_lt_of_mem hitem
        have hlist : sizeOf (Items.list slots) = 1 + sizeOf slots := rfl
        omega
    | single only =>
        obtain rfl := List.mem_singleton.mp hitem
        have hsingle : sizeOf (Items.single item) = 1 + sizeOf item := rfl
        omega
  have hsome : sizeOf s.items = 1 + sizeOf items := by rw [h]; rfl
  have hfield : sizeOf s.items < sizeOf s := by
    cases s
    simp only [mk.sizeOf_spec]
    omega
  omega

/-- What holds of a schema if it holds of all schemas inside holds of every schema. -/
theorem induction_inside {motive : Schema → Prop}
    (h : ∀ s : Schema, (∀ properties ∈ s.properties, ∀ entry ∈ properties, motive entry.2) →
      (∀ items ∈ s.items, ∀ item ∈ items.schemas, motive item) → motive s)
    (s : Schema) : motive s := by
  refine h s ?_ ?_
  · intro properties hproperties entry hentry
    exact induction_inside h entry.2
  · intro items hitems item hitem
    exact induction_inside h item
termination_by sizeOf s
decreasing_by
  · exact sizeOf_lt_of_mem_properties hproperties hentry
  · exact sizeOf_lt_of_mem_items hitems hitem

theorem exists_of_item?_eq_some {s item : Schema} (h : s.item? = some item) :
    ∃ items ∈ s.items, item ∈ items.schemas := by
  rw [item?] at h
  cases hitems : s.items with
  | none =>
      rw [hitems] at h
      cases h
  | some items =>
      rw [hitems] at h
      refine ⟨items, rfl, ?_⟩
      cases items with
      | single only => exact List.mem_singleton.mpr (Option.some.inj h).symm
      | list slots => exact List.mem_of_head? h

/-- One segment leads to an element or to a property. -/
theorem inside_of_child?_eq_some {s child : Schema} {token : String}
    (h : s.child? token = some child) :
    (∃ items ∈ s.items, child ∈ items.schemas) ∨
      ∃ properties ∈ s.properties, (token, child) ∈ properties := by
  by_cases hstar : token = "*"
  · rw [hstar, child?_star] at h
    exact .inl (exists_of_item?_eq_some h)
  · rw [child?_of_ne _ hstar] at h
    cases hproperties : s.properties with
    | none => simp [hproperties] at h
    | some properties =>
        rw [hproperties] at h
        exact .inr ⟨properties, rfl, Dict.mem_of_find? h⟩

/-- What holds of a schema if it holds of all that one segment leads to holds of every
schema. -/
theorem induction_child {motive : Schema → Prop}
    (h : ∀ s : Schema, (∀ token child, s.child? token = some child → motive child) → motive s)
    (s : Schema) : motive s := by
  induction s using induction_inside with
  | h s ihProperties ihItems =>
      apply h
      intro token child hchild
      rcases inside_of_child?_eq_some hchild with
        ⟨items, hitems, hmem⟩ | ⟨properties, hproperties, hmem⟩
      · exact ihItems items hitems child hmem
      · exact ihProperties properties hproperties (token, child) hmem

/-- Everything directly inside a schema is what one segment of a path leads to. -/
structure Routed (s : Schema) : Prop where
  properties : ∀ entry ∈ s.properties.getD [], s.child? entry.1 = some entry.2
  items : ∀ items ∈ s.items, ∀ item ∈ items.schemas, s.child? "*" = some item

/-- Where paths lead to everything inside, what holds of all they lead to holds of all
schemas inside. -/
theorem all_of_at? {q : Schema → Prop} {s : Schema}
    (h : ∀ p node, s.at? p = some node → node.Routed ∧ q node) : s.All q := by
  induction s using induction_inside with
  | h s ihProperties ihItems =>
      obtain ⟨hrouted, hhere⟩ := h [] s rfl
      have hbelow : ∀ token child, s.child? token = some child →
          ∀ p node, child.at? p = some node → node.Routed ∧ q node := by
        intro token child hchild p node hnode
        apply h (token :: p)
        rw [at?_cons, hchild, Option.bind_some, hnode]
      refine .intro hhere ?_ ?_
      · intro properties hproperties entry hentry
        have hmem : entry ∈ s.properties.getD [] := by
          rw [hproperties]
          exact hentry
        exact ihProperties properties hproperties entry hentry
          (hbelow entry.1 entry.2 (hrouted.properties entry hmem))
      · intro items hitems item hitem
        exact ihItems items hitems item hitem
          (hbelow "*" item (hrouted.items items hitems item hitem))

/-! ## Finished schemas -/

/-- No list of slots is left: all elements, at every depth, have one schema. -/
def Finished (s : Schema) : Prop :=
  s.All fun inner => ∀ items ∈ inner.items, ∃ item, items = .single item

theorem collapseProperties_eq_map (properties : Option (List (String × Schema))) :
    collapseProperties properties = properties.map (Dict.mapValues collapse) := by
  cases properties with
  | none => rfl
  | some properties => exact congrArg some (collapseAll_eq_mapValues properties)

theorem exists_of_collapseItems_eq_some {items : Option (Items Schema)}
    {finished : Items Schema} (h : collapseItems items = some finished) :
    ∃ item, finished = .single item ∧
      (item = typed "string" ∨ ∃ old ∈ items, ∃ slot ∈ old.schemas, item = slot.collapse) := by
  cases items with
  | none => cases h
  | some items =>
      cases items with
      | single item =>
          obtain rfl := Option.some.inj h
          exact ⟨_, rfl, .inr ⟨_, rfl, item, List.mem_cons_self, rfl⟩⟩
      | list slots =>
          cases slots with
          | nil =>
              obtain rfl := Option.some.inj h
              exact ⟨_, rfl, .inl rfl⟩
          | cons slot slots =>
              obtain rfl := Option.some.inj h
              exact ⟨_, rfl, .inr ⟨_, rfl, slot, List.mem_cons_self, rfl⟩⟩

theorem finished_typed (type : String) : (typed type).Finished :=
  .intro (fun _ hnone => nomatch hnone) (fun _ hnone => nomatch hnone)
    (fun _ hnone => nomatch hnone)

/-- Finishing leaves no list of slots. -/
theorem finished_collapse (s : Schema) : s.collapse.Finished := by
  induction s using induction_inside with
  | h s ihProperties ihItems =>
      rw [collapse_eq]
      refine .intro ?_ ?_ ?_
      · intro items hitems
        obtain ⟨item, rfl, -⟩ := exists_of_collapseItems_eq_some hitems
        exact ⟨item, rfl⟩
      · intro properties hproperties entry hentry
        rw [collapseProperties_eq_map] at hproperties
        obtain ⟨old, hold, rfl⟩ := Option.map_eq_some_iff.mp hproperties
        obtain ⟨oldEntry, hmem, rfl⟩ := List.mem_map.mp hentry
        exact ihProperties old hold oldEntry hmem
      · intro items hitems item hitem
        obtain ⟨only, rfl, hfrom⟩ := exists_of_collapseItems_eq_some hitems
        obtain rfl := List.mem_singleton.mp hitem
        rcases hfrom with rfl | ⟨old, hold, slot, hslot, rfl⟩
        · exact finished_typed "string"
        · exact ihItems old hold slot hslot

/-! ## Paths into finished schemas -/

/-- The elements of an array without a slot become strings. -/
theorem step?_collapse_of_slotless {s : Schema} (h : s.items = some (.list [])) :
    s.collapse.step? .element = some (typed "string") := by
  rw [collapse_eq, step?, item?, h]
  rfl

/-- All else to which a step leads is finished. -/
theorem step?_collapse {s : Schema} {step : Step}
    (h : step = .element → s.items ≠ some (.list [])) :
    s.collapse.step? step = (s.step? step).map collapse := by
  rw [collapse_eq]
  cases step with
  | element =>
      have hslots := h rfl
      rw [step?, step?, item?, item?]
      cases hitems : s.items with
      | none => rfl
      | some items =>
          cases items with
          | single item => rfl
          | list slots =>
              cases slots with
              | nil => exact absurd hitems hslots
              | cons slot slots => rfl
  | property name =>
      rw [step?, step?, collapseProperties_eq_map]
      cases s.properties with
      | none => rfl
      | some properties => exact Dict.find?_mapValues collapse properties name

theorem step?_eq_none_of_slotless {s : Schema} (h : s.items = some (.list [])) :
    s.step? .element = none := by
  rw [step?, item?, h]
  rfl

theorem step?_typed (type : String) (step : Step) : (typed type).step? step = none := by
  cases step <;> rfl

/-- What steps lead to is finished with the rest. -/
theorem node?_collapse {s node : Schema} {p : List Step} (h : s.node? p = some node) :
    s.collapse.node? p = some node.collapse := by
  induction p generalizing s with
  | nil => exact congrArg (some ∘ collapse) (Option.some.inj h)
  | cons step rest ih =>
      obtain ⟨child, hchild, hrest⟩ := Option.bind_eq_some_iff.mp h
      have hslots : step = .element → s.items ≠ some (.list []) := by
        rintro rfl hitems
        rw [step?_eq_none_of_slotless hitems] at hchild
        cases hchild
      rw [node?_cons, step?_collapse hslots, hchild]
      exact ih hrest

/-- Steps into a finished schema led somewhere before, or they lead to the strings of an
array that had no slot. -/
theorem exists_of_node?_collapse {s node : Schema} {p : List Step}
    (h : s.collapse.node? p = some node) :
    (∃ old, s.node? p = some old ∧ node = old.collapse) ∨
      ∃ front array, p = front ++ [.element] ∧ s.node? front = some array ∧
        array.items = some (.list []) ∧ node = typed "string" := by
  induction p generalizing s with
  | nil => exact .inl ⟨s, rfl, (Option.some.inj h).symm⟩
  | cons step rest ih =>
      by_cases hslotless : step = .element ∧ s.items = some (.list [])
      · obtain ⟨rfl, hitems⟩ := hslotless
        rw [node?_cons, step?_collapse_of_slotless hitems, Option.bind_some] at h
        cases rest with
        | nil => exact .inr ⟨[], s, rfl, rfl, hitems, (Option.some.inj h).symm⟩
        | cons next more =>
            rw [node?_cons, step?_typed] at h
            cases h
      · rw [node?_cons, step?_collapse fun hstep hitems => hslotless ⟨hstep, hitems⟩] at h
        obtain ⟨finished, hfinished, h⟩ := Option.bind_eq_some_iff.mp h
        obtain ⟨child, hchild, rfl⟩ := Option.map_eq_some_iff.mp hfinished
        rcases ih h with ⟨old, hold, rfl⟩ | ⟨front, array, rfl, harray, hitems, rfl⟩
        · exact .inl ⟨old, by rw [node?_cons, hchild, Option.bind_some, hold], rfl⟩
        · refine .inr ⟨step :: front, array, rfl, ?_, hitems, rfl⟩
          rw [node?_cons, hchild, Option.bind_some, harray]

theorem child?_eq_none_of_slotless {s : Schema} (h : s.items = some (.list [])) :
    s.child? "*" = none := by
  rw [child?_star]
  exact step?_eq_none_of_slotless h

theorem child?_collapse {s : Schema} {token : String}
    (h : token = "*" → s.items ≠ some (.list [])) :
    s.collapse.child? token = (s.child? token).map collapse := by
  rw [child?_eq_step?, child?_eq_step?,
    step?_collapse fun hstep => h (Step.ofToken_eq_element_iff.mp hstep)]

theorem at?_collapse {s node : Schema} {p : List String} (h : s.at? p = some node) :
    s.collapse.at? p = some node.collapse := by
  rw [at?_eq_node?] at h ⊢
  exact node?_collapse h

theorem exists_of_at?_collapse {s node : Schema} {p : List String}
    (h : s.collapse.at? p = some node) :
    (∃ old, s.at? p = some old ∧ node = old.collapse) ∨
      ∃ front array, p = front ++ ["*"] ∧ s.at? front = some array ∧
        array.items = some (.list []) ∧ node = typed "string" := by
  simp only [at?_eq_node?] at h ⊢
  rcases exists_of_node?_collapse h with hold | ⟨front, array, hp, harray, hitems, rfl⟩
  · exact .inl hold
  · obtain ⟨tokens, last, rfl, rfl, hlast⟩ := List.map_eq_append_iff.mp hp
    obtain ⟨token, rfl, htoken⟩ := List.map_eq_singleton_iff.mp hlast
    rw [Step.ofToken_eq_element_iff.mp htoken]
    exact .inr ⟨tokens, array, rfl, harray, hitems, rfl⟩

end ApiDoc.Schema
