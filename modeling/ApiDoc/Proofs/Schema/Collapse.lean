import ApiDoc.Proofs.Schema.Path

/-!
# Finishing element slots

Finishing properties leaves no list of slots, at any depth, and nothing else changes: each
schema to which steps lead keeps its fields and the names of its properties, and of its
elements only a list gives way, to its finished first slot, or to strings if it has none.
Properties without lists stay as they are, so finishing them twice is finishing them once.
-/

namespace ApiDoc.Schema

variable {s : Schema} {properties : Dict Schema}

/-! ## Finished schemas stay -/

/-- A schema without lists of slots stays. -/
theorem collapse_of_finished (h : s.Finished) : s.collapse = s := by
  induction h with
  | @intro s here _ _ ihProperties ihItems =>
      have hproperties : collapseProperties s.properties = s.properties := by
        rw [collapseProperties_eq_map]
        cases hs : s.properties with
        | none => rfl
        | some properties =>
            exact congrArg some (Dict.mapValues_eq_self_iff.mpr (ihProperties properties hs))
      have hitems : collapseItems s.items = s.items := by
        cases hs : s.items with
        | none => rfl
        | some items =>
            obtain ⟨item, rfl⟩ := here items hs
            rw [collapseItems, ihItems _ hs item List.mem_cons_self]
      rw [collapse_eq, hproperties, hitems]
      cases s
      rfl

theorem collapse_eq_self_iff : s.collapse = s ↔ s.Finished :=
  ⟨fun h => h ▸ finished_collapse s, collapse_of_finished⟩

theorem finished_collapseAll (properties : Dict Schema) :
    ∀ entry ∈ collapseAll properties, entry.2.Finished := by
  rw [collapseAll_eq_mapValues]
  exact List.forall_mem_map.mpr fun entry _ => finished_collapse entry.2

/-- Properties stay exactly if none of them has a list of slots. -/
theorem collapseAll_eq_self_iff :
    collapseAll properties = properties ↔ ∀ entry ∈ properties, entry.2.Finished := by
  rw [collapseAll_eq_mapValues, Dict.mapValues_eq_self_iff]
  exact forall₂_congr fun entry _ => collapse_eq_self_iff

/-! ## What finishing changes -/

/-- A schema after its element slots are finished: its elements have one schema, and all else
that stands in it directly is as before. -/
structure FinishedFrom (old new : Schema) : Prop where
  fields : new = { old with properties := new.properties, items := new.items }
  names : new.properties.map Dict.keys = old.properties.map Dict.keys
  absent : old.items = none → new.items = none
  single : ∀ item, old.items = some (.single item) → new.items = some (.single item.collapse)
  first : ∀ slot slots, old.items = some (.list (slot :: slots)) →
    new.items = some (.single slot.collapse)
  empty : old.items = some (.list []) → new.items = some (.single (typed "string"))

theorem finishedFrom_collapse (s : Schema) : FinishedFrom s s.collapse := by
  rw [collapse_eq]
  refine ⟨rfl, ?_, fun h => congrArg collapseItems h, fun _ h => congrArg collapseItems h,
    fun _ _ h => congrArg collapseItems h, fun h => congrArg collapseItems h⟩
  rw [collapseProperties_eq_map]
  cases s.properties with
  | none => rfl
  | some properties => exact congrArg some List.map_map

/-- The schema to which steps lead from a property. -/
def inside? (properties : Dict Schema) (name : String) (p : List Step) : Option Schema :=
  (Dict.find? properties name).bind (node? p)

theorem find?_collapseAll (properties : Dict Schema) (name : String) :
    Dict.find? (collapseAll properties) name = (Dict.find? properties name).map collapse := by
  rw [collapseAll_eq_mapValues, Dict.find?_mapValues]

/-- What is inside properties is finished with them. -/
theorem inside?_collapseAll {name : String} {p : List Step} {old : Schema}
    (h : inside? properties name p = some old) :
    inside? (collapseAll properties) name p = some old.collapse := by
  obtain ⟨property, hproperty, hold⟩ := Option.bind_eq_some_iff.mp h
  rw [inside?, find?_collapseAll, hproperty]
  exact node?_collapse hold

/-- What is inside finished properties was there before, or is a string of an array that had
no slot. -/
theorem exists_of_inside?_collapseAll {name : String} {p : List Step} {new : Schema}
    (h : inside? (collapseAll properties) name p = some new) :
    (∃ old, inside? properties name p = some old ∧ new = old.collapse) ∨
      ∃ front array, p = front ++ [.element] ∧ inside? properties name front = some array ∧
        array.items = some (.list []) ∧ new = typed "string" := by
  rw [inside?, find?_collapseAll] at h
  obtain ⟨finished, hfinished, hnew⟩ := Option.bind_eq_some_iff.mp h
  obtain ⟨property, hproperty, rfl⟩ := Option.map_eq_some_iff.mp hfinished
  simp only [inside?, hproperty, Option.bind_some]
  exact exists_of_node?_collapse hnew

/-- Finished properties hold no list of slots.  Each schema inside them comes from the one to
which the same steps led, or is the string of an array without a slot, and none is left out.
Properties stay exactly if they hold no list, so those that are finished do. -/
theorem collapseAll_finishes (properties : Dict Schema) :
    Dict.keys (collapseAll properties) = Dict.keys properties ∧
    (∀ entry ∈ collapseAll properties, entry.2.Finished) ∧
    (∀ name p old, inside? properties name p = some old →
      ∃ new, inside? (collapseAll properties) name p = some new ∧ FinishedFrom old new) ∧
    (∀ name p new, inside? (collapseAll properties) name p = some new →
      (∃ old, inside? properties name p = some old ∧ FinishedFrom old new) ∨
        ∃ front array, p = front ++ [.element] ∧ inside? properties name front = some array ∧
          array.items = some (.list []) ∧ new = typed "string") ∧
    (collapseAll properties = properties ↔ ∀ entry ∈ properties, entry.2.Finished) ∧
    collapseAll (collapseAll properties) = collapseAll properties := by
  refine ⟨?_, finished_collapseAll properties, ?_, ?_, collapseAll_eq_self_iff,
    collapseAll_eq_self_iff.mpr (finished_collapseAll properties)⟩
  · rw [collapseAll_eq_mapValues]
    exact List.map_map
  · intro name p old hold
    exact ⟨old.collapse, inside?_collapseAll hold, finishedFrom_collapse old⟩
  · intro name p new hnew
    rcases exists_of_inside?_collapseAll hnew with ⟨old, hold, rfl⟩ | hstring
    · exact .inl ⟨old, hold, finishedFrom_collapse old⟩
    · exact .inr hstring

/-- An array of arrays: the slot of the outer one becomes its elements, and those of the inner
one, which has no slot, become strings. -/
theorem collapseAll_finishes_tags :
    let inner : Schema := { type := some "array", items := some (.list []) }
    let outer : Schema :=
      { type := some "array", minItems := some 1,
        items := some (.list [inner, .typed "integer"]) }
    let properties : Dict Schema := [("tags", outer)]
    (∃ new, inside? (collapseAll properties) "tags" [] = some new ∧ new.minItems = some 1 ∧
      new.items = some (.single inner.collapse)) ∧
    (∃ new, inside? (collapseAll properties) "tags" [.element] = some new ∧
      new.type = some "array" ∧ new.items = some (.single (typed "string"))) ∧
    collapseAll properties ≠ properties := by
  intro inner outer properties
  obtain ⟨-, -, hkept, -, hself, -⟩ := collapseAll_finishes properties
  obtain ⟨array, harray, hfrom⟩ := hkept "tags" [] outer rfl
  obtain ⟨element, helement, hfromInner⟩ := hkept "tags" [.element] inner rfl
  refine ⟨⟨array, harray, ?_, hfrom.first _ _ rfl⟩,
    ⟨element, helement, ?_, hfromInner.empty rfl⟩, fun heq => ?_⟩
  · rw [hfrom.fields]
  · rw [hfromInner.fields]
  · cases hself.mp heq ("tags", outer) List.mem_cons_self with
    | intro here =>
        obtain ⟨item, hitem⟩ := here _ rfl
        cases hitem

end ApiDoc.Schema
