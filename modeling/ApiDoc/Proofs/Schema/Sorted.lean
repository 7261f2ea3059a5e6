import ApiDoc.Proofs.Schema.Path
import Mathlib.Data.List.Sort
import Mathlib.Data.String.Basic

/-!
# Schemas up to the order of required names

The order in which names became required says nothing about a value.  `sortRequired`
forgets it, at every depth, and nothing else.
-/

namespace ApiDoc.Schema

/-- The names in their order as texts. -/
def sortNames (names : List String) : List String :=
  names.insertionSort (· ≤ ·)

theorem sortNames_eq_of_perm {names others : List String} (h : names.Perm others) :
    sortNames names = sortNames others := by
  have hsorted : (sortNames names).Perm (sortNames others) :=
    (List.perm_insertionSort _ names).trans (h.trans (List.perm_insertionSort _ others).symm)
  exact hsorted.eq_of_pairwise (fun a b _ _ hab hba => le_antisymm hab hba)
    (List.pairwise_insertionSort _ names) (List.pairwise_insertionSort _ others)

mutual

/-- Sort the required names of a schema and of all schemas inside it. -/
def sortRequired : Schema → Schema
  | ⟨reference, type, format, description, nullable, enum, default, sample, minimum, maximum,
      minLength, maxLength, minItems, maxItems, properties, items, required, extensions⟩ =>
      ⟨reference, type, format, description, nullable, enum, default, sample, minimum, maximum,
        minLength, maxLength, minItems, maxItems, sortProperties properties,
        sortItems items, required.map sortNames, extensions⟩
termination_by structural s => s

def sortProperties : Option (List (String × Schema)) → Option (List (String × Schema))
  | none => none
  | some properties => some (sortAll properties)
termination_by structural p => p

def sortAll : List (String × Schema) → List (String × Schema)
  | [] => []
  | (name, s) :: rest => (name, sortRequired s) :: sortAll rest
termination_by structural p => p

def sortItems : Option (Items Schema) → Option (Items Schema)
  | none => none
  | some (.list slots) => some (.list (sortSlots slots))
  | some (.single item) => some (.single (sortRequired item))
termination_by structural i => i

def sortSlots : List Schema → List Schema
  | [] => []
  | slot :: slots => sortRequired slot :: sortSlots slots
termination_by structural slots => slots

end

theorem sortRequired_eq (s : Schema) :
    s.sortRequired =
      { s with
        properties := sortProperties s.properties
        items := sortItems s.items
        required := s.required.map sortNames } := by
  cases s
  rfl

theorem sortAll_eq_mapValues (properties : Dict Schema) :
    sortAll properties = Dict.mapValues sortRequired properties := by
  induction properties with
  | nil => rfl
  | cons entry rest ih =>
      rw [sortAll, ih]
      rfl

theorem sortProperties_eq_map (properties : Option (List (String × Schema))) :
    sortProperties properties = properties.map (Dict.mapValues sortRequired) := by
  cases properties with
  | none => rfl
  | some properties => exact congrArg some (sortAll_eq_mapValues properties)

theorem item?_sortRequired (s : Schema) : s.sortRequired.item? = s.item?.map sortRequired := by
  rw [sortRequired_eq, item?, item?]
  cases s.items with
  | none => rfl
  | some items =>
      cases items with
      | single item => rfl
      | list slots => cases slots <;> rfl

theorem mapValues_collapse_sortRequired {properties : Dict Schema}
    (h : ∀ entry ∈ properties, entry.2.collapse.sortRequired = entry.2.sortRequired.collapse) :
    Dict.mapValues sortRequired (Dict.mapValues collapse properties) =
      Dict.mapValues collapse (Dict.mapValues sortRequired properties) := by
  simp only [Dict.mapValues, List.map_map]
  apply List.map_congr_left
  intro entry hentry
  exact congrArg (Prod.mk entry.1) (h entry hentry)

/-- Finishing element slots and sorting required names do not disturb each other. -/
theorem sortRequired_collapse (s : Schema) : s.collapse.sortRequired = s.sortRequired.collapse := by
  induction s using induction_inside with
  | h s ihProperties ihItems =>
      have hproperties : sortProperties (collapseProperties s.properties) =
          collapseProperties (sortProperties s.properties) := by
        rw [sortProperties_eq_map, sortProperties_eq_map, collapseProperties_eq_map,
          collapseProperties_eq_map]
        cases hs : s.properties with
        | none => rfl
        | some properties =>
            exact congrArg some (mapValues_collapse_sortRequired (ihProperties properties hs))
      have hitems : sortItems (collapseItems s.items) = collapseItems (sortItems s.items) := by
        cases hs : s.items with
        | none => rfl
        | some items =>
            cases items with
            | single item =>
                have hitem := ihItems _ hs item List.mem_cons_self
                simp only [collapseItems, sortItems, hitem]
            | list slots =>
                cases slots with
                | nil => rfl
                | cons slot slots =>
                    have hslot := ihItems _ hs slot List.mem_cons_self
                    simp only [collapseItems, sortItems, sortSlots, hslot]
      rw [collapse_eq, sortRequired_eq, sortRequired_eq, collapse_eq]
      simp only [hproperties, hitems]

end ApiDoc.Schema
