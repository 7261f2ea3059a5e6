import ApiDoc.PathChange
import ApiDoc.Proofs.Dict

/-!
# Operations under changes of their path

A change takes the operations of one path, changes their path parameters, and merges
them into the item of another path.  So a property of an operation and the path it
stands under holds after all changes, if every change keeps it.
-/

namespace ApiDoc

namespace Paths

/-- Every operation has a property together with its path. -/
def ForAll (p : String → Operation → Prop) (paths : Paths) : Prop :=
  ∀ entry ∈ paths, ∀ operation ∈ entry.2, p entry.1 operation.2

instance (p : String → Operation → Prop) [∀ key o, Decidable (p key o)] (paths : Paths) :
    Decidable (paths.ForAll p) :=
  inferInstanceAs (Decidable (∀ entry ∈ paths, ∀ operation ∈ entry.2, p entry.1 operation.2))

/-- Paths, and the methods under each, stand in increasing order. -/
structure Ordered (paths : Paths) : Prop where
  increasing : Dict.Increasing paths
  items : ∀ entry ∈ paths, Dict.Increasing entry.2

theorem Ordered.getD_find? {paths : Paths} (h : paths.Ordered) (key : String) :
    Dict.Increasing ((Dict.find? paths key).getD []) := by
  cases hfind : Dict.find? paths key with
  | none => exact List.Pairwise.nil
  | some item => exact h.items _ (Dict.mem_of_find? hfind)

theorem Ordered.insert {paths : Paths} (h : paths.Ordered) {item : PathItem}
    (hitem : Dict.Increasing item) (key : String) :
    Paths.Ordered (Dict.insert paths key item) where
  increasing := h.increasing.insert key item
  items := Dict.forall_mem_insert (p := fun entry : String × PathItem => entry.2.Increasing)
    hitem h.items

end Paths

@[simp] theorem PathOverride.applyAll_nil (parameters : List Parameter) :
    applyAll [] parameters = parameters := by
  cases parameters <;> rfl

namespace PathChanges

/-- The operation after the changes of its path. -/
def changeOperation (overrides : List PathOverride) (o : Operation) : Operation :=
  { o with parameters := PathOverride.applyAll overrides o.parameters }

theorem moveOperation_fst (uri target : String) (state : PathItem × List Warning)
    (entry : String × Operation) :
    (moveOperation uri target state entry).1 =
      if Dict.has state.1 entry.1 then state.1 else Dict.insert state.1 entry.1 entry.2 := by
  rw [moveOperation]
  split <;> rfl

/-- A merge holds nothing but operations of the two items. -/
theorem mem_foldl_moveOperation {uri target : String} {moved : PathItem}
    {state : PathItem × List Warning} {entry : String × Operation}
    (h : entry ∈ (moved.foldl (moveOperation uri target) state).1) :
    entry ∈ state.1 ∨ entry ∈ moved := by
  induction moved generalizing state with
  | nil => exact .inl h
  | cons first rest ih =>
      rcases ih h with hstate | hrest
      · rw [moveOperation_fst] at hstate
        split at hstate
        · exact .inl hstate
        · rcases Dict.mem_insert hstate with rfl | hold
          · exact .inr List.mem_cons_self
          · exact .inl hold
      · exact .inr (List.mem_cons_of_mem _ hrest)

theorem mem_changeItem {overrides : List PathOverride} {item : PathItem}
    {entry : String × Operation} (h : entry ∈ changeItem overrides item) :
    ∃ old ∈ item, entry = (old.1, changeOperation overrides old.2) := by
  obtain ⟨old, hold, rfl⟩ := List.mem_map.mp h
  exact ⟨old, hold, rfl⟩

/-- A property of operations survives one change, if it follows the operations of the
changed path to their new one. -/
theorem forAll_applyOne {p : String → Operation → Prop} {state : Paths × List Warning}
    {uri : String} {overrides : List PathOverride}
    (hstep : ∀ o, p uri o → p (renamed uri overrides) (changeOperation overrides o))
    (h : state.1.ForAll p) : (applyOne state (uri, overrides)).1.ForAll p := by
  obtain ⟨paths, warnings⟩ := state
  cases hfind : Dict.find? paths uri with
  | none => simpa [applyOne, hfind] using h
  | some item =>
      simp only [applyOne, hfind]
      refine Dict.forall_mem_insert ?_ fun entry hrest => h entry (Dict.mem_erase hrest)
      intro operation hmem
      rcases mem_foldl_moveOperation hmem with hold | hmoved
      · cases hthere : Dict.find? (Dict.erase paths uri) (renamed uri overrides) with
        | none => simp [hthere] at hold
        | some there =>
            rw [hthere] at hold
            exact h _ (Dict.mem_erase (Dict.mem_of_find? hthere)) operation hold
      · obtain ⟨old, hold, rfl⟩ := mem_changeItem hmoved
        exact hstep old.2 (h _ (Dict.mem_of_find? hfind) old hold)

theorem increasing_foldl_moveOperation {uri target : String} (moved : PathItem)
    {state : PathItem × List Warning} (h : Dict.Increasing state.1) :
    Dict.Increasing (moved.foldl (moveOperation uri target) state).1 := by
  refine List.foldlRecOn
    (motive := fun state : PathItem × List Warning => Dict.Increasing state.1) moved
    (moveOperation uri target) h ?_
  intro state hstate entry _
  rw [moveOperation_fst]
  split
  · exact hstate
  · exact hstate.insert entry.1 entry.2

theorem ordered_applyOne {state : Paths × List Warning} (change : String × List PathOverride)
    (h : state.1.Ordered) : (applyOne state change).1.Ordered := by
  obtain ⟨paths, warnings⟩ := state
  obtain ⟨uri, overrides⟩ := change
  cases hfind : Dict.find? paths uri with
  | none => simpa [applyOne, hfind] using h
  | some item =>
      simp only [applyOne, hfind]
      have hrest : Paths.Ordered (Dict.erase paths uri) :=
        ⟨h.increasing.erase uri, fun entry hentry => h.items entry (Dict.mem_erase hentry)⟩
      exact hrest.insert (increasing_foldl_moveOperation _ (hrest.getD_find? _)) _

theorem ordered_apply {changes : PathChanges} {paths : Paths} (h : paths.Ordered) :
    (changes.apply paths).1.Ordered :=
  List.foldlRecOn (motive := fun state : Paths × List Warning => state.1.Ordered) changes
    applyOne h fun _ hstate change _ => ordered_applyOne change hstate

/-- A property of operations survives all changes, if it survives each. -/
theorem forAll_apply {p : String → Operation → Prop} {changes : PathChanges} {paths : Paths}
    (hstep : ∀ change ∈ changes, ∀ o, p change.1 o →
      p (renamed change.1 change.2) (changeOperation change.2 o))
    (h : paths.ForAll p) : (changes.apply paths).1.ForAll p := by
  rw [apply]
  have hstate : ((paths, []) : Paths × List Warning).1.ForAll p := h
  generalize ((paths, []) : Paths × List Warning) = state at hstate
  induction changes generalizing state with
  | nil => exact hstate
  | cons change rest ih =>
      refine ih (fun later hmem => hstep later (List.mem_cons_of_mem _ hmem)) _ ?_
      exact forAll_applyOne (hstep change List.mem_cons_self) hstate

/-- A property of paths survives all changes, if it survives each. -/
theorem forall_keys_apply {p : String → Prop} {changes : PathChanges} {paths : Paths}
    (hstep : ∀ change ∈ changes, p change.1 → p (renamed change.1 change.2))
    (h : ∀ entry ∈ paths, p entry.1) : ∀ entry ∈ (changes.apply paths).1, p entry.1 := by
  refine List.foldlRecOn
    (motive := fun state : Paths × List Warning => ∀ entry ∈ state.1, p entry.1) changes applyOne
    h ?_
  rintro ⟨paths, warnings⟩ hstate ⟨uri, overrides⟩ hchange
  cases hfind : Dict.find? paths uri with
  | none => simpa only [applyOne, hfind] using hstate
  | some item =>
      simp only [applyOne, hfind]
      have huri : p uri := hstate _ (Dict.mem_of_find? hfind)
      have hrenamed : p (renamed uri overrides) := hstep (uri, overrides) hchange huri
      exact Dict.forall_mem_insert (p := fun entry : String × PathItem => p entry.1) hrenamed
        fun entry hentry => hstate entry (Dict.mem_erase hentry)

end PathChanges

end ApiDoc
