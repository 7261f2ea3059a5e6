import ApiDoc.Proofs.PathChange.Basic
import ApiDoc.Proofs.Template

/-!
# Agreement of path parameters with their path

The operations of a path take one path parameter for each placeholder.  A change
rewrites the path and the parameters apart from each other: the path as a text, the
parameters as a filtered list.  Both count positions in the same way, so what agreed
before agrees after every change, and after all of them.
-/

namespace ApiDoc

/-- The names of the path parameters in order. -/
def Operation.pathNames (o : Operation) : List String :=
  (o.parameters.filter (·.location = .path)).map (·.name)

/-- Under every path, the path parameters of every operation are named as the
placeholders. -/
def Paths.Agree (paths : Paths) : Prop :=
  paths.ForAll fun key o => o.pathNames = Template.names key

instance (paths : Paths) : Decidable paths.Agree :=
  inferInstanceAs (Decidable (paths.ForAll _))

/-- Overrides rename the path parameters by position and let the others be. -/
theorem PathOverride.pathNames_applyAll (overrides : List PathOverride)
    (parameters : List Parameter) :
    ((applyAll overrides parameters).filter (·.location = .path)).map (·.name) =
      Template.replaceEach (overrides.map name?)
        ((parameters.filter (·.location = .path)).map (·.name)) := by
  induction parameters generalizing overrides with
  | nil => cases overrides <;> rfl
  | cons p ps ih =>
      cases overrides with
      | nil => rw [applyAll_nil, List.map_nil, Template.replaceEach_nil]
      | cons change changes =>
          rw [applyAll]
          by_cases hp : p.location = .path
          · have hlocation : (apply change p).location = .path := hp
            have hname : (apply change p).name = (name? change).getD p.name := rfl
            simp [hp, hlocation, hname, ih changes, Template.replaceEach]
          · simpa [hp] using ih (change :: changes)

namespace PathChanges

/-- The names that the changes give can stand in placeholders. -/
def NamesWritable (changes : PathChanges) : Prop :=
  ∀ change ∈ changes, ∀ override ∈ change.2, ∀ name ∈ PathOverride.name? override,
    Template.Writable name

instance (changes : PathChanges) : Decidable changes.NamesWritable :=
  inferInstanceAs (Decidable (∀ change ∈ changes, ∀ override ∈ change.2,
    ∀ name ∈ PathOverride.name? override, Template.Writable name))

theorem pathNames_changeOperation (overrides : List PathOverride) (o : Operation) :
    (changeOperation overrides o).pathNames =
      Template.replaceEach (overrides.map PathOverride.name?) o.pathNames :=
  PathOverride.pathNames_applyAll overrides o.parameters

theorem forall_some_mem_map_name? {p : String → Prop} {overrides : List PathOverride}
    (h : ∀ override ∈ overrides, ∀ name ∈ PathOverride.name? override, p name) :
    ∀ name, some name ∈ overrides.map PathOverride.name? → p name := by
  intro name hname
  obtain ⟨override, hoverride, heq⟩ := List.mem_map.mp hname
  exact h override hoverride name heq

/-- A change keeps the names of path and parameters in step. -/
theorem pathNames_eq_names_renamed {uri : String} {overrides : List PathOverride}
    {o : Operation}
    (hnames : ∀ override ∈ overrides, ∀ name ∈ PathOverride.name? override,
      Template.Writable name)
    (h : o.pathNames = Template.names uri) :
    (changeOperation overrides o).pathNames = Template.names (renamed uri overrides) := by
  rw [pathNames_changeOperation, h, renamed,
    Template.names_rename uri _ (forall_some_mem_map_name? hnames)]

/-- A change keeps the texts of the placeholders and the names of the parameters in
step. -/
theorem pathNames_eq_placeholders_renamed {uri : String} {overrides : List PathOverride}
    {o : Operation}
    (hnames : ∀ override ∈ overrides, ∀ name ∈ PathOverride.name? override,
      '\x7d' ∉ name.toList)
    (h : o.pathNames = Template.placeholders uri) :
    (changeOperation overrides o).pathNames =
      Template.placeholders (renamed uri overrides) := by
  rw [pathNames_changeOperation, h, renamed,
    Template.placeholders_rename uri _ (forall_some_mem_map_name? hnames)]

/-- Where path parameters and placeholders agree, they still agree after all changes:
through chains of renamings, merges of paths, changes without a name, and lists of
changes shorter or longer than the placeholders. -/
theorem agree_apply {changes : PathChanges} {paths : Paths}
    (hnames : changes.NamesWritable) (h : paths.Agree) : (changes.apply paths).1.Agree :=
  forAll_apply (fun change hmem _ ho => pathNames_eq_names_renamed (hnames change hmem) ho) h

/-- One path is renamed to another that has changes of its own and operations, with a
change too many; a third one has a change too few, and without a name. -/
theorem agree_apply_chain :
    let takes := fun uri => ({ parameters := Template.parameters uri } : Operation)
    let changes : PathChanges :=
      [("/a/\x7bx\x7d", [[("name", .str "y")]]),
        ("/a/\x7by\x7d", [[("name", .str "z")], [("name", .str "spare")]]),
        ("/b/\x7bu\x7d/\x7bv?\x7d", [[("type", .str "integer")]])]
    let paths : Paths :=
      [("/a/\x7bx\x7d", [("get", takes "/a/\x7bx\x7d"), ("post", takes "/a/\x7bx\x7d")]),
        ("/a/\x7by\x7d", [("get", takes "/a/\x7by\x7d")]),
        ("/b/\x7bu\x7d/\x7bv?\x7d", [("put", takes "/b/\x7bu\x7d/\x7bv?\x7d")])]
    changes.NamesWritable ∧ paths.Agree ∧ (changes.apply paths).1.Agree := by
  intro takes changes paths
  have hnames : changes.NamesWritable := by decide +kernel
  have hagree : paths.Agree := by decide +kernel
  exact ⟨hnames, hagree, agree_apply hnames hagree⟩

end PathChanges

end ApiDoc
