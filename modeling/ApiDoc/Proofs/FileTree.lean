import ApiDoc.FileTree
import ApiDoc.Proofs.Dict
import ApiDoc.Proofs.Except
import ApiDoc.Proofs.Text

/-!
# Trees of files

In a lawful tree no directory has two entries of one name, and no name has a slash; every
tree that is made of files with their paths is lawful.  The entries of a directory may be
enumerated in any order: that changes nothing about where the files are.
-/

namespace ApiDoc.FileTree

/-- No directory has two entries of one name, and no name leads on to another. -/
inductive Lawful : FileTree → Prop
  | file (text : String) : Lawful (file text)
  | special (text : Option String) : Lawful (special text)
  | directory {entries : List (String × FileTree)} (apart : (Dict.keys entries).Nodup)
      (single : ∀ name ∈ Dict.keys entries, '/' ∉ name.toList)
      (trees : ∀ entry ∈ entries, Lawful entry.2) : Lawful (directory entries)

/-- The same tree, with the entries of its directories in any other order. -/
inductive Reordered : FileTree → FileTree → Prop
  | file (text : String) : Reordered (file text) (file text)
  | special (text : Option String) : Reordered (special text) (special text)
  | directory {entries others : List (String × FileTree)}
      (names : (Dict.keys entries).Perm (Dict.keys others))
      (trees : ∀ name tree other, (name, tree) ∈ entries → (name, other) ∈ others →
        Reordered tree other) : Reordered (directory entries) (directory others)

/-- What is read as a file under a list of names. -/
def textAt? (tree : FileTree) (names : List String) : Option String :=
  (tree.at? names).bind text?

variable {tree other : FileTree} {text : String}

theorem textAt?_nil (tree : FileTree) : tree.textAt? [] = tree.text? := by
  rw [textAt?, at?_nil, Option.bind_some]

theorem textAt?_cons_directory (entries : List (String × FileTree)) (name : String)
    (rest : List String) :
    (directory entries).textAt? (name :: rest) =
      (Dict.find? entries name).bind fun tree => tree.textAt? rest := by
  rw [textAt?, at?_cons_directory, Option.bind_assoc]
  rfl

/-! ## Another order -/

theorem Reordered.lawful (h : Reordered tree other) (htree : tree.Lawful) : other.Lawful := by
  induction h with
  | file => exact htree
  | special => exact htree
  | @directory entries others hnames _ ih =>
      cases htree with | directory hapart hsingle htrees => ?_
      refine .directory (hnames.nodup hapart)
        (fun name hname => hsingle name (hnames.mem_iff.mpr hname)) ?_
      rintro ⟨name, below⟩ hbelow
      have hname : name ∈ Dict.keys entries :=
        hnames.mem_iff.mpr (List.mem_map.mpr ⟨_, hbelow, rfl⟩)
      obtain ⟨⟨_, first⟩, hfirst, rfl⟩ := List.mem_map.mp hname
      exact ih _ first below hfirst hbelow (htrees _ hfirst)

/-- Files stand where they stood. -/
theorem Reordered.textAt?_eq (h : Reordered tree other) (names : List String) :
    tree.textAt? names = other.textAt? names := by
  induction h generalizing names with
  | file => rfl
  | special => rfl
  | @directory entries others hnames _ ih =>
      cases names with
      | nil => rfl
      | cons name rest =>
          have hhas : (Dict.find? entries name).isSome ↔ (Dict.find? others name).isSome := by
            rw [← Dict.mem_keys_iff, ← Dict.mem_keys_iff, hnames.mem_iff]
          rw [textAt?_cons_directory, textAt?_cons_directory]
          cases hentry : Dict.find? entries name with
          | none =>
              have hnone : Dict.find? others name = none := by simpa [hentry] using hhas
              rw [hnone]
          | some first =>
              obtain ⟨second, hsecond⟩ : ∃ second, Dict.find? others name = some second :=
                Option.isSome_iff_exists.mp (hhas.mp (by simp [hentry]))
              rw [hsecond]
              exact ih name first second (Dict.mem_of_find? hentry) (Dict.mem_of_find? hsecond)
                rest

/-- Entries of one name in a lawful directory are one entry. -/
theorem eq_of_mem_of_mem {entries : List (String × FileTree)} {name : String}
    (hapart : (Dict.keys entries).Nodup) (htree : (name, tree) ∈ entries)
    (hother : (name, other) ∈ entries) : tree = other := by
  rw [← Dict.find?_eq_some_iff_mem hapart] at htree hother
  exact Option.some.inj (htree.symm.trans hother)

theorem Lawful.reordered_self (h : tree.Lawful) : Reordered tree tree := by
  induction h with
  | file text => exact .file text
  | special text => exact .special text
  | @directory entries hapart _ _ ih =>
      refine .directory (.refl _) fun name tree other htree hother => ?_
      obtain rfl := eq_of_mem_of_mem hapart htree hother
      exact ih _ htree

/-- A directory with its entries in another order. -/
theorem Lawful.reordered_of_perm {entries others : List (String × FileTree)}
    (h : (FileTree.directory entries).Lawful) (hperm : entries.Perm others) :
    Reordered (.directory entries) (.directory others) := by
  cases h with | directory hapart _ htrees => ?_
  refine .directory (List.Perm.map Prod.fst hperm) fun name tree other htree hother => ?_
  obtain rfl := eq_of_mem_of_mem hapart htree (hperm.mem_iff.mpr hother)
  exact (htrees _ htree).reordered_self

/-! ## Names on the way to a file -/

theorem Lawful.not_mem_of_textAt? {names : List String} (h : tree.Lawful)
    (hat : tree.textAt? names = some text) : ∀ name ∈ names, '/' ∉ name.toList := by
  induction names generalizing tree with
  | nil => exact List.forall_mem_nil _
  | cons name rest ih =>
      cases h with
      | file => cases hat
      | special => cases hat
      | directory _ hsingle htrees =>
          rw [textAt?_cons_directory] at hat
          obtain ⟨next, hnext, hrest⟩ := Option.bind_eq_some_iff.mp hat
          have hmem := Dict.mem_of_find? hnext
          exact List.forall_mem_cons.mpr
            ⟨hsingle name (List.mem_map.mpr ⟨_, hmem, rfl⟩), ih (htrees _ hmem) hrest⟩

/-! ## Files that are put into a tree -/

theorem lawful_empty : Lawful (directory []) :=
  .directory List.nodup_nil (List.forall_mem_nil _) (by simp)

theorem Lawful.put {below : FileTree} {names : List String} (h : tree.Lawful)
    (hnames : ∀ name ∈ names, '/' ∉ name.toList) (hbelow : below.Lawful) :
    (tree.put names below).Lawful := by
  induction names generalizing tree with
  | nil => cases tree <;> exact hbelow
  | cons name rest ih =>
      obtain ⟨hname, hrest⟩ := List.forall_mem_cons.mp hnames
      cases h with
      | file text => exact .file text
      | special text => exact .special text
      | @directory entries hapart hsingle htrees =>
          have hold : ((Dict.find? entries name).getD (.directory [])).Lawful := by
            cases hentry : Dict.find? entries name with
            | none => exact lawful_empty
            | some old => exact htrees _ (Dict.mem_of_find? hentry)
          refine .directory (Dict.nodup_keys_put hapart name _) ?_ ?_
          · intro key hkey
            obtain ⟨entry, hentry, rfl⟩ := List.mem_map.mp hkey
            rcases Dict.mem_put hentry with rfl | hmem
            · exact hname
            · exact hsingle _ (List.mem_map.mpr ⟨entry, hmem, rfl⟩)
          · intro entry hentry
            rcases Dict.mem_put hentry with rfl | hmem
            · exact ih hold hrest
            · exact htrees entry hmem

theorem not_mem_of_mem_steps {path step : String} (h : step ∈ steps path) :
    '/' ∉ step.toList := by
  obtain ⟨piece, hpiece, rfl⟩ := List.mem_map.mp h
  rw [String.toList_ofList]
  exact Text.not_mem_of_mem_splitOn hpiece

/-- A place in a lawful tree, under names that can stand in it. -/
structure Place.Lawful (p : Place) : Prop where
  tree : p.tree.Lawful
  names : ∀ name ∈ p.names, '/' ∉ name.toList

theorem Place.Lawful.step {p q : Place} {make : Bool} {step : String} (hp : p.Lawful)
    (hstep : '/' ∉ step.toList) (h : p.step? make step = some q) : q.Lawful := by
  have hnames : ∀ name ∈ p.names ++ [step], '/' ∉ name.toList :=
    List.forall_mem_append.mpr ⟨hp.names, List.forall_mem_singleton.mpr hstep⟩
  unfold Place.step? at h
  split at h
  · split at h
    · exact Option.some.inj h ▸ hp
    · split at h
      · split at h
        · cases h
        · obtain rfl := Option.some.inj h
          exact ⟨hp.tree, fun name hname => hp.names name (List.dropLast_subset _ hname)⟩
      · dsimp only at h
        split at h
        · obtain rfl := Option.some.inj h
          exact ⟨hp.tree, hnames⟩
        · split at h
          · obtain rfl := Option.some.inj h
            exact ⟨hp.tree.put hnames lawful_empty, hnames⟩
          · cases h
  · cases h

theorem Place.Lawful.follow {p q : Place} {make : Bool} {way : List String} (hp : p.Lawful)
    (hway : ∀ step ∈ way, '/' ∉ step.toList) (h : way.foldlM (Place.step? make) p = some q) :
    q.Lawful := by
  induction way generalizing p with
  | nil => exact Option.some.inj h ▸ hp
  | cons step rest ih =>
      obtain ⟨hstep, hrest⟩ := List.forall_mem_cons.mp hway
      rw [List.foldlM_cons] at h
      obtain ⟨next, hnext, hfollow⟩ := Option.bind_eq_some_iff.mp h
      exact ih (hp.step hstep hnext) hrest hfollow

theorem Lawful.place (h : tree.Lawful) {make : Bool} {path : String} {p : Place}
    (hplace : place? make tree path = some p) : p.Lawful := by
  unfold place? at hplace
  split at hplace
  · cases hplace
  · exact Place.Lawful.follow (p := { tree }) ⟨h, List.forall_mem_nil _⟩
      (fun _ => not_mem_of_mem_steps) hplace

theorem Lawful.makeDirectory (h : tree.Lawful) {path : String} {made : FileTree}
    (hmade : tree.makeDirectory? path = some made) : made.Lawful := by
  obtain ⟨p, hp, hmade⟩ := Option.bind_eq_some_iff.mp hmade
  split at hmade
  · exact Option.some.inj hmade ▸ (h.place hp).tree
  · cases hmade

/-- What is put under the path of a file. -/
theorem exists_place_of_putFile? {path : String} {made : FileTree}
    (h : tree.putFile? path text = some made) :
    ∃ name place, (steps path).getLast? = some name ∧
      (place = { tree } ∨
        place? false tree ("/".intercalate (steps path).dropLast) = some place) ∧
      made = tree.put (place.names ++ [name]) (file text) := by
  obtain ⟨name, hname, h⟩ := Option.bind_eq_some_iff.mp h
  dsimp only at h
  split at h
  · cases h
  · split at h
    all_goals
      obtain ⟨place, hplace, h⟩ := Option.bind_eq_some_iff.mp h
      refine ⟨name, place, hname, ?_, ?_⟩
      rotate_left
      · split at h
        · split at h
          · cases h
          · exact (Option.some.inj h).symm
        · cases h
    · exact .inl (Option.some.inj hplace).symm
    · exact .inr hplace

theorem Lawful.putFile (h : tree.Lawful) {path : String} {made : FileTree}
    (hmade : tree.putFile? path text = some made) : made.Lawful := by
  obtain ⟨name, place, hname, hplace, rfl⟩ := exists_place_of_putFile? hmade
  have hnames : ∀ name ∈ place.names, '/' ∉ name.toList := by
    rcases hplace with rfl | hplace
    · exact List.forall_mem_nil _
    · exact (h.place hplace).names
  refine h.put (List.forall_mem_append.mpr ⟨hnames, ?_⟩) (.file text)
  exact List.forall_mem_singleton.mpr (not_mem_of_mem_steps (List.mem_of_getLast? hname))

theorem Lawful.write (h : tree.Lawful) {path : String} {made : FileTree}
    (hmade : tree.write path text = .ok made) : made.Lawful := by
  have helim : ∀ {found : Option FileTree} {fault : WriteFault} {result : FileTree},
      found.elim (Except.error fault) Except.ok = .ok result → found = some result := by
    intro found fault result heq
    cases found with
    | none => cases heq
    | some _ => exact congrArg some (Except.ok.inj heq)
  unfold FileTree.write at hmade
  dsimp only at hmade
  split at hmade
  · exact h.putFile (helim hmade)
  · obtain ⟨grown, hgrown, hmade⟩ := bind_eq_ok_iff.mp hmade
    exact (h.makeDirectory (helim hgrown)).putFile (helim hmade)

/-- Every tree of files with their paths is lawful. -/
theorem lawful_ofFiles (files : List (String × Option String)) : (ofFiles files).Lawful := by
  refine List.foldlRecOn (motive := Lawful) files _ lawful_empty ?_
  rintro tree htree ⟨path, text⟩ -
  cases text with
  | some text =>
      cases hwrite : tree.write path text with
      | ok made => simpa [hwrite, Except.toOption] using htree.write hwrite
      | error fault => simpa [hwrite, Except.toOption] using htree
  | none =>
      cases hmake : tree.makeDirectory? path with
      | some made => simpa [hmake] using htree.makeDirectory hmake
      | none => simpa [hmake] using htree

end ApiDoc.FileTree
