import ApiDoc.Proofs.FileTree
import ApiDoc.Source.Scan
import Mathlib.Data.List.Lex
import Mathlib.Data.List.Sort

/-!
# What a scan finds

A scan of a directory finds the source files whose way from the root has no hidden name and
no build directory, each once and in the order of the names on the way.  Where the files are
decides what is found, so directories may enumerate their entries in any order.
-/

namespace ApiDoc.Source

open FileTree

/-- The way from a root to a source file that is not passed over. -/
structure IsSourcePath (names : List String) : Prop where
  visible : ∀ name ∈ names, name.toList.head? ≠ some '.' ∧ name ≠ "target"
  extension : ∃ name, names.getLast? = some name ∧
    ∃ stem, stem ≠ [] ∧ name.toList = stem ++ ".rs".toList

variable {name : String} {names : List String} {text : String} {tree : FileTree}
  {entries : List (String × FileTree)} {found : Found}

/-! ## Names -/

theorem isSkipped_eq_false_iff :
    isSkipped name = false ↔ name.toList.head? ≠ some '.' ∧ name ≠ "target" := by
  simp [isSkipped]

/-- The name of a source file has something before its extension. -/
theorem isSourceName_iff (h : '/' ∉ name.toList) :
    isSourceName name = true ↔ ∃ stem, stem ≠ [] ∧ name.toList = stem ++ ".rs".toList := by
  have hname : DataFile.fileName name = name.toList :=
    Text.afterLast_of_forall fun c hc => by simpa using fun heq : c = '/' => h (heq ▸ hc)
  rw [isSourceName, decide_eq_true_eq, DataFile.extension?, hname]
  constructor
  · intro hextension
    split at hextension
    · next c stem extension hcut =>
        obtain rfl : extension = "rs".toList := by
          rw [← String.toList_ofList (l := extension), Option.some.inj hextension]
        exact ⟨c :: stem, List.cons_ne_nil c stem, by rw [Text.eq_of_cutLast? hcut]; simp⟩
    · cases hextension
  · rintro ⟨stem, hstem, heq⟩
    obtain ⟨c, rest, rfl⟩ := List.exists_cons_of_ne_nil hstem
    have hlast : Text.cutLast? ['.'] ".rs".toList = some ([], "rs".toList) := by decide
    rw [heq, Text.cutLast?_append hlast, List.append_nil]
    rfl

/-! ## The files that are found -/

theorem foundAmong_eq (entries : List (String × FileTree)) :
    foundAmong entries =
      entries.flatMap fun entry =>
        if isSkipped entry.1 then [] else foundAt entry.1 entry.2 := by
  induction entries with
  | nil => rw [foundAmong, List.flatMap_nil]
  | cons entry rest ih => rw [foundAmong, ih, List.flatMap_cons]

theorem mem_foundFile_iff {text : Option String} :
    found ∈ foundFile name text ↔
      found.1 = [name] ∧ text = some found.2 ∧ isSourceName name = true := by
  obtain ⟨names, inside⟩ := found
  rw [foundFile]
  split
  · next hname => simp [hname, eq_comm, and_comm]
  · next hname => simp [hname]

theorem nodup_foundFile (name : String) (text : Option String) :
    ((foundFile name text).map (·.1)).Nodup := by
  rw [foundFile]
  split
  · cases text <;> simp
  · exact List.nodup_nil

/-- The way to what is found in an entry starts with its name. -/
theorem head?_of_mem_foundAt (h : found ∈ foundAt name tree) : found.1.head? = some name := by
  cases tree with
  | file text =>
      rw [(mem_foundFile_iff.mp h).1]
      rfl
  | special text =>
      rw [(mem_foundFile_iff.mp h).1]
      rfl
  | directory entries =>
      rw [foundAt] at h
      obtain ⟨below, -, rfl⟩ := List.mem_map.mp h
      rfl

/-- What is found under a list of names, by the tests that a scan makes. -/
structure Kept (tree : FileTree) (names : List String) (text : String) : Prop where
  isFile : tree.textAt? names = some text
  visible : ∀ name ∈ names, isSkipped name = false

theorem mem_foundAmong_of (h : (directory entries).Lawful)
    (ih : ∀ entry ∈ entries, ∀ name rest text, (name :: rest, text) ∈ foundAt name entry.2 ↔
      Kept entry.2 rest text ∧ (name :: rest).getLast?.any isSourceName = true) :
    (names, text) ∈ foundAmong entries ↔
      Kept (directory entries) names text ∧ names.getLast?.any isSourceName = true := by
  cases h with | directory hapart _ _ => ?_
  rw [foundAmong_eq, List.mem_flatMap]
  constructor
  · rintro ⟨⟨name, below⟩, hentry, hfound⟩
    dsimp only at hfound
    split at hfound
    · cases hfound
    · next hopen =>
        obtain ⟨rest, rfl⟩ := List.head?_eq_some_iff.mp (head?_of_mem_foundAt hfound)
        obtain ⟨hkept, hlast⟩ := (ih _ hentry name rest text).mp hfound
        refine ⟨⟨?_, List.forall_mem_cons.mpr ⟨by simpa using hopen, hkept.visible⟩⟩, hlast⟩
        rw [textAt?_cons_directory, Dict.find?_of_mem_of_nodup hapart hentry]
        exact hkept.isFile
  · rintro ⟨⟨hfile, hvisible⟩, hlast⟩
    cases names with
    | nil => cases hlast
    | cons name rest =>
        obtain ⟨hopen, hrest⟩ := List.forall_mem_cons.mp hvisible
        rw [textAt?_cons_directory] at hfile
        obtain ⟨below, hbelow, hfile⟩ := Option.bind_eq_some_iff.mp hfile
        have hentry := Dict.mem_of_find? hbelow
        refine ⟨(name, below), hentry, ?_⟩
        rw [if_neg (by simp [hopen])]
        exact (ih _ hentry name rest text).mpr ⟨⟨hfile, hrest⟩, hlast⟩

/-- In what is no directory there is at most the file itself. -/
theorem mem_foundFile_iff_kept (tree : FileTree)
    (hleaf : ∀ next more, tree.textAt? (next :: more) = none) (name : String)
    (rest : List String) (text : String) :
    (name :: rest, text) ∈ foundFile name tree.text? ↔
      Kept tree rest text ∧ (name :: rest).getLast?.any isSourceName = true := by
  rw [mem_foundFile_iff]
  cases rest with
  | nil =>
      constructor
      · rintro ⟨-, htext, hname⟩
        exact ⟨⟨(textAt?_nil tree).trans htext, List.forall_mem_nil _⟩, hname⟩
      · rintro ⟨⟨hfile, -⟩, hname⟩
        exact ⟨rfl, (textAt?_nil tree).symm.trans hfile, hname⟩
  | cons next more =>
      refine iff_of_false (by simp) fun h => ?_
      have hfile := h.1.isFile
      rw [hleaf] at hfile
      cases hfile

theorem mem_foundAt_iff (h : tree.Lawful) (name : String) (rest : List String) (text : String) :
    (name :: rest, text) ∈ foundAt name tree ↔
      Kept tree rest text ∧ (name :: rest).getLast?.any isSourceName = true := by
  induction h generalizing name rest text with
  | file inside => exact mem_foundFile_iff_kept (.file inside) (fun _ _ => rfl) name rest text
  | special inside =>
      exact mem_foundFile_iff_kept (.special inside) (fun _ _ => rfl) name rest text
  | @directory entries hapart hsingle htrees ih =>
      have hbelow : (name :: rest, text) ∈ foundAt name (.directory entries) ↔
          (rest, text) ∈ foundAmong entries := by
        rw [foundAt, List.mem_map]
        constructor
        · rintro ⟨⟨names, inside⟩, hmem, heq⟩
          obtain ⟨hnames, rfl⟩ := Prod.mk.inj heq
          exact (List.cons.inj hnames).2 ▸ hmem
        · exact fun hmem => ⟨(rest, text), hmem, rfl⟩
      rw [hbelow, mem_foundAmong_of (.directory hapart hsingle htrees) ih]
      cases rest with
      | nil => exact iff_of_false (fun h => nomatch h.1.isFile) fun h => nomatch h.1.isFile
      | cons next more => rw [List.getLast?_cons_cons]

/-- The files among the entries of a directory: all under source paths. -/
theorem mem_foundAmong_iff (h : (directory entries).Lawful) :
    (names, text) ∈ foundAmong entries ↔
      (directory entries).textAt? names = some text ∧ IsSourcePath names := by
  rw [mem_foundAmong_of h fun entry hentry =>
    mem_foundAt_iff (match h with | .directory _ _ htrees => htrees entry hentry)]
  constructor
  · rintro ⟨⟨hfile, hvisible⟩, hlast⟩
    have hslash := h.not_mem_of_textAt? hfile
    obtain ⟨name, hname, hsource⟩ := (Option.any_eq_true _ _).mp hlast
    rw [isSourceName_iff (hslash name (List.mem_of_getLast? hname))] at hsource
    exact ⟨hfile, fun name hname => isSkipped_eq_false_iff.mp (hvisible name hname), name, hname,
      hsource⟩
  · rintro ⟨hfile, hvisible, name, hname, hstem⟩
    have hslash := h.not_mem_of_textAt? hfile
    refine ⟨⟨hfile, fun name hname => isSkipped_eq_false_iff.mpr (hvisible name hname)⟩, ?_⟩
    rw [hname, Option.any_some, isSourceName_iff (hslash name (List.mem_of_getLast? hname))]
    exact hstem

/-! ## Their order -/

theorem pathsInOrder_iff {a b : List String} : pathsInOrder a b = true ↔ ¬ b < a := by
  induction a generalizing b with
  | nil => exact iff_of_true rfl (List.not_lt_nil b)
  | cons x xs ih =>
      cases b with
      | nil => exact iff_of_false (by simp [pathsInOrder]) (not_not.mpr (List.nil_lt_cons x xs))
      | cons y ys =>
          rw [pathsInOrder, Bool.or_eq_true, Bool.and_eq_true, decide_eq_true_eq,
            decide_eq_true_eq, ih, List.cons_lt_cons_iff, not_or, not_and]
          rcases lt_trichotomy x y with hlt | rfl | hgt
          · exact iff_of_true (.inl hlt) ⟨hlt.asymm, fun heq => absurd heq hlt.ne'⟩
          · simp only [lt_irrefl, false_or, true_and, not_false_eq_true, true_implies]
          · refine iff_of_false ?_ fun h => h.1 hgt
            rintro (hlt | ⟨rfl, -⟩)
            · exact hgt.asymm hlt
            · exact lt_irrefl x hgt

theorem nodup_foundAmong_of (h : (directory entries).Lawful)
    (ih : ∀ entry ∈ entries, ∀ name, ((foundAt name entry.2).map (·.1)).Nodup) :
    ((foundAmong entries).map (·.1)).Nodup := by
  cases h with | directory hapart _ _ => ?_
  rw [foundAmong_eq, List.map_flatMap, List.nodup_flatMap]
  constructor
  · intro entry hentry
    split
    · exact List.nodup_nil
    · exact ih entry hentry entry.1
  · refine (List.pairwise_map.mp hapart).imp fun {first second} hne => ?_
    -- The ways into two entries start with different names.
    have hstart : ∀ {entry : String × FileTree} {names : List String},
        names ∈ (if isSkipped entry.1 then [] else foundAt entry.1 entry.2).map (·.1) →
          names.head? = some entry.1 := by
      intro entry names hnames
      split at hnames
      · cases hnames
      · obtain ⟨found, hfound, rfl⟩ := List.mem_map.mp hnames
        exact head?_of_mem_foundAt hfound
    intro names hfirst hsecond
    exact hne (Option.some.inj ((hstart hfirst).symm.trans (hstart hsecond)))

theorem nodup_foundAt (h : tree.Lawful) (name : String) :
    ((foundAt name tree).map (·.1)).Nodup := by
  induction h generalizing name with
  | file text => exact nodup_foundFile name (some text)
  | special text => exact nodup_foundFile name text
  | @directory entries hapart hsingle htrees ih =>
      have hbelow := nodup_foundAmong_of (.directory hapart hsingle htrees) ih
      have hmap : (foundAt name (.directory entries)).map (·.1) =
          ((foundAmong entries).map (·.1)).map (name :: ·) := by
        rw [foundAt, List.map_map, List.map_map]
        rfl
      rw [hmap]
      exact hbelow.map fun _ _ heq => (List.cons.inj heq).2

/-- Each file is found once. -/
theorem nodup_foundAmong (h : (directory entries).Lawful) :
    ((foundAmong entries).map (·.1)).Nodup :=
  nodup_foundAmong_of h fun entry hentry =>
    nodup_foundAt (match h with | .directory _ _ htrees => htrees entry hentry)

/-- What is sorted grows from each file to every later one, if no two have one way. -/
theorem pairwise_mergeSort_inOrder {files : List Found} (h : (files.map (·.1)).Nodup) :
    (files.mergeSort inOrder).Pairwise fun a b => a.1 < b.1 := by
  have hsorted : (files.mergeSort inOrder).Pairwise fun a b => inOrder a b = true := by
    refine List.pairwise_mergeSort ?_ ?_ files
    · intro a b c hab hbc
      rw [inOrder, pathsInOrder_iff, not_lt] at hab hbc ⊢
      exact hab.trans hbc
    · intro a b
      rw [inOrder, inOrder, Bool.or_eq_true, pathsInOrder_iff, pathsInOrder_iff, not_lt, not_lt]
      exact le_total a.1 b.1
  have hways : ((files.mergeSort inOrder).map (·.1)).Nodup :=
    ((List.mergeSort_perm files inOrder).map (·.1)).nodup_iff.mpr h
  have hapart : (files.mergeSort inOrder).Pairwise fun a b => a.1 ≠ b.1 :=
    List.pairwise_map.mp hways
  refine (hsorted.and hapart).imp fun {a b} hab => ?_
  rw [inOrder, pathsInOrder_iff, not_lt] at hab
  exact lt_of_le_of_ne hab.1 hab.2

/-- Two lists in which the ways grow are one list if they hold the same files. -/
theorem eq_of_mem_iff {files others : List Found}
    (hfiles : files.Pairwise fun a b => a.1 < b.1) (hothers : others.Pairwise fun a b => a.1 < b.1)
    (h : ∀ found, found ∈ files ↔ found ∈ others) : files = others := by
  have hnodup : ∀ {list : List Found}, (list.Pairwise fun a b => a.1 < b.1) → list.Nodup := by
    intro list hlist
    refine hlist.imp ?_
    rintro a b hlt rfl
    exact lt_irrefl a.1 hlt
  exact List.Perm.eq_of_pairwise (fun a b _ _ hab hba => absurd hba hab.asymm) hfiles hothers
    ((List.perm_ext_iff_of_nodup (hnodup hfiles) (hnodup hothers)).mpr h)

/-- A scan of a directory finds the source paths under which something is read as a file, each
once and in the order of the names on the way, in whatever order the directories below
enumerate their entries. -/
theorem scan?_finds (h : tree.Lawful) (hroot : tree.isDirectory = true) :
    ∃ found, scan? tree = some found ∧
      (found.map (·.1)).Pairwise (· < ·) ∧
      (∀ names text, (names, text) ∈ found ↔
        tree.textAt? names = some text ∧ IsSourcePath names) ∧
      ∀ other, tree.Reordered other → scan? other = some found := by
  cases tree with
  | file text => cases hroot
  | special text => cases hroot
  | directory entries =>
      have hsorted := pairwise_mergeSort_inOrder (nodup_foundAmong h)
      have hmem : ∀ names text, (names, text) ∈ (foundAmong entries).mergeSort inOrder ↔
          (directory entries).textAt? names = some text ∧ IsSourcePath names := by
        intro names text
        rw [List.mem_mergeSort, mem_foundAmong_iff h]
      refine ⟨_, rfl, List.pairwise_map.mpr hsorted, hmem, fun other hother => ?_⟩
      have hlawful := hother.lawful h
      cases other with
      | file text => cases hother
      | special text => cases hother
      | directory others =>
          have hothers := pairwise_mergeSort_inOrder (nodup_foundAmong hlawful)
          refine congrArg some (eq_of_mem_iff hothers hsorted ?_)
          rintro ⟨names, text⟩
          rw [hmem, List.mem_mergeSort, mem_foundAmong_iff hlawful, hother.textAt?_eq]

/-- A build directory is passed over at any depth, a directory and a broken link with the name
of a source file are none, and the file beside them is found in any order. -/
theorem scan?_finds_invoice :
    let billing : FileTree := .directory
      [("target", .directory [("made.rs", .file "struct Made;")]),
        ("old.rs", .directory []), ("gone.rs", .special none),
        ("invoice.rs", .file "struct Invoice;")]
    let tree : FileTree := .directory [("notes.md", .file ""), ("billing", billing)]
    let other : FileTree := .directory [("billing", billing), ("notes.md", .file "")]
    ∃ found, scan? tree = some found ∧ scan? other = some found ∧
      (["billing", "invoice.rs"], "struct Invoice;") ∈ found ∧
      (["billing", "target", "made.rs"], "struct Made;") ∉ found ∧
      ∀ text, (["billing", "old.rs"], text) ∉ found ∧ (["billing", "gone.rs"], text) ∉ found := by
  intro billing tree other
  have hbilling : billing.Lawful := by
    refine .directory (by decide) (by decide) ?_
    simp only [List.forall_mem_cons]
    exact ⟨.directory (by decide) (by decide) (by simp [Lawful.file]), lawful_empty, .special _,
      .file _, by simp⟩
  have htree : tree.Lawful := by
    refine .directory (by decide) (by decide) ?_
    simp only [List.forall_mem_cons]
    exact ⟨.file _, hbilling, by simp⟩
  obtain ⟨found, hscan, -, hmem, horder⟩ := scan?_finds htree rfl
  refine ⟨found, hscan, horder other (htree.reordered_of_perm (.swap ..)), ?_, ?_, ?_⟩
  · exact (hmem _ _).mpr ⟨rfl, by decide, "invoice.rs", rfl, "invoice".toList, by decide⟩
  · exact fun hmade => absurd rfl (((hmem _ _).mp hmade).2.visible "target" (by simp)).2
  · intro text
    exact ⟨fun hold => (nomatch ((hmem _ _).mp hold).1),
      fun hgone => (nomatch ((hmem _ _).mp hgone).1)⟩

end ApiDoc.Source
