import ApiDoc.Proofs.Json.Shape

/-!
# Records as tables of fields

A record is written field by field: each stands for one part of the record, and is left out
for some values of the part.  It is read the same way, each part from the member under the
key of its field.  A field is a row of the table of the record: what was written is found
again, if every row reads what it writes.
-/

namespace ApiDoc.Json

/-- One field of a record: its key, the part it stands for, what the part is without a member
under the key, how a member is read, and how the part is written, if it is. -/
structure Row (σ : Type) where
  {Value : Type}
  key : String
  part : σ → Value
  absent : Option Value
  read : Json → Option Value
  write : Value → Option Json

namespace Row

variable {σ α : Type}

/-- A field that is always written, and has to be there. -/
def required (key : String) (part : σ → α) (read : Json → Option α) (write : α → Json) :
    Row σ :=
  ⟨key, part, none, read, fun a => some (write a)⟩

/-- A field that is always written, and may be missing. -/
def defaulted (key : String) (part : σ → α) (absent : α) (read : Json → Option α)
    (write : α → Json) : Row σ :=
  ⟨key, part, some absent, read, fun a => some (write a)⟩

/-- A field that is written if there is a value. -/
def optional (key : String) (part : σ → Option α) (read : Json → Option (Option α))
    (write : α → Json) : Row σ :=
  ⟨key, part, some none, read, Option.map write⟩

/-- A field that is written for some values only. -/
def skipping (key : String) (part : σ → α) (skip : α → Bool) (absent : α)
    (read : Json → Option α) (write : α → Json) : Row σ :=
  ⟨key, part, some absent, read, fun a => if skip a then none else some (write a)⟩

/-- A list that is written unless it is empty. -/
def list (key : String) (part : σ → List α) (read : Json → Option α) (write : α → Json) :
    Row σ :=
  skipping key part List.isEmpty [] (listOf? read) fun items => arr (items.map write)

/-- The part as it is found among members. -/
def found (f : Row σ) (members : List (String × Json)) : Option f.Value :=
  (Dict.find? members f.key).elim f.absent f.read

section Found

variable (key : String) (members : List (String × Json))

@[simp] theorem found_required (part : σ → α) (read : Json → Option α) (write : α → Json) :
    (required key part read write).found members =
      (Record.named members).required? key read := by
  rw [Record.required?, Record.find?, Record.named]
  change (Dict.find? members key).elim none read = (Dict.find? members key).bind read
  cases Dict.find? members key <;> rfl

@[simp] theorem found_defaulted (part : σ → α) (absent : α) (read : Json → Option α)
    (write : α → Json) :
    (defaulted key part absent read write).found members =
      (Record.named members).defaulted? key absent read :=
  (Record.defaulted?_named members key absent read).symm

@[simp] theorem found_optional (part : σ → Option α) (read : Json → Option (Option α))
    (write : α → Json) :
    (optional key part read write).found members =
      (Record.named members).optional? key read :=
  (Record.optional?_named members key read).symm

@[simp] theorem found_skipping (part : σ → α) (skip : α → Bool) (absent : α)
    (read : Json → Option α) (write : α → Json) :
    (skipping key part skip absent read write).found members =
      (Record.named members).defaulted? key absent read :=
  (Record.defaulted?_named members key absent read).symm

@[simp] theorem found_list (part : σ → List α) (read : Json → Option α) (write : α → Json) :
    (list key part read write).found members =
      (Record.named members).defaulted? key [] (listOf? read) :=
  found_skipping ..

end Found

/-- The part as it is written. -/
def member (f : Row σ) (s : σ) : List (String × Json) :=
  optionalMember f.key id (f.write (f.part s))

section Members

variable (key : String) (s : σ)

@[simp] theorem member_required (part : σ → α) (read : Json → Option α) (write : α → Json) :
    (required key part read write).member s = [(key, write (part s))] := rfl

@[simp] theorem member_defaulted (part : σ → α) (absent : α) (read : Json → Option α)
    (write : α → Json) :
    (defaulted key part absent read write).member s = [(key, write (part s))] := rfl

@[simp] theorem member_optional (part : σ → Option α) (read : Json → Option (Option α))
    (write : α → Json) :
    (optional key part read write).member s = optionalMember key write (part s) := by
  rw [member, optional]
  dsimp only
  cases part s <;> rfl

@[simp] theorem member_skipping (part : σ → α) (skip : α → Bool) (absent : α)
    (read : Json → Option α) (write : α → Json) :
    (skipping key part skip absent read write).member s =
      if skip (part s) then [] else [(key, write (part s))] := by
  rw [member, skipping]
  dsimp only
  split <;> rfl

@[simp] theorem member_list (part : σ → List α) (read : Json → Option α) (write : α → Json) :
    (list key part read write).member s = listMember key write (part s) := by
  rw [list, member_skipping]
  cases part s <;> rfl

end Members

/-- What the part is written as, or left out for, is read as the part. -/
def IsRead (f : Row σ) (s : σ) : Prop :=
  (f.write (f.part s)).elim f.absent f.read = some (f.part s)

section IsRead

variable {key : String} {s : σ} {write : α → Json}

theorem isRead_required {part : σ → α} {read : Json → Option α}
    (h : read (write (part s)) = some (part s)) : (required key part read write).IsRead s := h

theorem isRead_defaulted {part : σ → α} {absent : α} {read : Json → Option α}
    (h : read (write (part s)) = some (part s)) :
    (defaulted key part absent read write).IsRead s := h

theorem isRead_optional {part : σ → Option α} {read : Json → Option (Option α)}
    (h : ∀ a, part s = some a → read (write a) = some (some a)) :
    (optional key part read write).IsRead s := by
  rw [IsRead, optional]
  dsimp only
  cases hpart : part s with
  | none => rfl
  | some a => exact h a hpart

theorem isRead_skipping {part : σ → α} {skip : α → Bool} {absent : α} {read : Json → Option α}
    (hskip : skip (part s) = true → part s = absent)
    (h : read (write (part s)) = some (part s)) :
    (skipping key part skip absent read write).IsRead s := by
  rw [IsRead, skipping]
  dsimp only
  split
  · next hskipped => exact congrArg some (hskip hskipped).symm
  · exact h

theorem isRead_list {part : σ → List α} {read : Json → Option α} {write : α → Json}
    (h : ∀ a ∈ part s, read (write a) = some a) : (list key part read write).IsRead s :=
  isRead_skipping List.isEmpty_iff.mp (listOf?_map h)

end IsRead

end Row

/-! ## Tables -/

section Table

variable {σ : Type} {table : List (Row σ)} {f : Row σ} {s : σ} {extensions : Dict Json}

/-- The members hold the record: each part is what its field finds, and the extensions are
the members that belong to no field. -/
structure Holds (table : List (Row σ)) (extensions : σ → Dict Json)
    (members : List (String × Json)) (s : σ) : Prop where
  parts : ∀ f ∈ table, f.found members = some (f.part s)
  extensions : extensions s = others (table.map Row.key) members

/-- The fields of a record as they are written. -/
def written (table : List (Row σ)) (s : σ) : List (String × Json) :=
  table.flatMap fun f => f.member s

theorem key_mem_of_mem_written {entry : String × Json} (h : entry ∈ written table s) :
    entry.1 ∈ table.map Row.key := by
  obtain ⟨f, hf, hentry⟩ := List.mem_flatMap.mp h
  rw [Row.member] at hentry
  cases hwrite : f.write (f.part s) with
  | none => simp [optionalMember, hwrite] at hentry
  | some j =>
      obtain rfl : entry = (f.key, j) := by simpa [optionalMember, hwrite] using hentry
      exact List.mem_map_of_mem hf

/-- Under the key of a field stands what its part is written as. -/
theorem find?_written (hkeys : (table.map Row.key).Nodup) (hf : f ∈ table) (s : σ) :
    Dict.find? (written table s) f.key = f.write (f.part s) := by
  induction table with
  | nil => cases hf
  | cons first rest ih =>
      obtain ⟨hfirst, hrest⟩ := List.nodup_cons.mp hkeys
      have hmember : Dict.find? (first.member s) f.key =
          if first.key = f.key then first.write (first.part s) else none := by
        rw [Row.member, find?_optionalMember, Option.map_id_fun, id]
      rw [written, List.flatMap_cons, Dict.find?_append, hmember]
      rcases List.mem_cons.mp hf with rfl | hmem
      · have hnone : Dict.find? (written rest s) f.key = none :=
          Dict.find?_eq_none_iff.mpr fun _ hvalue => hfirst (key_mem_of_mem_written hvalue)
        rw [if_pos rfl]
        exact (congrArg _ hnone).trans Option.or_none
      · have hne : first.key ≠ f.key := fun heq => hfirst (heq ▸ List.mem_map_of_mem hmem)
        rw [if_neg hne, Option.none_or]
        exact ih hrest hmem

/-- Extensions do not hide a field. -/
theorem find?_written_append (hkeys : (table.map Row.key).Nodup) (hf : f ∈ table)
    (hextensions : Extends (table.map Row.key) extensions) (s : σ) :
    Dict.find? (written table s ++ extensions) f.key = f.write (f.part s) := by
  rw [Dict.find?_append, find?_written hkeys hf,
    hextensions.find?_eq_none (List.mem_map_of_mem hf), Option.or_none]

/-- Behind the fields stand the extensions. -/
theorem find?_written_append_of_not_mem {key : String} (hkey : key ∉ table.map Row.key)
    (s : σ) :
    Dict.find? (written table s ++ extensions) key = Dict.find? extensions key := by
  have hnone : Dict.find? (written table s) key = none :=
    Dict.find?_eq_none_iff.mpr fun _ hvalue => hkey (key_mem_of_mem_written hvalue)
  rw [Dict.find?_append, hnone, Option.none_or]

/-- The members that belong to no field are the extensions. -/
theorem others_written_append (hextensions : Extends (table.map Row.key) extensions) (s : σ) :
    others (table.map Row.key) (written table s ++ extensions) = extensions := by
  have hfields : (written table s).filter (fun entry => !(table.map Row.key).contains entry.1) =
      [] := by
    refine List.filter_eq_nil_iff.mpr fun entry hentry => ?_
    simpa using key_mem_of_mem_written hentry
  have hrest : extensions.filter (fun entry => !(table.map Row.key).contains entry.1) =
      extensions := by
    refine List.filter_eq_self.mpr fun entry hentry => ?_
    simpa using hextensions.fresh entry hentry
  rw [others, List.filter_append, hfields, hrest, List.nil_append]
  exact Dict.ofList_of_increasing hextensions.increasing

/-- What was written is found, if every field reads what it writes. -/
theorem forall_found_written (hkeys : (table.map Row.key).Nodup)
    (hread : ∀ f ∈ table, f.IsRead s) :
    ∀ f ∈ table, f.found (written table s) = some (f.part s) := by
  intro f hf
  rw [Row.found, find?_written hkeys hf]
  exact hread f hf

/-- A record whose fields read what they write is held by what is written. -/
theorem holds_written {extensions : σ → Dict Json} (hkeys : (table.map Row.key).Nodup)
    (hextensions : Extends (table.map Row.key) (extensions s))
    (hread : ∀ f ∈ table, f.IsRead s) :
    Holds table extensions (written table s ++ extensions s) s := by
  refine ⟨fun f hf => ?_, (others_written_append hextensions s).symm⟩
  rw [Row.found, find?_written_append hkeys hf hextensions]
  exact hread f hf

end Table

end ApiDoc.Json
