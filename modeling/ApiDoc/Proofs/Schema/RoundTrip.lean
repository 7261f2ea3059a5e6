import ApiDoc.Proofs.Schema.Fields

/-!
# Schemas read back

A schema that was written is read back as it was, if nothing in it is written like something
else: no extension has the name of a field, no value is `null`, and lengths fit a word.
-/

namespace ApiDoc

namespace Json

theorem asWord?_ofNat {n : Nat} (h : n < 2 ^ 64) : (ofNat n).asWord? = some n := by
  simp only [ofNat, asWord?, Int.natCast_nonneg, decide_true, Bool.true_and, Int.toNat_natCast]
  exact if_pos (decide_eq_true (by exact_mod_cast h))

theorem orNull?_eq_some {α : Type} {read : Json → Option α} {j : Json} {a : α} (hne : j ≠ null)
    (h : read j = some a) : orNull? read j = some (some a) := by
  cases j with
  | null => exact absurd rfl hne
  | _ => exact congrArg (Option.map some) h

end Json

namespace Schema

open Json (Row)

/-- A property of the schemas inside follows from a property of each of them. -/
theorem All.mono {p q : Schema → Prop} (h : ∀ s, p s → q s) {s : Schema} (hs : s.All p) :
    s.All q := by
  induction hs with
  | intro here _ _ ihProperties ihItems => exact .intro (h _ here) ihProperties ihItems

/-- Nothing that the schema itself holds is written like something else: beside what makes it
tidy, no value is `null`, which stands for none, and lengths fit a word. -/
structure ExactHere (s : Schema) : Prop where
  tidy : s.TidyHere
  notNull : ∀ value ∈ [s.default, s.sample, s.minimum, s.maximum], value ≠ some .null
  words : ∀ length ∈ [s.minLength, s.maxLength, s.minItems, s.maxItems], ∀ n ∈ length, n < 2 ^ 64

/-- Nothing in the schema is written like something else. -/
def Exact (s : Schema) : Prop :=
  s.All ExactHere

theorem Exact.tidy {s : Schema} (h : s.Exact) : s.Tidy :=
  h.mono fun _ here => here.tidy

theorem itemsOf?_itemsValue {items : Items Schema}
    (h : ∀ item ∈ items.schemas, ofJson? item.toJson = some item) :
    itemsOf? (itemsValue items) = some items := by
  cases items with
  | list slots => exact congrArg (Option.map Items.list) (Json.listOf?_map h)
  | single item =>
      have hitem := h item List.mem_cons_self
      rw [toJson_eq_obj] at hitem
      rw [itemsValue, toJson_eq_obj, itemsOf?_obj, hitem, Option.map_some]

theorem itemsValue_ne_null (items : Items Schema) : itemsValue items ≠ .null := by
  cases items with
  | list slots => simp [itemsValue]
  | single item => simp [itemsValue, toJson_eq_obj]

/-- Every field reads what it writes, if the schemas inside are read back. -/
theorem isRead_of_mem_table {s : Schema} (hs : s.ExactHere)
    (hproperties : ∀ ps ∈ s.properties, ∀ entry ∈ ps, ofJson? entry.2.toJson = some entry.2)
    (hitems : ∀ items ∈ s.items, ∀ item ∈ items.schemas, ofJson? item.toJson = some item) :
    ∀ f ∈ table, f.IsRead s := by
  have hvalue : ∀ {value : Option Json}, value ≠ some .null → ∀ j, value = some j →
      Json.orNull? some j = some (some j) := by
    rintro _ hne j rfl
    exact Json.orNull?_eq_some (fun heq => hne (congrArg some heq)) rfl
  have hlength : ∀ {length : Option Nat}, (∀ n ∈ length, n < 2 ^ 64) → ∀ n, length = some n →
      Json.orNull? Json.asWord? (.ofNat n) = some (some n) := by
    rintro _ hword n rfl
    exact Json.orNull?_eq_some (by simp [Json.ofNat]) (Json.asWord?_ofNat (hword n rfl))
  have hnames : ∀ names : List String,
      Json.orNull? (Json.listOf? Json.asStr?) (.arr (names.map .str)) = some (some names) := by
    intro names
    have hread : Json.listOf? Json.asStr? (.arr (names.map .str)) = some names :=
      Json.listOf?_map fun _ _ => rfl
    exact Json.orNull?_eq_some (by simp) hread
  have hnull := hs.notNull
  have hwords := hs.words
  simp only [List.forall_mem_cons, List.not_mem_nil, false_implies, implies_true, and_true]
    at hnull hwords
  obtain ⟨hdefault, hsample, hminimum, hmaximum⟩ := hnull
  obtain ⟨hminLength, hmaxLength, hminItems, hmaxItems⟩ := hwords
  simp only [table, List.forall_mem_cons, List.not_mem_nil, false_implies, implies_true, and_true]
  exact ⟨Row.isRead_optional fun _ _ => rfl, Row.isRead_optional fun _ _ => rfl,
    Row.isRead_optional fun _ _ => rfl, Row.isRead_optional fun _ _ => rfl,
    Row.isRead_optional fun _ _ => rfl, Row.isRead_optional fun _ _ => rfl,
    Row.isRead_optional (hvalue hdefault), Row.isRead_optional (hvalue hsample),
    Row.isRead_optional (hvalue hminimum), Row.isRead_optional (hvalue hmaximum),
    Row.isRead_optional (hlength hminLength), Row.isRead_optional (hlength hmaxLength),
    Row.isRead_optional (hlength hminItems), Row.isRead_optional (hlength hmaxItems),
    Row.isRead_optional fun ps hps => Json.orNull?_eq_some (by simp [Json.ofDict])
      (Json.dictOf?_ofDict (hs.tidy.properties ps hps) (hproperties ps hps)),
    Row.isRead_optional fun items h => Json.orNull?_eq_some (itemsValue_ne_null items)
      (itemsOf?_itemsValue (hitems items h)),
    Row.isRead_optional fun names _ => hnames names⟩

/-- A schema that was written is read back as it was. -/
theorem ofJson?_toJson {s : Schema} (h : s.Exact) : ofJson? s.toJson = some s := by
  induction h with
  | @intro s here inProperties inItems ihProperties ihItems =>
      have hs : s.Exact := .intro here inProperties inItems
      have hdistinct := hs.tidy.distinct_toJson
      have hextensions : Json.Extends (table.map Row.key) s.extensions := here.tidy.extensions
      rw [toJson_eq_obj, fields_eq_written] at hdistinct ⊢
      exact (ofJson?_obj_iff (Json.distinct_obj_iff.mp hdistinct).1).mpr
        (Json.holds_written (by decide) hextensions
          (isRead_of_mem_table here ihProperties ihItems))

end Schema

end ApiDoc
