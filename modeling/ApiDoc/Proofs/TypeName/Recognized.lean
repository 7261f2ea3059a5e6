import ApiDoc.Component.Model
import ApiDoc.Proofs.TypeName.Native

/-!
# Names of native types

Two tables know the types of programming languages: one gives their schema types, the other
tells them from names of classes.  They cut a name at different separators, but a name in the
first table has neither of them in its last segment, so both look up the same word.  The
second table has all words with a schema type other than string, except for `map`.
-/

namespace ApiDoc

namespace TypeName

open Text

variable {name : String} {text : List Char}

/-- The word that both tables know: the last segment of the name, in lower case. -/
def word (name : String) : String :=
  lower (String.ofList (lastSegment (bare name.toList)))

/-- The words with a schema type other than string. -/
def recognizedWords : List String :=
  ["int", "integer", "i8", "i16", "i32", "i64", "i128", "isize", "u8", "u16", "u32", "u64",
    "u128", "usize", "float", "double", "number", "f32", "f64", "bool", "boolean", "array",
    "vec", "object", "mixed", "map", "value", "null"]

theorem mem_recognizedWords {w : String} (h : nativeOfWord w ≠ "string") :
    w ∈ recognizedWords := by
  unfold nativeOfWord at h
  split at h
  all_goals first
    | decide
    | exact absurd rfl h

/-! ## Names that are looked up -/

/-- A bare name that is looked up in the tables. -/
structure IsPlain (text : List Char) : Prop where
  ne_nil : text ≠ []
  ne_unit : text ≠ ['(', ')']
  not_slice : text.head? ≠ some '['
  no_arguments : '<' ∉ text

theorem isNative_of_not_isPlain (h : ¬ IsPlain (bare name.toList)) : isNative name = true := by
  rw [isNative]
  refine if_pos ?_
  by_contra hnone
  simp only [Bool.or_eq_true, List.isEmpty_iff, decide_eq_true_eq, List.contains_iff_mem,
    not_or] at hnone
  exact h ⟨hnone.1.1.1, hnone.1.1.2, hnone.1.2, hnone.2⟩

theorem native_of_isPlain (h : IsPlain (bare name.toList)) :
    native name = nativeOfWord (word name) := by
  have hempty : (bare name.toList).isEmpty = false := by simp [h.ne_nil]
  have hnative : native name = nativeOf name.toList := by
    rw [← native_ofList, String.ofList_toList]
  rw [hnative, nativeOf_eq, nativeStep]
  simp only [hempty, h.ne_unit, h.not_slice, cutFirst?_of_not_mem h.no_arguments,
    Bool.false_eq_true, if_false, word]

/-! ## One word for both tables -/

/-- Separators of paths have no other case. -/
theorem mem_lower {c : Char} (hc : lowerChar c = [c]) (h : c ∈ text) :
    c ∈ (lower (String.ofList text)).toList := by
  rw [lower, String.toList_ofList, String.toList_ofList]
  exact List.mem_flatMap.mpr ⟨c, h, hc ▸ List.mem_cons_self⟩

/-- Behind the last separator of either kind stands the last segment, if there is none in it. -/
theorem short_eq (hcolon : ':' ∉ lastSegment text) (hslash : '\\' ∉ lastSegment text) :
    short (String.ofList text) = String.ofList (lastSegment text) := by
  have hnone : ∀ c ∈ lastSegment text, (decide (c = '\\') || decide (c = ':')) = false := by
    intro c hc
    have hne : c ≠ '\\' ∧ c ≠ ':' := ⟨fun h => hslash (h ▸ hc), fun h => hcolon (h ▸ hc)⟩
    simp [hne]
  have hafter : afterLast (fun c => c = '\\' || c = ':') text = lastSegment text := by
    have hsegment := eq_lastSegment_or_exists text
    generalize lastSegment text = segment at hnone hsegment
    rcases hsegment with rfl | ⟨front, rfl⟩
    · exact afterLast_of_forall hnone
    · rw [List.append_assoc, List.cons_append, List.singleton_append, List.append_cons]
      exact afterLast_append_cons rfl hnone (front ++ [':'])
  rw [short, onString, String.toList_ofList, hafter]

theorem lower_short_bare (h : word name ∈ recognizedWords) :
    lower (short (String.ofList (bare name.toList))) = word name := by
  have hseparators : ∀ w ∈ recognizedWords, ':' ∉ w.toList ∧ '\\' ∉ w.toList := by decide
  obtain ⟨hcolon, hslash⟩ := hseparators (word name) h
  rw [short_eq (fun hmem => hcolon (mem_lower (by decide) hmem))
    (fun hmem => hslash (mem_lower (by decide) hmem)), word]

/-- A name of a map: its last segment is `map`. -/
structure NamesMap (name : String) : Prop where
  word_eq : word name = "map"
  not_slice : (bare name.toList).head? ≠ some '['
  no_arguments : '<' ∉ bare name.toList

theorem NamesMap.isPlain (h : NamesMap name) : IsPlain (bare name.toList) where
  ne_nil hnil := by
    have hword := h.word_eq
    rw [word, hnil] at hword
    exact absurd hword (by decide)
  ne_unit hunit := by
    have hword := h.word_eq
    rw [word, hunit] at hword
    exact absurd hword (by decide)
  not_slice := h.not_slice
  no_arguments := h.no_arguments

theorem isNative_of_isPlain (h : IsPlain (bare name.toList))
    (hword : word name ∈ recognizedWords) : isNative name = decide (word name ≠ "map") := by
  have hspecial : ((bare name.toList).isEmpty || decide (bare name.toList = ['(', ')']) ||
      decide ((bare name.toList).head? = some '[') || (bare name.toList).contains '<') =
        false := by
    simp [h.ne_nil, h.ne_unit, h.not_slice, h.no_arguments]
  rw [isNative]
  simp only [hspecial, Bool.false_eq_true, if_false, lower_short_bare hword]
  generalize word name = w at hword
  revert w
  decide

/-- A type other than string is given to a native name, unless it names a map. -/
theorem isNative_iff_of_native_ne (h : native name ≠ "string") :
    isNative name = true ↔ ¬NamesMap name := by
  by_cases hplain : IsPlain (bare name.toList)
  · have hword : word name ∈ recognizedWords :=
      mem_recognizedWords (native_of_isPlain hplain ▸ h)
    rw [isNative_of_isPlain hplain hword, decide_eq_true_eq, not_iff_not]
    exact ⟨fun hmap => ⟨hmap, hplain.not_slice, hplain.no_arguments⟩, NamesMap.word_eq⟩
  · exact iff_of_true (isNative_of_not_isPlain hplain) fun hmap => hplain hmap.isPlain

theorem NamesMap.native_eq (h : NamesMap name) : native name = "object" := by
  rw [native_of_isPlain h.isPlain, h.word_eq]
  rfl

end TypeName

/-- A declared type is described in place, or by the component of its class. -/
theorem ComputedAttribute.schema?_of_returnType? {a : ComputedAttribute} {name : String}
    (h : a.returnType? = some name) (now : Moment) :
    a.schema? now = some (if TypeName.isNative name then
      { type := some (TypeName.native name)
        sample := Scalar.exampleFor now (TypeName.native name) none }
      else .ref (TypeName.short name)) := by
  obtain ⟨accessor, haccessor, -⟩ := Option.bind_eq_some_iff.mp h
  rw [schema?, haccessor, h]
  rfl

namespace TypeName

/-- Every name with a schema type other than string is native, and an attribute of such a
type is described in place and not by a component, exactly if the name is not that of a map. -/
theorem recognized_isNative_iff (name : String) :
    ((native name ≠ "string" → isNative name = true) ↔ ¬NamesMap name) ∧
      ∀ (now : Moment) (a : ComputedAttribute), a.returnType? = some name →
        native name ≠ "string" →
          ((∃ s, a.schema? now = some s ∧ s.reference = none) ↔ ¬NamesMap name) := by
  constructor
  · constructor
    · intro h hmap
      have hne : native name ≠ "string" := by
        rw [hmap.native_eq]
        decide
      exact (isNative_iff_of_native_ne hne).mp (h hne) hmap
    · exact fun h hne => (isNative_iff_of_native_ne hne).mpr h
  · intro now a ha hne
    rw [← isNative_iff_of_native_ne hne, ComputedAttribute.schema?_of_returnType? ha]
    cases hnative : isNative name <;> simp [Schema.ref]

/-- `map` has the schema type of an object, but it is taken for the name of a class. -/
theorem not_forall_isNative_map : ¬ ∀ name, native name ≠ "string" → isNative name = true := by
  intro h
  exact absurd (h "map" (by decide)) (by decide)

end TypeName

end ApiDoc
