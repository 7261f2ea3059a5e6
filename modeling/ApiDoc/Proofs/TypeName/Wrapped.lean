import ApiDoc.Proofs.TypeName.Native

/-!
# Wrapped types

A type inside `Option`, `Box`, `Rc` or `Arc` maps as it does alone, however many of them are
around it.  Each step inwards drops all closing brackets and space from the end of the text,
those of inner types included.  So the argument is about texts that are the same up to such
an end: the brackets in it count for nothing, as long as there are no more of them than the
steps that are left to drop them, and those are the opening brackets in front.
-/

namespace ApiDoc.TypeName

open Text

/-! ## Ends of type texts -/

/-- What may stand at the end of a type text without counting. -/
def isCloser (c : Char) : Bool :=
  c = '>' || isBlank c

/-- A text that ends with something that counts, if it is not empty. -/
def IsCore (text : List Char) : Prop :=
  ∀ c ∈ text.getLast?, isCloser c = false

variable {text front body rest tail : List Char}

theorem ne_of_not_isCloser {c : Char} (h : isCloser c = false) : c ≠ '>' := by
  rintro rfl
  exact absurd h (by decide)

theorem isBlank_of_not_isCloser {c : Char} (h : isCloser c = false) : isBlank c = false :=
  (Bool.or_eq_false_iff.mp h).2

theorem IsCore.of_append (h : IsCore (front ++ rest)) : IsCore rest := by
  intro c hc
  apply h
  rw [List.getLast?_append, hc]
  rfl

theorem isCore_dropEndWhile (text : List Char) : IsCore (dropEndWhile isCloser text) := by
  intro c hc
  obtain ⟨hne, rfl⟩ := List.mem_getLast?_eq_getLast hc
  exact Bool.eq_false_iff.mpr (List.rdropWhile_last_not isCloser text hne)

/-- Only what stands behind a core is dropped to get at an argument. -/
theorem argument_append (h : IsCore body) (tail : List Char) :
    argument (body ++ tail) = body ++ argument tail := by
  rw [argument, argument, trimEnd, dropEndWhile_append, dropEndWhile_append, trimEnd]
  · exact fun c hc => decide_eq_false (ne_of_not_isCloser (h c hc))
  · exact fun c hc => isBlank_of_not_isCloser (h c hc)

theorem isPrefix_argument (text : List Char) : argument text <+: text :=
  (List.rdropWhile_prefix _ _).trans (isPrefix_trimEnd text)

/-- A closing bracket is dropped with each argument, until there is none. -/
theorem count_argument_le (h : ∀ c ∈ tail, isCloser c = true) :
    (argument tail).count '>' ≤ tail.count '>' - 1 := by
  rcases List.eq_nil_or_concat (trimEnd tail) with hnil | ⟨front, c, hlast⟩
  · rw [argument, hnil]
    exact Nat.zero_le _
  · rw [List.concat_eq_append] at hlast
    have hmem : c ∈ tail := (isPrefix_trimEnd tail).subset (hlast ▸ by simp)
    have hblank : isBlank c = false := eq_false_of_dropEndWhile_eq_concat hlast
    obtain rfl : c = '>' := by
      have hcloser := h c hmem
      rw [isCloser, hblank, Bool.or_false] at hcloser
      exact of_decide_eq_true hcloser
    have hdropped : argument tail <+: front := by
      rw [argument, hlast, dropEndWhile_append_of_forall (by simp)]
      exact List.rdropWhile_prefix _ _
    have hall := (isPrefix_trimEnd tail).sublist.count_le '>'
    have hless := hdropped.sublist.count_le '>'
    rw [hlast, List.count_append, List.count_singleton_self] at hall
    omega

/-- Closing brackets and space behind a core count for nothing, if there are no more such
brackets than steps inwards. -/
theorem nativeOf_append_tail (hbody : IsCore body) (htail : ∀ c ∈ tail, isCloser c = true)
    (hcount : tail.count '>' ≤ body.count '<') : nativeOf (body ++ tail) = nativeOf body := by
  induction hsteps : body.count '<' generalizing body tail with
  | zero =>
      have hnone : '>' ∉ tail := List.count_eq_zero.mp (by omega)
      refine nativeOf_congr (bare_append_of_blank (fun c hc => ?_) body)
      have hne : c ≠ '>' := fun heq => hnone (heq ▸ hc)
      simpa [isCloser, hne] using htail c hc
  | succ n ih =>
      have hmem : '<' ∈ body := List.count_pos_iff.mp (by omega)
      obtain ⟨front, rest, rfl, hfront⟩ := List.eq_append_cons_of_mem hmem
      have hrest : IsCore rest := (List.append_cons front '<' rest ▸ hbody).of_append
      have hn : rest.count '<' = n := by
        simpa [List.count_eq_zero_of_not_mem hfront] using hsteps
      -- The core keeps its end, so only the added end gets shorter on the way inwards.
      have hargument : nativeOf (argument (rest ++ tail)) = nativeOf (argument rest) := by
        have hself : argument rest = rest := by
          have happend := argument_append hrest []
          rwa [List.append_nil, show argument [] = [] from rfl, List.append_nil] at happend
        have hdrop := count_argument_le htail
        rw [argument_append hrest, hself]
        exact ih hrest (fun c hc => htail c ((isPrefix_argument tail).subset hc)) (by omega) hn
      rw [List.append_assoc, List.cons_append, nativeOf_append_cons hfront,
        nativeOf_append_cons hfront, hargument]

/-- Closing brackets at the end of a text with at least as many opening ones count for
nothing. -/
theorem nativeOf_dropEndWhile {text : List Char} (h : text.count '>' ≤ text.count '<') :
    nativeOf (dropEndWhile (· = '>') text) = nativeOf text := by
  obtain ⟨body, tail, rfl, hbody, htail⟩ : ∃ body tail, text = body ++ tail ∧ IsCore body ∧
      ∀ c ∈ tail, isCloser c = true :=
    ⟨_, _, List.rdropWhile_append_rtakeWhile.symm, isCore_dropEndWhile text,
      fun _ hc => List.mem_rtakeWhile_imp hc⟩
  have hopen : tail.count '<' = 0 :=
    List.count_eq_zero.mpr fun hmem => absurd (htail '<' hmem) (by decide)
  have hcount : tail.count '>' ≤ body.count '<' := by
    rw [List.count_append, List.count_append, hopen] at h
    omega
  have hkept : dropEndWhile (· = '>') tail <+: tail := List.rdropWhile_prefix _ _
  rw [dropEndWhile_append fun c hc => decide_eq_false (ne_of_not_isCloser (hbody c hc)),
    nativeOf_append_tail hbody (fun c hc => htail c (hkept.subset hc))
      ((hkept.sublist.count_le '>').trans hcount),
    nativeOf_append_tail hbody htail hcount]

/-! ## Transparent constructors -/

/-- The constructors that map as their argument does. -/
inductive Transparent
  | option
  | box
  | rc
  | arc
deriving DecidableEq, Repr

namespace Transparent

def name : Transparent → List Char
  | .option => "Option".toList
  | .box => "Box".toList
  | .rc => "Rc".toList
  | .arc => "Arc".toList

theorem ofWord_name (t : Transparent) : Wrapper.ofWord (String.ofList t.name) = .transparent := by
  cases t <;> rfl

theorem unmarked_name (t : Transparent) : unmarked t.name = t.name := by
  cases t <;> rfl

theorem not_mem_name {c : Char} (h : c ∈ [':', '<', '>', '[']) (t : Transparent) :
    c ∉ t.name := by
  simp only [List.mem_cons, List.not_mem_nil, or_false] at h
  rcases h with rfl | rfl | rfl | rfl <;> cases t <;> decide

end Transparent

/-- A transparent constructor behind a path, which has no type arguments and is no slice. -/
structure Layer where
  path : List String := []
  kind : Transparent
  plain : ∀ segment ∈ path,
    '<' ∉ segment.toList ∧ '>' ∉ segment.toList ∧ '[' ∉ segment.toList := by decide

namespace Layer

/-- The path, with a pair of colons behind each segment, and the constructor. -/
def head (l : Layer) : List Char :=
  (l.path.flatMap fun segment => segment.toList ++ [':', ':']) ++ l.kind.name

/-- The type with this constructor and this argument. -/
def wrap (l : Layer) (text : List Char) : List Char :=
  l.head ++ '<' :: (text ++ ['>'])

theorem not_mem_head {c : Char} (h : c ∈ ['<', '>', '[']) (l : Layer) : c ∉ l.head := by
  intro hmem
  rcases List.mem_append.mp hmem with hpath | hname
  · obtain ⟨segment, hsegment, hc⟩ := List.mem_flatMap.mp hpath
    rcases List.mem_append.mp hc with hc | hc
    · obtain ⟨hopen, hclose, hslice⟩ := l.plain segment hsegment
      simp only [List.mem_cons, List.not_mem_nil, or_false] at h
      rcases h with rfl | rfl | rfl
      · exact hopen hc
      · exact hclose hc
      · exact hslice hc
    · obtain rfl : c = ':' := by simpa using hc
      exact absurd h (by decide)
  · exact Transparent.not_mem_name (List.mem_cons_of_mem _ h) l.kind hname

/-- A path in front of the constructor does not hide it. -/
theorem lastSegment_unmarked_head (l : Layer) : lastSegment (unmarked l.head) = l.kind.name := by
  have hcolon : ':' ∉ l.kind.name := Transparent.not_mem_name List.mem_cons_self l.kind
  rw [head]
  rcases List.eq_nil_or_concat l.path with hpath | ⟨front, last, hpath⟩
  · rw [hpath, List.flatMap_nil, List.nil_append, Transparent.unmarked_name,
      lastSegment_of_not_mem hcolon]
  · rw [hpath, List.concat_eq_append, List.flatMap_append, List.flatMap_singleton]
    simp only [List.append_assoc, List.cons_append, List.nil_append]
    rw [← List.append_assoc, unmarked_append_cons (by decide) (by decide) (by decide),
      lastSegment_append hcolon]

/-- A type maps as it does alone. -/
theorem nativeOf_wrap (l : Layer) {text : List Char} (h : text.count '>' ≤ text.count '<') :
    nativeOf (l.wrap text) = nativeOf text := by
  have hslice : (unmarked l.head).head? ≠ some '[' := fun hhead =>
    l.not_mem_head (c := '[') (by decide)
      ((unmarked_suffix l.head).subset (List.mem_of_head? hhead))
  have hargument : argument (text ++ ['>']) = dropEndWhile (· = '>') text := by
    have htrim : trimEnd (text ++ ['>']) = text ++ ['>'] :=
      trimEnd_append_cons (by decide) text []
    rw [argument, htrim, dropEndWhile_append_of_forall (by simp)]
  rw [wrap, nativeOf_append_cons (l.not_mem_head (by decide)), if_neg hslice,
    l.lastSegment_unmarked_head, l.kind.ofWord_name, hargument]
  exact nativeOf_dropEndWhile h

theorem count_wrap (l : Layer) {text : List Char} (h : text.count '>' ≤ text.count '<') :
    (l.wrap text).count '>' ≤ (l.wrap text).count '<' := by
  have hclose : l.head.count '>' = 0 := List.count_eq_zero.mpr (l.not_mem_head (by decide))
  have hopen : l.head.count '<' = 0 := List.count_eq_zero.mpr (l.not_mem_head (by decide))
  simp [wrap, hclose, hopen, h]

end Layer

/-- A type maps as it does alone inside any number of transparent constructors, if it closes
no more brackets than it opens. -/
theorem native_wrapped (layers : List Layer) {type : String}
    (h : type.toList.count '>' ≤ type.toList.count '<') :
    native (String.ofList (layers.foldr Layer.wrap type.toList)) = native type := by
  have hlayers : (layers.foldr Layer.wrap type.toList).count '>' ≤
        (layers.foldr Layer.wrap type.toList).count '<' ∧
      nativeOf (layers.foldr Layer.wrap type.toList) = nativeOf type.toList := by
    induction layers with
    | nil => exact ⟨h, rfl⟩
    | cons l layers ih =>
        obtain ⟨hcount, hnative⟩ := ih
        exact ⟨l.count_wrap hcount, (l.nativeOf_wrap hcount).trans hnative⟩
  rw [native_ofList, hlayers.2, ← native_ofList, String.ofList_toList]

/-- A number behind two pointers, with a space between their brackets, in an option of a box. -/
theorem native_wrapped_number :
    let layers : List Layer :=
      [{ path := ["std", "option"], kind := .option }, { kind := .box }]
    let type := "Arc<Rc<i32> >"
    type.toList.count '>' ≤ type.toList.count '<' ∧
      String.ofList (layers.foldr Layer.wrap type.toList) =
        "std::option::Option<Box<Arc<Rc<i32> >>>" ∧
      native "std::option::Option<Box<Arc<Rc<i32> >>>" = native type ∧
      native type = "integer" := by
  intro layers type
  have hcount : type.toList.count '>' ≤ type.toList.count '<' := by decide
  have htext : String.ofList (layers.foldr Layer.wrap type.toList) =
      "std::option::Option<Box<Arc<Rc<i32> >>>" := by
    decide
  refine ⟨hcount, htext, ?_, by decide⟩
  rw [← htext]
  exact native_wrapped layers hcount

end ApiDoc.TypeName
