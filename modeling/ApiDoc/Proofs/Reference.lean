import ApiDoc.Proofs.Text
import ApiDoc.Reference
import Mathlib.Data.List.Infix
import Mathlib.Data.List.TakeWhile
import Mathlib.Data.Option.Basic

/-!
# Calls in references

A call `Code(Name)` is read wherever it stands in a reference, and what stands around it is
left out.  A reference is used as a whole exactly if it is a call, or has none in it: then a
list is one of the whole text in front of its brackets.
-/

namespace ApiDoc.Reference

/-! ## Names and calls -/

/-- A letter with word characters behind it. -/
def IsName (text : List Char) : Prop :=
  ∃ c cs, text = c :: cs ∧ c.isAlpha = true ∧ ∀ d ∈ cs, Text.isWord d = true

/-- A code with the name that it is called for. -/
structure Call where
  code : String
  model : String
  isName_code : IsName code.toList
  isName_model : IsName model.toList

/-- How a call is written. -/
def Call.text (c : Call) : List Char :=
  c.code.toList ++ '(' :: (c.model.toList ++ [')'])

section Names

variable {name text rest : List Char} {code model : String}

theorem name?_append {c : Char} (h : IsName name) (hc : Text.isWord c = false)
    (rest : List Char) : name? (name ++ c :: rest) = some (name, c :: rest) := by
  obtain ⟨first, more, rfl, hfirst, hmore⟩ := h
  have htake : (more ++ c :: rest).takeWhile Text.isWord = more := by
    rw [List.takeWhile_append_of_pos hmore, List.takeWhile_cons_of_neg (by simp [hc]),
      List.append_nil]
  have hdrop : (more ++ c :: rest).dropWhile Text.isWord = c :: rest := by
    rw [List.dropWhile_append_of_pos hmore, List.dropWhile_cons_of_neg (by simp [hc])]
  rw [List.cons_append, name?, if_pos hfirst, htake, hdrop]

theorem isName_of_name? (h : name? text = some (name, rest)) :
    IsName name ∧ text = name ++ rest := by
  cases text with
  | nil => cases h
  | cons c cs =>
      rw [name?] at h
      split at h
      · next hletter =>
          obtain ⟨rfl, rfl⟩ := Prod.mk.inj (Option.some.inj h)
          refine ⟨⟨c, _, rfl, hletter, fun d hd => ?_⟩, ?_⟩
          · exact List.mem_takeWhile_imp hd
          · rw [List.cons_append, List.takeWhile_append_dropWhile]
      · cases h

theorem callHere?_append (c : Call) (rest : List Char) :
    callHere? (c.text ++ rest) = some (c.code, c.model) := by
  have htext : c.text ++ rest = c.code.toList ++ '(' :: (c.model.toList ++ ')' :: rest) := by
    simp [Call.text]
  have hcode := name?_append c.isName_code (c := '(') (by decide +kernel)
    (c.model.toList ++ ')' :: rest)
  have hmodel := name?_append c.isName_model (c := ')') (by decide +kernel) rest
  rw [htext, callHere?, hcode]
  simp only [hmodel, String.ofList_toList]

theorem exists_of_callHere? (h : callHere? text = some (code, model)) :
    ∃ c : Call, c.code = code ∧ c.model = model ∧ c.text <+: text := by
  rw [callHere?] at h
  split at h
  · next front rest hfront =>
      split at h
      · next back more hback =>
          obtain ⟨rfl, rfl⟩ := Prod.mk.inj (Option.some.inj h)
          obtain ⟨hcode, rfl⟩ := isName_of_name? hfront
          obtain ⟨hmodel, rfl⟩ := isName_of_name? hback
          refine ⟨⟨String.ofList front, String.ofList back, by rwa [String.toList_ofList],
            by rwa [String.toList_ofList]⟩, rfl, rfl, more, ?_⟩
          simp [Call.text]
      · cases h
  · cases h

end Names

/-! ## Calls in texts -/

section Texts

variable {text : List Char} {code model : String}

/-- The call that is read stands in the text. -/
theorem exists_of_call? (h : call? text = some (code, model)) :
    ∃ c : Call, c.code = code ∧ c.model = model ∧ c.text <:+: text := by
  induction text with
  | nil => cases h
  | cons first rest ih =>
      rw [call?, Option.or_eq_some_iff] at h
      rcases h with hhere | ⟨-, hlater⟩
      · obtain ⟨c, hcode, hmodel, hprefix⟩ := exists_of_callHere? hhere
        exact ⟨c, hcode, hmodel, hprefix.isInfix⟩
      · obtain ⟨c, hcode, hmodel, hinfix⟩ := ih hlater
        exact ⟨c, hcode, hmodel, hinfix.trans (List.suffix_cons first rest).isInfix⟩

/-- No call is read exactly if none stands in the text. -/
theorem call?_eq_none_iff : call? text = none ↔ ∀ c : Call, ¬ c.text <:+: text := by
  constructor
  · intro hnone c hinfix
    induction text with
    | nil => simp [Call.text] at hinfix
    | cons first rest ih =>
        rw [call?, Option.or_eq_none_iff] at hnone
        rcases List.infix_cons_iff.mp hinfix with ⟨more, hmore⟩ | hlater
        · rw [← hmore, callHere?_append] at hnone
          cases hnone.1
        · exact ih hnone.2 hlater
  · intro hnone
    rw [Option.eq_none_iff_forall_ne_some]
    rintro ⟨code, model⟩ hcall
    obtain ⟨c, -, -, hinfix⟩ := exists_of_call? hcall
    exact hnone c hinfix

/-- A text that is a call is read as this call, and not as one that starts later. -/
theorem call?_text (c : Call) : call? c.text = some (c.code, c.model) := by
  have hhere : callHere? c.text = some (c.code, c.model) := by
    have happend := callHere?_append c []
    rwa [List.append_nil] at happend
  obtain ⟨first, rest, htext⟩ : ∃ first rest, c.text = first :: rest :=
    List.exists_cons_of_ne_nil (by simp [Call.text])
  rw [htext] at hhere ⊢
  rw [call?, hhere, Option.some_or]

end Texts

/-! ## References that are used as a whole -/

/-- A reference without its white space. -/
def letters (reference : String) : List Char :=
  reference.toList.filter (!Text.isBlank ·)

variable {builders : Builders} {reference uri code model : String}

theorem structured_of_call (builders : Builders) (uri : String)
    (h : call? (letters reference) = some (code, model)) :
    structured builders reference uri =
      match builders.find? code with
      | some builder => .ok (some (builder (Schema.refPath model) uri))
      | none => .error (.builderNotFound code uri) := by
  have hparse : parse reference = .call code model := by
    rw [parse, ← letters, h]
  cases hbuilder : builders.find? code with
  | none => simp only [structured, hparse, hbuilder]
  | some builder => simp only [structured, hparse, hbuilder]

theorem structured_of_not_call (builders : Builders) (uri : String)
    (h : call? (letters reference) = none) :
    structured builders reference uri =
      .ok ((Text.dropTail? ['[', ']'] (letters reference)).map
        fun model => .arrayOf (.ref (String.ofList model))) := by
  rw [structured, parse, ← letters, h]
  cases Text.dropTail? ['[', ']'] (letters reference) <;> rfl

/-- What a reference is resolved to is said by all of its characters: it is what the builder of
a call gives, the missing builder of one, or a list of what stands in front of its brackets,
whatever builders there are. -/
structure UsedWhole (builders : Builders) (reference uri : String) : Prop where
  schema : ∀ s, structured builders reference uri = .ok (some s) →
    (∃ (c : Call) (builder : Builder), letters reference = c.text ∧
      builders.find? c.code = some builder ∧ s = builder (Schema.refPath c.model) uri) ∨
    ∃ model : String, letters reference = model.toList ++ ['[', ']'] ∧
      s = .arrayOf (.ref model) ∧ ∀ others, structured others reference uri = .ok (some s)
  error : ∀ e, structured builders reference uri = .error e →
    ∃ c : Call, letters reference = c.text ∧ builders.find? c.code = none ∧
      e = .builderNotFound c.code uri

theorem usedWhole_of_call (builders : Builders) (uri : String) {c : Call}
    (h : letters reference = c.text) : UsedWhole builders reference uri := by
  have hstructured := structured_of_call builders uri (h ▸ call?_text c)
  cases hbuilder : builders.find? c.code with
  | none =>
      rw [hbuilder] at hstructured
      refine ⟨fun s hs => ?_, fun e he => ⟨c, h, hbuilder, ?_⟩⟩
      · rw [hstructured] at hs
        cases hs
      · exact (Except.error.inj (hstructured.symm.trans he)).symm
  | some builder =>
      rw [hbuilder] at hstructured
      refine ⟨fun s hs => .inl ⟨c, builder, h, hbuilder, ?_⟩, fun e he => ?_⟩
      · exact (Option.some.inj (Except.ok.inj (hstructured.symm.trans hs))).symm
      · rw [hstructured] at he
        cases he

theorem usedWhole_of_not_call (builders : Builders) (uri : String)
    (h : call? (letters reference) = none) : UsedWhole builders reference uri := by
  have hstructured := fun others => structured_of_not_call others uri h
  refine ⟨fun s hs => .inr ?_, fun e he => ?_⟩
  · have hlist := Except.ok.inj ((hstructured builders).symm.trans hs)
    obtain ⟨front, hfront, heq⟩ := Option.map_eq_some_iff.mp hlist
    refine ⟨String.ofList front, ?_, heq.symm, fun others => ?_⟩
    · rw [String.toList_ofList]
      exact Text.dropTail?_eq_some_iff.mp hfront
    · rw [hstructured others, hlist]
  · rw [hstructured builders] at he
    cases he

/-- A reference in which a call stands is used as a whole only if it is a call. -/
theorem UsedWhole.exists_call (h : UsedWhole builders reference uri)
    (hcall : call? (letters reference) = some (code, model)) :
    ∃ c : Call, letters reference = c.text := by
  have hstructured := structured_of_call builders uri hcall
  cases hbuilder : builders.find? code with
  | none =>
      rw [hbuilder] at hstructured
      obtain ⟨c, htext, -⟩ := h.error _ hstructured
      exact ⟨c, htext⟩
  | some builder =>
      rw [hbuilder] at hstructured
      rcases h.schema _ hstructured with ⟨c, _, htext, -⟩ | ⟨_, -, -, hothers⟩
      · exact ⟨c, htext⟩
      · -- Without builders the call is an error, so no list has been read.
        have hempty := (structured_of_call {} uri hcall).symm.trans (hothers {})
        cases hempty

/-- A reference is used as a whole exactly if it is a call, or no call stands in it. -/
theorem usedWhole_iff (builders : Builders) (reference uri : String) :
    UsedWhole builders reference uri ↔
      (∃ c : Call, letters reference = c.text) ∨
        ∀ c : Call, ¬ c.text <:+: letters reference := by
  rw [← call?_eq_none_iff]
  constructor
  · intro h
    cases hcall : call? (letters reference) with
    | none => exact .inr rfl
    | some found => exact .inl (h.exists_call hcall)
  · rintro (⟨c, hc⟩ | hnone)
    · exact usedWhole_of_call builders uri hc
    · exact usedWhole_of_not_call builders uri hnone

/-- A mark behind a call is left out, and the page of the call is given all the same. -/
theorem not_usedWhole_optional :
    let builders := Builders.register {} "P" (PageKind.lengthAware.schema "")
    structured builders "P(User)?" "/users" =
        .ok (some (PageKind.lengthAware.schema "" (Schema.refPath "User") "/users")) ∧
      ¬ UsedWhole builders "P(User)?" "/users" := by
  intro builders
  have hstructured : structured builders "P(User)?" "/users" =
      .ok (some (PageKind.lengthAware.schema "" (Schema.refPath "User") "/users")) := by
    rfl
  have hletters : letters "P(User)?" = "P(User)?".toList := by decide +kernel
  refine ⟨hstructured, fun h => ?_⟩
  rcases h.schema _ hstructured with ⟨c, -, htext, -⟩ | ⟨model, htext, -⟩
  · have hlast := congrArg List.getLast? (hletters.symm.trans htext)
    rw [Call.text, ← List.cons_append, ← List.append_assoc, List.getLast?_concat] at hlast
    exact absurd hlast (by decide +kernel)
  · have hlast := congrArg List.getLast? (hletters.symm.trans htext)
    rw [List.getLast?_append_of_ne_nil _ (by simp)] at hlast
    exact absurd hlast (by decide +kernel)

end ApiDoc.Reference
