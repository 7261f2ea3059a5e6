import ApiDoc.Proofs.Except
import ApiDoc.Request.Query

/-!
# Query parameters of rules

A rule that is added to the parameters sets the elements of the first array of the name
that it refines, and adds a parameter of its own where there is none.  So every query
parameter starts as the parameter of one rule, and after that only its elements are set.
-/

namespace ApiDoc.Query

/-- A parameter with other elements. -/
def withItem (p : Parameter) (item : Schema) : Parameter :=
  { p with schema := { p.schema with items := some (.single item) } }

/-- A parameter of this name that is an array. -/
def IsArray (name : String) (p : Parameter) : Prop :=
  p.name = name ∧ p.schema.isType "array" = true

instance (name : String) : DecidablePred (IsArray name) := fun _ => instDecidableAnd

/-- Elements are set in the first array of the name, and nowhere if there is none. -/
theorem setItem?_cases (name : String) (item : Schema) (ps : List Parameter) :
    ((∀ p ∈ ps, ¬ IsArray name p) ∧ setItem? name item ps = none) ∨
      ∃ i p, ps[i]? = some p ∧ IsArray name p ∧ (∀ q ∈ ps.take i, ¬ IsArray name q) ∧
        setItem? name item ps = some (ps.set i (withItem p item)) := by
  induction ps with
  | nil => exact .inl ⟨List.forall_mem_nil _, rfl⟩
  | cons p ps ih =>
      by_cases harray : IsArray name p
      · refine .inr ⟨0, p, rfl, harray, List.forall_mem_nil _, ?_⟩
        rw [setItem?, if_pos (by simpa [IsArray] using harray)]
        rfl
      · have hskip : setItem? name item (p :: ps) = (setItem? name item ps).map (p :: ·) := by
          rw [setItem?, if_neg fun hsame => harray (by simpa [IsArray] using hsame)]
        rw [hskip]
        rcases ih with ⟨hnone, hset⟩ | ⟨i, q, hq, hqArray, hbefore, hset⟩
        · exact .inl ⟨List.forall_mem_cons.mpr ⟨harray, hnone⟩, by rw [hset]; rfl⟩
        · exact .inr ⟨i + 1, q, hq, hqArray, List.forall_mem_cons.mpr ⟨harray, hbefore⟩,
            by rw [hset]; rfl⟩

/-- A change of one entry that a function does not see. -/
theorem map_set_eq {α β : Type} {f : α → β} {xs : List α} {i : Nat} {x y : α}
    (hx : xs[i]? = some x) (h : f y = f x) : (xs.set i y).map f = xs.map f := by
  apply List.ext_getElem?
  intro j
  rw [List.getElem?_map, List.getElem?_map]
  by_cases hsame : i = j
  · subst hsame
    obtain ⟨hi, -⟩ := List.getElem?_eq_some_iff.mp hx
    rw [List.getElem?_set_self hi, hx, Option.map_some, Option.map_some, h]
  · rw [List.getElem?_set_ne hsame]

/-- A rule sets the elements of the first array that it refines, or adds its parameter. -/
theorem addRule_cases (now : Moment) (ps : List Parameter) (field : FieldRules) :
    (∃ name i p, arrayName? field.field = some name ∧ ps[i]? = some p ∧ IsArray name p ∧
      (∀ q ∈ ps.take i, ¬ IsArray name q) ∧
      addRule now ps field =
        ps.set i (withItem p { field.schema now with description := none })) ∨
    ((∀ name ∈ arrayName? field.field, ∀ p ∈ ps, ¬ IsArray name p) ∧
      addRule now ps field = ps ++ [parameter now field]) := by
  rw [addRule]
  cases hname : arrayName? field.field with
  | none =>
      refine .inr ⟨?_, rfl⟩
      rintro _ ⟨⟩
  | some name =>
      rw [Option.bind_some]
      rcases setItem?_cases name { field.schema now with description := none } ps with
        ⟨hnone, hset⟩ | ⟨i, p, hp, harray, hbefore, hset⟩
      · refine .inr ⟨?_, by rw [hset]; rfl⟩
        rintro _ ⟨⟩
        exact hnone
      · exact .inl ⟨name, i, p, rfl, hp, harray, hbefore, by rw [hset]; rfl⟩

theorem forall_mem_addRule {q : Parameter → Prop} {now : Moment} {rules : FieldRules}
    (hnew : q (parameter now rules))
    (hitem : ∀ p, q p → q (withItem p { rules.schema now with description := none }))
    {ps : List Parameter} (hps : ∀ p ∈ ps, q p) : ∀ p ∈ addRule now ps rules, q p := by
  intro p hp
  rcases addRule_cases now ps rules with ⟨-, i, old, -, hold, -, -, heq⟩ | ⟨-, heq⟩
  · rw [heq] at hp
    rcases List.mem_or_eq_of_mem_set hp with hmem | rfl
    · exact hps p hmem
    · exact hitem old (hps old (List.mem_of_getElem? hold))
  · rw [heq] at hp
    rcases List.mem_append.mp hp with hmem | hmem
    · exact hps p hmem
    · exact List.mem_singleton.mp hmem ▸ hnew

/-- What holds of the parameter of every rule, and is kept when its elements are set,
holds of every query parameter. -/
theorem forall_mem_parameters {q : Parameter → Prop} {now : Moment}
    {rules : List (String × Json)} {ps : List Parameter}
    (hnew : ∀ field : FieldRules, q (parameter now field))
    (hitem : ∀ p (field : FieldRules), q p →
      q (withItem p { field.schema now with description := none }))
    (hfinish : ∀ p, q p → q (withItem p (.typed "string")))
    (h : parameters now rules = .ok ps) : ∀ p ∈ ps, q p := by
  obtain ⟨fields, -, rfl⟩ := map_eq_ok_iff.mp h
  have hdraft : ∀ p ∈ fields.foldl (addRule now) [], q p := by
    refine List.foldlRecOn (motive := fun ps : List Parameter => ∀ p ∈ ps, q p) fields
      (addRule now) (by simp) ?_
    intro ps hps field _
    exact forall_mem_addRule (hnew field) (fun p => hitem p field) hps
  intro p hp
  obtain ⟨old, hold, rfl⟩ := List.mem_map.mp hp
  rw [finish]
  split
  · exact hfinish old (hdraft old hold)
  · exact hdraft old hold

theorem location_of_mem_parameters {now : Moment} {rules : List (String × Json)}
    {ps : List Parameter} (h : parameters now rules = .ok ps) :
    ∀ p ∈ ps, p.location = .query :=
  forall_mem_parameters (fun _ => rfl) (fun _ _ hp => hp) (fun _ hp => hp) h

end ApiDoc.Query
