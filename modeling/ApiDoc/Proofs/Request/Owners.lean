import ApiDoc.Proofs.Request.BracketName

/-!
# Query parameters and their rules

While rules are added, each of them adds a parameter of its own or sets the elements of an
array that is there.  So the parameters stand beside the rules that own them, in order, and
are what these rules describe but for elements.  A rule sets the elements of the first
array with the name that it asks for, and leaves all other parameters.
-/

namespace ApiDoc.Query

variable {now : Moment} {rules before after : RuleSet} {field : FieldRules}
  {ps : List Parameter}

/-! ## Rules with a parameter of their own -/

/-- The parameters while rules are added. -/
def draft (now : Moment) (rules : RuleSet) : List Parameter :=
  rules.foldl (addRule now) []

theorem draft_append (rules others : RuleSet) :
    draft now (rules ++ others) = others.foldl (addRule now) (draft now rules) :=
  List.foldl_append

/-- The rules by which the parameters become more, from given parameters on. -/
def ownersFrom (now : Moment) : List Parameter → RuleSet → RuleSet
  | _, [] => []
  | ps, field :: rest =>
      let more := addRule now ps field
      if ps.length < more.length then field :: ownersFrom now more rest
      else ownersFrom now more rest

/-- The rules that have a parameter of their own, in the order of the parameters. -/
def owners (now : Moment) (rules : RuleSet) : RuleSet :=
  ownersFrom now [] rules

/-- The parameters of rules, each beside the rule that it belongs to. -/
def owned (now : Moment) (rules : RuleSet) : List (FieldRules × Parameter) :=
  (owners now rules).zip (ofRules now rules)

theorem ownersFrom_append (ps : List Parameter) (rules others : RuleSet) :
    ownersFrom now ps (rules ++ others) =
      ownersFrom now ps rules ++ ownersFrom now (rules.foldl (addRule now) ps) others := by
  induction rules generalizing ps with
  | nil => rfl
  | cons field rest ih =>
      rw [List.cons_append, ownersFrom, ownersFrom, List.foldl_cons, ih]
      split
      · rfl
      · rfl

theorem ownersFrom_sublist (ps : List Parameter) (rules : RuleSet) :
    (ownersFrom now ps rules).Sublist rules := by
  induction rules generalizing ps with
  | nil => exact List.Sublist.refl _
  | cons field rest ih =>
      rw [ownersFrom]
      split
      · exact (ih _).cons_cons field
      · exact (ih _).cons field

/-- A rule for the elements of an array that is there. -/
def Refines (ps : List Parameter) (field : String) : Prop :=
  ∃ name ∈ arrayName? field, ∃ p ∈ ps, IsArray name p

instance (ps : List Parameter) : DecidablePred (Refines ps) := fun field =>
  decidable_of_iff (∃ name ∈ (arrayName? field).toList, ∃ p ∈ ps, IsArray name p)
    (by simp only [Option.mem_toList, Refines, Option.mem_def])

theorem grows_iff (now : Moment) :
    ps.length < (addRule now ps field).length ↔ ¬ Refines ps field.field := by
  rcases addRule_cases now ps field with ⟨name, i, p, hname, hp, harray, -, heq⟩ | ⟨hnone, heq⟩
  · rw [heq, List.length_set]
    refine iff_of_false (Nat.lt_irrefl _) ?_
    exact not_not_intro ⟨name, hname, p, List.mem_of_getElem? hp, harray⟩
  · rw [heq, List.length_append, List.length_singleton]
    refine iff_of_true (Nat.lt_succ_self _) ?_
    rintro ⟨name, hname, p, hp, harray⟩
    exact hnone name hname p hp harray

/-- A rule has a parameter of its own, if it finds no array to describe in its turn. -/
theorem mem_owners_iff (hfields : (before ++ field :: after).Nodup) :
    field ∈ owners now (before ++ field :: after) ↔ ¬ Refines (draft now before) field.field := by
  obtain ⟨-, hafter, hapart⟩ := List.nodup_append'.mp hfields
  have hnotBefore : field ∉ ownersFrom now [] before := fun hmem =>
    hapart ((ownersFrom_sublist _ _).subset hmem) List.mem_cons_self
  rw [← grows_iff now, owners, ownersFrom_append, List.mem_append,
    or_iff_right hnotBefore, ownersFrom, ← draft]
  split
  · next hgrows => exact iff_of_true List.mem_cons_self hgrows
  · next hkept =>
      refine iff_of_false (fun hmem => ?_) hkept
      exact (List.nodup_cons.mp hafter).1 ((ownersFrom_sublist _ _).subset hmem)

/-! ## Parameters and their owners -/

/-- A parameter without the elements of its schema. -/
def bare (p : Parameter) : Parameter :=
  { p with schema := { p.schema with items := none } }

theorem bare_finish (p : Parameter) : bare (finish p) = bare p := by
  rw [finish]
  split <;> rfl

/-- But for elements, the parameters are those of their owners. -/
theorem map_bare_draft (now : Moment) (rules : RuleSet) :
    (draft now rules).map bare =
      (owners now rules).map fun field => bare (parameter now field) := by
  induction rules using List.reverseRecOn with
  | nil => rfl
  | append_singleton rules field ih =>
      have hdraft : draft now (rules ++ [field]) = addRule now (draft now rules) field :=
        draft_append rules [field]
      have howners : owners now (rules ++ [field]) =
          owners now rules ++ ownersFrom now (draft now rules) [field] :=
        ownersFrom_append [] rules [field]
      rw [hdraft, howners, List.map_append, ← ih, ownersFrom]
      rcases addRule_cases now (draft now rules) field with
        ⟨name, i, p, hname, hp, harray, -, heq⟩ | ⟨-, heq⟩
      · rw [heq, if_neg (by simp), ownersFrom, List.map_nil, List.append_nil]
        exact map_set_eq hp rfl
      · rw [heq, if_pos (by simp), ownersFrom, List.map_append]
        rfl

theorem map_bare_ofRules (now : Moment) (rules : RuleSet) :
    (ofRules now rules).map bare =
      (owners now rules).map fun field => bare (parameter now field) := by
  rw [← map_bare_draft, ofRules, List.map_map]
  exact congrArg (fun f => List.map f _) (funext bare_finish)

theorem length_owners (now : Moment) (rules : RuleSet) :
    (owners now rules).length = (draft now rules).length := by
  have hlength := congrArg List.length (map_bare_draft now rules)
  simpa using hlength.symm

/-! ## One parameter while rules are added -/

theorem isArray_congr {name : String} {p q : Parameter} (h : bare p = bare q) :
    IsArray name p ↔ IsArray name q := by
  have hbare : IsArray name (bare p) ↔ IsArray name (bare q) := by rw [h]
  exact hbare

/-- Parameters that are the same but for elements have the same arrays. -/
theorem exists_isArray_congr {qs : List Parameter} (h : ps.map bare = qs.map bare)
    {name : String} : (∃ p ∈ ps, IsArray name p) ↔ ∃ q ∈ qs, IsArray name q := by
  have hbare : ∀ rs : List Parameter,
      (∃ r ∈ rs, IsArray name r) ↔ ∃ b ∈ rs.map bare, IsArray name b := by
    intro rs
    constructor
    · rintro ⟨r, hr, harray⟩
      exact ⟨bare r, List.mem_map_of_mem hr, harray⟩
    · rintro ⟨_, hmem, harray⟩
      obtain ⟨r, hr, rfl⟩ := List.mem_map.mp hmem
      exact ⟨r, hr, harray⟩
  rw [hbare ps, hbare qs, h]

theorem length_le_addRule : ps.length ≤ (addRule now ps field).length := by
  rcases addRule_cases now ps field with ⟨_, _, _, -, -, -, -, heq⟩ | ⟨-, heq⟩
  · exact Nat.le_of_eq (by rw [heq, List.length_set])
  · rw [heq, List.length_append]
    exact Nat.le_add_right _ _

/-- Rules change nothing but elements in the parameters that are there. -/
theorem map_bare_take_foldl (rules : RuleSet) {i : Nat} (hi : i ≤ ps.length) :
    ((rules.foldl (addRule now) ps).take i).map bare = (ps.take i).map bare := by
  induction rules generalizing ps with
  | nil => rfl
  | cons field rest ih =>
      rw [List.foldl_cons, ih (Nat.le_trans hi length_le_addRule)]
      rcases addRule_cases now ps field with ⟨-, j, p, -, hp, -, -, heq⟩ | ⟨-, heq⟩
      · rw [heq, List.map_take, List.map_take, map_set_eq hp]
        rfl
      · rw [heq, List.take_append_of_le_length hi]

variable {i : Nat} {p : Parameter}

/-- A rule leaves a parameter that it does not refine, or not as the first one. -/
theorem getElem?_addRule (hp : ps[i]? = some p)
    (hkept : ∀ name ∈ arrayName? field.field, IsArray name p →
      ∃ q ∈ ps.take i, IsArray name q) : (addRule now ps field)[i]? = some p := by
  obtain ⟨hi, -⟩ := List.getElem?_eq_some_iff.mp hp
  rcases addRule_cases now ps field with ⟨name, j, q, hname, hq, harray, hfirst, heq⟩ | ⟨-, heq⟩
  · have hne : j ≠ i := by
      rintro rfl
      obtain rfl : q = p := Option.some.inj (hq.symm.trans hp)
      obtain ⟨earlier, hearlier, hisArray⟩ := hkept name hname harray
      exact hfirst earlier hearlier hisArray
    rw [heq, List.getElem?_set_ne hne, hp]
  · rw [heq, List.getElem?_append_left hi, hp]

theorem getElem?_foldl_addRule (hp : ps[i]? = some p)
    (hkept : ∀ field ∈ rules, ∀ name ∈ arrayName? field.field, IsArray name p →
      ∃ q ∈ ps.take i, IsArray name q) : (rules.foldl (addRule now) ps)[i]? = some p := by
  induction rules generalizing ps with
  | nil => exact hp
  | cons field rest ih =>
      obtain ⟨hfield, hrest⟩ := List.forall_mem_cons.mp hkept
      obtain ⟨hi, -⟩ := List.getElem?_eq_some_iff.mp hp
      rw [List.foldl_cons]
      refine ih (getElem?_addRule hp hfield) ?_
      intro other hother name hname harray
      have hsame : ((addRule now ps field).take i).map bare = (ps.take i).map bare :=
        map_bare_take_foldl [field] (Nat.le_of_lt hi)
      rw [exists_isArray_congr hsame]
      exact hrest other hother name hname harray

/-- A rule describes the elements of the first array that it refines. -/
theorem getElem?_addRule_of_first (now : Moment) {name : String} (hp : ps[i]? = some p)
    (hname : arrayName? field.field = some name) (harray : IsArray name p)
    (hfirst : ∀ q ∈ ps.take i, ¬ IsArray name q) :
    (addRule now ps field)[i]? =
      some (withItem p { field.schema now with description := none }) := by
  obtain ⟨hi, -⟩ := List.getElem?_eq_some_iff.mp hp
  rcases addRule_cases now ps field with ⟨other, j, q, hother, hq, hisArray, hbefore, heq⟩ |
    ⟨hnone, -⟩
  · obtain rfl : other = name := Option.some.inj (hother.symm.trans hname)
    have hsame : j = i := by
      rcases Nat.lt_trichotomy j i with hlt | heq | hgt
      · have hearlier : (ps.take i)[j]? = some q := (List.getElem?_take_of_lt hlt).trans hq
        exact absurd hisArray (hfirst q (List.mem_of_getElem? hearlier))
      · exact heq
      · have hearlier : (ps.take j)[i]? = some p := (List.getElem?_take_of_lt hgt).trans hp
        exact absurd harray (hbefore p (List.mem_of_getElem? hearlier))
    subst hsame
    obtain rfl : q = p := Option.some.inj (hq.symm.trans hp)
    rw [heq, List.getElem?_set_self hi]
  · exact absurd harray (hnone name hname p (List.mem_of_getElem? hp))

end ApiDoc.Query
