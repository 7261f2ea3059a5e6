import ApiDoc.Proofs.Rule.Reader
import ApiDoc.Proofs.Schema.Path
import ApiDoc.Request.Body

/-!
# The way of a rule through a body

A rule goes down the path of its field.  Every node that it passes is made or changes its
type, and all nodes beside the path stay as they are, but for one thing: a node that
becomes an object loses its elements.
-/

namespace ApiDoc

/-- A schema without properties, elements and required names. -/
def Schema.plain (s : Schema) : Schema :=
  { s with properties := none, items := none, required := none }

namespace Body

variable {now : Moment} {rules : FieldRules}

/-! ## Nodes on the path -/

/-- The node for the next segment when a rule comes to it, before the rest of the path is
added below it. -/
def visit (now : Moment) (rules : FieldRules) (token : String) (rest : List String) :
    Option Schema → Schema
  | none => newNode now rest rules
  | some s =>
      if token ≠ "*" ∧ rest = [] ∧ isPopulated s = true then s
      else upgrade s (nodeType rest rules)

theorem propertyNode_eq_visit {token : String} (h : token ≠ "*") (rest : List String)
    (property : Option Schema) :
    propertyNode now rest rules property = visit now rules token rest property := by
  cases property with
  | none => rfl
  | some s => simp [propertyNode, visit, h]

theorem elementSlot_fst (rest : List String) (s : Schema) :
    (elementSlot now rest rules s.items).1 = visit now rules "*" rest s.item? := by
  rw [Schema.item?]
  cases s.items with
  | none => rfl
  | some items =>
      cases items with
      | single item => rfl
      | list slots => cases slots <;> rfl

theorem item?_elementSlot_snd (rest : List String) (s node : Schema) :
    Schema.item? { s with items := some ((elementSlot now rest rules s.items).2 node) } =
      some node := by
  cases s.items with
  | none => rfl
  | some items =>
      cases items with
      | single item => rfl
      | list slots => cases slots <;> rfl

/-- A rule leads the first segment of its path to the node it visited, and leaves the
others. -/
theorem child?_insert (token : String) (rest : List String) (s : Schema) (other : String) :
    (insert now rules (token :: rest) s).child? other =
      if other = token then
        some (insert now rules rest (visit now rules token rest (s.child? token)))
      else s.child? other := by
  rw [insert]
  by_cases hstar : token = "*"
  · subst hstar
    rw [if_pos rfl]
    by_cases hother : other = "*"
    · subst hother
      rw [if_pos rfl, Schema.child?_star, Schema.child?_star, ← elementSlot_fst]
      exact item?_elementSlot_snd rest s _
    · rw [if_neg hother, Schema.child?_of_ne _ hother, Schema.child?_of_ne _ hother]
  · rw [if_neg hstar]
    by_cases hother : other = "*"
    · subst hother
      rw [if_neg (Ne.symm hstar), Schema.child?_star, Schema.child?_star]
      rfl
    · rw [Schema.child?_of_ne _ hother, Schema.child?_of_ne _ hstar, Schema.child?_of_ne _ hother,
        ← propertyNode_eq_visit hstar]
      simp only [Option.getD_some, Dict.find?_insert, eq_comm]

theorem insert_eq (path : List String) (s : Schema) :
    insert now rules path s =
      { s with
        properties := (insert now rules path s).properties
        items := (insert now rules path s).items } := by
  cases path with
  | nil =>
      rw [insert]
      cases s
      rfl
  | cons token rest =>
      rw [insert]
      split <;> rfl

@[simp] theorem plain_insert (path : List String) (s : Schema) :
    (insert now rules path s).plain = s.plain := by
  rw [insert_eq]
  rfl

@[simp] theorem required_insert (path : List String) (s : Schema) :
    (insert now rules path s).required = s.required := by
  rw [insert_eq]

/-! ## Visited nodes -/

theorem child?_ensureContainer (s : Schema) (token : String) :
    (ensureContainer s).child? token = s.child? token := by
  rw [ensureContainer]
  split
  · next harray =>
      have hitems : s.items = none := by simpa using (Bool.and_eq_true_iff.mp harray).2
      by_cases hstar : token = "*"
      · simp [hstar, Schema.child?_star, Schema.item?, hitems]
      · rw [Schema.child?_of_ne _ hstar, Schema.child?_of_ne _ hstar]
  · split
    · next hobject =>
        have hproperties : s.properties = none := by
          simpa using (Bool.and_eq_true_iff.mp hobject).2
        by_cases hstar : token = "*"
        · rw [hstar, Schema.child?_star, Schema.child?_star]
          rfl
        · simp [Schema.child?_of_ne _ hstar, hproperties]
    · rfl

/-- A change of the type keeps what is below, but an object has no elements. -/
theorem child?_upgrade {s : Schema} {type token : String} (h : type = "object" → token ≠ "*") :
    (upgrade s type).child? token = s.child? token := by
  rw [upgrade, child?_ensureContainer]
  split
  · next hobject =>
      rw [Schema.child?_of_ne _ (h hobject), Schema.child?_of_ne _ (h hobject)]
  · rfl

theorem child?_upgrade_object (s : Schema) : (upgrade s "object").child? "*" = none := by
  rw [upgrade, child?_ensureContainer, if_pos rfl, Schema.child?_star]
  rfl

theorem child?_newNode (rest : List String) (token : String) :
    (newNode now rest rules).child? token = none := by
  cases rest with
  | nil =>
      refine Schema.child?_eq_none rfl ?_ token
      rw [newNode, Schema.item?, FieldRules.schema]
      by_cases harray : rules.schemaType = "array" <;> simp [harray]
  | cons next more =>
      rw [newNode, child?_ensureContainer]
      exact Schema.child?_eq_none rfl rfl token

theorem containerType_eq_object_iff {next : String} :
    containerType next = "object" ↔ next ≠ "*" := by
  by_cases hstar : next = "*"
  · simp [containerType, hstar]
  · simp [containerType, hstar]

/-- A visit keeps what is below, unless it goes on to a property and leaves elements. -/
theorem child?_visit {token other : String} {rest : List String} {node : Option Schema}
    (h : other = "*" → ∀ next ∈ rest.head?, next = "*") :
    (visit now rules token rest node).child? other = node.bind (·.child? other) := by
  cases node with
  | none => exact child?_newNode rest other
  | some s =>
      rw [visit, Option.bind_some]
      split
      · rfl
      · apply child?_upgrade
        intro hobject hstar
        cases rest with
        | nil => exact rules.schemaType_ne_object hobject
        | cons next more =>
            exact containerType_eq_object_iff.mp hobject (h hstar next rfl)

/-- A node from which a rule goes on to a property has no elements. -/
theorem child?_visit_star {token next : String} (h : next ≠ "*") (more : List String)
    (node : Option Schema) :
    (visit now rules token (next :: more) node).child? "*" = none := by
  cases node with
  | none => exact child?_newNode _ _
  | some s =>
      have hvisit : visit now rules token (next :: more) (some s) = upgrade s "object" := by
        rw [visit, if_neg (by simp), nodeType, containerType_eq_object_iff.mpr h]
      rw [hvisit, child?_upgrade_object]

/-- A visit adds nothing but the next segment. -/
theorem child?_visit_imp {token other : String} {rest : List String} {node : Option Schema}
    {child : Schema} (h : (visit now rules token rest node).child? other = some child) :
    node.bind (·.child? other) = some child := by
  by_cases hkeeps : other = "*" → ∀ next ∈ rest.head?, next = "*"
  · rwa [child?_visit hkeeps] at h
  · -- The node became an object, and an object has no elements.
    simp only [not_forall, exists_prop] at hkeeps
    obtain ⟨rfl, next, hnext, hne⟩ := hkeeps
    obtain ⟨more, rfl⟩ : ∃ more, rest = next :: more := by
      cases rest with
      | nil => cases hnext
      | cons first more => exact ⟨more, by rw [Option.some.inj hnext]⟩
    rw [child?_visit_star hne] at h
    cases h

/-! ## Nodes that a rule takes away -/

/-- A path goes on to a property where the path of a node goes to elements. -/
def Displaces (path p : List String) : Prop :=
  ∃ front token, token ≠ "*" ∧ front ++ [token] <+: path ∧ front ++ ["*"] <+: p

/-- A rule takes a node away: its path displaces elements below a node that it passes.  The
body itself keeps its elements. -/
def Removes (path p : List String) : Prop :=
  ∃ name rest more, path = name :: rest ∧ p = name :: more ∧ Displaces rest more

theorem displaces_cons_cons {u t : String} {path p : List String} :
    Displaces (u :: path) (t :: p) ↔ (u = t ∧ Displaces path p) ∨ (u ≠ "*" ∧ t = "*") := by
  constructor
  · rintro ⟨front, token, hne, hpath, hp⟩
    cases front with
    | nil =>
        obtain ⟨rfl, -⟩ := List.cons_prefix_cons.mp hpath
        obtain ⟨rfl, -⟩ := List.cons_prefix_cons.mp hp
        exact .inr ⟨hne, rfl⟩
    | cons first front =>
        obtain ⟨rfl, hrest⟩ := List.cons_prefix_cons.mp hpath
        obtain ⟨rfl, hmore⟩ := List.cons_prefix_cons.mp hp
        exact .inl ⟨rfl, front, token, hne, hrest, hmore⟩
  · rintro (⟨rfl, front, token, hne, hpath, hp⟩ | ⟨hne, rfl⟩)
    · refine ⟨u :: front, token, hne, ?_, ?_⟩
      · exact List.cons_prefix_cons.mpr ⟨rfl, hpath⟩
      · exact List.cons_prefix_cons.mpr ⟨rfl, hp⟩
    · refine ⟨[], u, hne, ?_, ?_⟩
      · exact List.cons_prefix_cons.mpr ⟨rfl, List.nil_prefix⟩
      · exact List.cons_prefix_cons.mpr ⟨rfl, List.nil_prefix⟩

section Displaces

variable {path p : List String}

theorem Displaces.ne_nil (h : Displaces path p) : path ≠ [] ∧ p ≠ [] := by
  obtain ⟨front, token, -, hpath, hp⟩ := h
  constructor
  · exact hpath.ne_nil (by simp)
  · exact hp.ne_nil (by simp)

/-- A path displaces nothing on its own way. -/
theorem Displaces.not_isPrefix (h : Displaces path p) : ¬ p <+: path := by
  obtain ⟨front, token, hne, hpath, hp⟩ := h
  intro hstart
  have hlength : (front ++ [token]).length = (front ++ ["*"]).length := by simp
  have hsame : front ++ [token] = front ++ ["*"] :=
    (List.prefix_of_prefix_length_le hpath (hp.trans hstart) hlength.le).eq_of_length hlength
  exact hne (List.singleton_inj.mp (List.append_cancel_left hsame))

theorem Removes.displaces (h : Removes path p) : Displaces path p := by
  obtain ⟨name, rest, more, rfl, rfl, hbelow⟩ := h
  exact displaces_cons_cons.mpr (.inl ⟨rfl, hbelow⟩)

theorem Removes.not_isPrefix (h : Removes path p) : ¬ p <+: path :=
  h.displaces.not_isPrefix

end Displaces

/-! ## Paths after a rule -/

/-- Below a visited node a path leads where it led, unless the rest displaces it. -/
theorem at?_visit {token : String} {rest p : List String} {node : Option Schema} (hp : p ≠ [])
    (h : ¬ Displaces rest p) :
    (visit now rules token rest node).at? p = node.bind (·.at? p) := by
  cases p with
  | nil => exact absurd rfl hp
  | cons other more =>
      have hkeeps : other = "*" → ∀ next ∈ rest.head?, next = "*" := by
        rintro rfl next hnext
        obtain ⟨tail, rfl⟩ := List.head?_eq_some_iff.mp hnext
        by_contra hne
        exact h (displaces_cons_cons.mpr (.inr ⟨hne, rfl⟩))
      rw [Schema.at?_cons, child?_visit hkeeps]
      cases node <;> rfl

/-- On its path a rule leads to the node that it visited. -/
theorem at?_insert_concat (p : List String) (token : String) (rest : List String) (s : Schema) :
    (insert now rules (p ++ token :: rest) s).at? (p ++ [token]) =
      some (insert now rules rest (visit now rules token rest (s.at? (p ++ [token])))) := by
  induction p generalizing s with
  | nil =>
      rw [List.nil_append, List.nil_append, Schema.at?_cons, Schema.at?_cons, child?_insert,
        if_pos rfl]
      cases s.child? token <;> rfl
  | cons first p ih =>
      have hthrough : p ++ [token] <+: p ++ token :: rest := ⟨rest, by simp⟩
      rw [List.cons_append, List.cons_append, Schema.at?_cons, child?_insert, if_pos rfl,
        Option.bind_some, ih, at?_visit (by simp) fun h => h.not_isPrefix hthrough]
      rfl

/-- Below a visited node nothing is left of the elements that the rest of the path
displaces. -/
theorem at?_insert_visit_of_displaces {path p : List String} (h : Displaces path p)
    (token : String) (node : Option Schema) :
    (insert now rules path (visit now rules token path node)).at? p = none := by
  induction path generalizing p token node with
  | nil => exact absurd rfl h.ne_nil.1
  | cons u path ih =>
      cases p with
      | nil => exact absurd rfl h.ne_nil.2
      | cons t p =>
          rw [Schema.at?_cons, child?_insert]
          rcases displaces_cons_cons.mp h with ⟨rfl, hbelow⟩ | ⟨hne, rfl⟩
          · rw [if_pos rfl]
            exact ih hbelow u _
          · rw [if_neg (Ne.symm hne), child?_visit_star hne]
            rfl

theorem at?_insert_of_removes {path p : List String} (h : Removes path p) (s : Schema) :
    (insert now rules path s).at? p = none := by
  obtain ⟨name, rest, more, rfl, rfl, hbelow⟩ := h
  rw [Schema.at?_cons, child?_insert, if_pos rfl]
  exact at?_insert_visit_of_displaces hbelow name _

/-- Beside its path a rule leaves what it does not take away. -/
theorem at?_insert_of_not_removes {path p : List String} {s : Schema} (hstart : ¬ p <+: path)
    (h : ¬ Removes path p) : (insert now rules path s).at? p = s.at? p := by
  induction path generalizing p s with
  | nil => rw [insert]
  | cons token rest ih =>
      cases p with
      | nil => exact absurd List.nil_prefix hstart
      | cons other more =>
          rw [Schema.at?_cons, child?_insert]
          by_cases hsame : other = token
          · subst hsame
            have hmore : ¬ more <+: rest := fun hlonger =>
              hstart (List.cons_prefix_cons.mpr ⟨rfl, hlonger⟩)
            have hstays : ¬ Displaces rest more := fun hbelow =>
              h ⟨other, rest, more, rfl, rfl, hbelow⟩
            have hne : more ≠ [] := fun hnil => hmore (hnil ▸ List.nil_prefix)
            rw [if_pos rfl, Option.bind_some, ih hmore fun hremoves => hstays hremoves.displaces,
              at?_visit hne hstays]
            rfl
          · rw [if_neg hsame]
            rfl

/-- Beside its path a rule adds nothing. -/
theorem at?_insert_imp {p path : List String} {s node : Schema} (hstart : ¬ p <+: path)
    (h : (insert now rules path s).at? p = some node) : s.at? p = some node := by
  induction path generalizing p s with
  | nil => rwa [insert] at h
  | cons token rest ih =>
      cases p with
      | nil => exact absurd List.nil_prefix hstart
      | cons other more =>
          rw [Schema.at?_cons, child?_insert] at h
          by_cases hsame : other = token
          · subst hsame
            have hmore : ¬ more <+: rest := fun h =>
              hstart (List.cons_prefix_cons.mpr ⟨rfl, h⟩)
            rw [if_pos rfl, Option.bind_some] at h
            have hvisited := ih hmore h
            cases more with
            | nil => exact absurd List.nil_prefix hmore
            | cons next tail =>
                obtain ⟨child, hchild, htail⟩ := Option.bind_eq_some_iff.mp hvisited
                obtain ⟨old, hold, hnext⟩ :=
                  Option.bind_eq_some_iff.mp (child?_visit_imp hchild)
                rw [Schema.at?_cons, hold, Option.bind_some, Schema.at?_cons, hnext]
                exact htail
          · rwa [if_neg hsame] at h

end Body

end ApiDoc
