import ApiDoc.Proofs.Request.Mark
import ApiDoc.Proofs.Text
import Mathlib.Data.List.Induction

/-!
# Bodies under construction

The rules of a body are added one after another.  What one rule does to the node at a
path is said once, in `at?_addRules_cases`; from it follow, for every number of rules,
which paths lead to a node, what nodes look like, and which names are required there.  Where no
path goes on both to elements and to a property, no rule removes what another one made.
-/

namespace ApiDoc.Body

variable {now : Moment} {rules : RuleSet} {field : FieldRules}

/-! ## Paths of rules -/

/-- A rule leads on from a path with a segment. -/
def Continues (rules : RuleSet) (p : List String) (token : String) : Prop :=
  ∃ field ∈ rules, p ++ [token] <+: tokens field.field

/-- No path goes on both to elements and to a property. -/
def Unmixed (rules : RuleSet) : Prop :=
  ∀ p token, Continues rules p "*" → Continues rules p token → token = "*"

theorem tokens_ne_nil (field : String) : tokens field ≠ [] := by
  rw [tokens, ne_eq, List.map_eq_nil_iff]
  exact Text.splitOn_ne_nil _ _

theorem exists_tokens_eq_concat (field : String) : ∃ front token, tokens field = front ++ [token] :=
  (List.eq_nil_or_concat' _).resolve_left (tokens_ne_nil field)

theorem tokens_inj {field other : String} (h : tokens field = tokens other) : field = other := by
  have hcut : Text.splitOn '.' field.toList = Text.splitOn '.' other.toList :=
    List.map_injective_iff.mpr (fun _ _ => String.ofList_injective) h
  exact String.toList_inj.mp (Text.splitOn_inj hcut)

theorem Continues.mono {others : RuleSet} (hsub : ∀ field ∈ rules, field ∈ others)
    {p : List String} {token : String} (h : Continues rules p token) :
    Continues others p token := by
  obtain ⟨field, hfield, hpath⟩ := h
  exact ⟨field, hsub field hfield, hpath⟩

theorem Unmixed.mono {others : RuleSet} (h : Unmixed rules)
    (hsub : ∀ field ∈ others, field ∈ rules) : Unmixed others := fun p token hstar htoken =>
  h p token (hstar.mono hsub) (htoken.mono hsub)

theorem continues_of_append {p rest : List String} {token : String} (hfield : field ∈ rules)
    (hpath : tokens field.field = p ++ token :: rest) : Continues rules p token :=
  ⟨field, hfield, rest, by rw [hpath, List.append_assoc, List.singleton_append]⟩

/-- What goes on somewhere else than the last rule goes on without it. -/
theorem Continues.of_concat {p : List String} {token : String}
    (h : Continues (rules ++ [field]) p token) (hnot : ¬ p ++ [token] <+: tokens field.field) :
    Continues rules p token := by
  obtain ⟨other, hother, hpath⟩ := h
  rcases List.mem_append.mp hother with hmem | hmem
  · exact ⟨other, hmem, hpath⟩
  · exact absurd (List.mem_singleton.mp hmem ▸ hpath) hnot

/-- All segments that go on from a path ask for the same container. -/
theorem Unmixed.containerType_eq (h : Unmixed rules) {p : List String} {token other : String}
    (htoken : Continues rules p token) (hother : Continues rules p other) :
    containerType token = containerType other := by
  by_cases hstar : token = "*"
  · subst hstar
    rw [h p other htoken hother]
  · have hne : other ≠ "*" := fun heq => hstar (h p token (heq ▸ hother) htoken)
    rw [containerType_eq_object_iff.mpr hstar, containerType_eq_object_iff.mpr hne]

/-- Two paths part where one goes to elements and the other to a property. -/
def Clash : List String → List String → Prop
  | t :: p, u :: q => if t = u then Clash p q else t = "*" ∨ u = "*"
  | _, _ => False

theorem clash_cons_cons {t u : String} {p q : List String} :
    Clash (t :: p) (u :: q) ↔ (t = u ∧ Clash p q) ∨ (t ≠ u ∧ (t = "*" ∨ u = "*")) := by
  rw [Clash]
  by_cases hsame : t = u
  · simp [hsame]
  · simp [hsame]

theorem clash_iff {p q : List String} :
    Clash p q ↔ ∃ front t u, t ≠ u ∧ (t = "*" ∨ u = "*") ∧
      front ++ [t] <+: p ∧ front ++ [u] <+: q := by
  induction p generalizing q with
  | nil => simp [Clash]
  | cons t p ih =>
      cases q with
      | nil => simp [Clash]
      | cons u q =>
          rw [clash_cons_cons, ih]
          constructor
          · rintro (⟨rfl, front, v, w, hne, hstar, hp, hq⟩ | ⟨hne, hstar⟩)
            · exact ⟨t :: front, v, w, hne, hstar, List.cons_prefix_cons.mpr ⟨rfl, hp⟩,
                List.cons_prefix_cons.mpr ⟨rfl, hq⟩⟩
            · exact ⟨[], t, u, hne, hstar, List.cons_prefix_cons.mpr ⟨rfl, List.nil_prefix⟩,
                List.cons_prefix_cons.mpr ⟨rfl, List.nil_prefix⟩⟩
          · rintro ⟨front, v, w, hne, hstar, hp, hq⟩
            cases front with
            | nil =>
                obtain ⟨rfl, -⟩ := List.cons_prefix_cons.mp hp
                obtain ⟨rfl, -⟩ := List.cons_prefix_cons.mp hq
                exact .inr ⟨hne, hstar⟩
            | cons first front =>
                obtain ⟨rfl, hfront⟩ := List.cons_prefix_cons.mp hp
                obtain ⟨rfl, hother⟩ := List.cons_prefix_cons.mp hq
                exact .inl ⟨rfl, front, v, w, hne, hstar, hfront, hother⟩

theorem Removes.clash {path p : List String} (h : Removes path p) : Clash p path := by
  obtain ⟨front, token, hne, hpath, hp⟩ := h.displaces
  exact clash_iff.mpr ⟨front, "*", token, Ne.symm hne, .inl rfl, hp, hpath⟩

/-- A path of a rule, or a part of it, clashes with no rule. -/
theorem Unmixed.not_clash (h : Unmixed rules) {other : FieldRules} (hfield : field ∈ rules)
    (hother : other ∈ rules) {p : List String} (hp : p <+: tokens field.field) :
    ¬ Clash p (tokens other.field) := by
  intro hclash
  obtain ⟨front, t, u, hne, hstar, ht, hu⟩ := clash_iff.mp hclash
  have hleft : Continues rules front t := ⟨field, hfield, ht.trans hp⟩
  have hright : Continues rules front u := ⟨other, hother, hu⟩
  rcases hstar with rfl | rfl
  · exact hne (h front u hleft hright).symm
  · exact hne (h front t hright hleft)

theorem unmixed_iff : Unmixed rules ↔
    ∀ field ∈ rules, ∀ other ∈ rules, ¬ Clash (tokens field.field) (tokens other.field) := by
  constructor
  · intro h field hfield other hother
    exact h.not_clash hfield hother (List.prefix_refl _)
  · rintro h p token ⟨field, hfield, hp⟩ ⟨other, hother, hq⟩
    by_contra hne
    exact h field hfield other hother
      (clash_iff.mpr ⟨p, "*", token, Ne.symm hne, .inl rfl, hp, hq⟩)

instance decidableClash : (p q : List String) → Decidable (Clash p q)
  | [], _ => isFalse id
  | _ :: _, [] => isFalse id
  | _ :: p, _ :: q =>
      let _ := decidableClash p q
      decidable_of_iff _ clash_cons_cons.symm

instance : DecidablePred Unmixed := fun _ => decidable_of_iff _ unmixed_iff.symm

/-! ## One rule -/

/-- What a rule makes of a node, with what is left of its path. -/
def settle (now : Moment) (field : FieldRules) (rest : List String) (node : Schema) : Schema :=
  if field.isRequired then (markRequired rest (insert now field rest node)).1
  else insert now field rest node

theorem addRules_eq_settle (root : Schema) :
    addRules now root field = settle now field (tokens field.field) root := rfl

@[simp] theorem settle_nil (node : Schema) : settle now field [] node = node := by
  rw [settle, markRequired_nil, insert]
  exact ite_self node

@[simp] theorem plain_settle (rest : List String) (node : Schema) :
    (settle now field rest node).plain = node.plain := by
  rw [settle]
  split
  · rw [plain_markRequired, plain_insert]
  · exact plain_insert rest node

/-- A rule for the elements of a node leaves its properties and required names. -/
theorem settle_star (now : Moment) (field : FieldRules) (rest : List String) (node : Schema) :
    ∃ items, settle now field ("*" :: rest) node = { node with items := some items } := by
  have hinsert : ∃ items, insert now field ("*" :: rest) node =
      { node with items := some items } := by
    rw [insert, if_pos rfl]
    exact ⟨_, rfl⟩
  obtain ⟨items, hitems⟩ := hinsert
  rw [settle, hitems]
  split
  · rw [markRequired_star]
    cases items with
    | single item => exact ⟨_, rfl⟩
    | list slots =>
        cases slots with
        | nil => exact ⟨_, rfl⟩
        | cons slot slots => exact ⟨_, rfl⟩
  · exact ⟨items, rfl⟩

/-- A rule for a property of a node leaves its elements. -/
theorem settle_of_ne (now : Moment) (field : FieldRules) {token : String} (h : token ≠ "*")
    (rest : List String) (node : Schema) :
    ∃ properties required, settle now field (token :: rest) node =
      { node with properties := some properties, required := required } := by
  have hinsert : ∃ properties, insert now field (token :: rest) node =
      { node with properties := some properties } := by
    rw [insert, if_neg h]
    exact ⟨_, rfl⟩
  obtain ⟨properties, hproperties⟩ := hinsert
  rw [settle, hproperties]
  split
  · have hmark : ∃ marked, (markProperty token rest
        { node with properties := some properties }).1 =
          { node with properties := some marked } := by
      unfold markProperty
      split
      · exact ⟨properties, rfl⟩
      · split
        · exact ⟨_, rfl⟩
        · exact ⟨properties, rfl⟩
    obtain ⟨marked, hmarked⟩ := hmark
    rw [markRequired_of_ne h, hmarked]
    dsimp only
    split
    · exact ⟨marked, _, rfl⟩
    · exact ⟨marked, node.required, rfl⟩
  · exact ⟨properties, node.required, rfl⟩

/-- On its path a rule settles the node that it visited. -/
theorem at?_addRules_concat {front : List String} {token : String} {rest : List String}
    (hpath : tokens field.field = front ++ token :: rest) (root : Schema) :
    (addRules now root field).at? (front ++ [token]) =
      some (settle now field rest
        (visit now field token rest (root.at? (front ++ [token])))) := by
  have hsplit : front ++ token :: rest = (front ++ [token]) ++ rest := by simp
  rw [addRules_eq_settle, settle, settle, hpath]
  split
  · rw [hsplit, at?_markRequired_append, ← hsplit, at?_insert_concat, Option.map_some]
  · exact at?_insert_concat front token rest root

theorem at?_addRules_of_removes {p : List String} (h : Removes (tokens field.field) p)
    (root : Schema) : (addRules now root field).at? p = none := by
  rw [addRules_eq_settle, settle]
  split
  · rw [at?_markRequired_off_path h.not_isPrefix, at?_insert_of_removes h]
  · exact at?_insert_of_removes h root

/-- Beside its path a rule changes nothing but what it takes away. -/
theorem at?_addRules_of_not_removes {root : Schema} {p : List String}
    (hstart : ¬ p <+: tokens field.field) (h : ¬ Removes (tokens field.field) p) :
    (addRules now root field).at? p = root.at? p := by
  rw [addRules_eq_settle, settle]
  split
  · rw [at?_markRequired_off_path hstart, at?_insert_of_not_removes hstart h]
  · exact at?_insert_of_not_removes hstart h

/-- What is at a path after a rule: what was there beside its path, the root, and the
nodes that the rule visited. -/
theorem at?_addRules_cases {root node : Schema} {p : List String}
    (h : (addRules now root field).at? p = some node) :
    (¬ p <+: tokens field.field ∧ root.at? p = some node) ∨
      (p = [] ∧ node = settle now field (tokens field.field) root) ∨
      ∃ front token rest, p = front ++ [token] ∧ tokens field.field = p ++ rest ∧
        node = settle now field rest (visit now field token rest (root.at? p)) := by
  by_cases hstart : p <+: tokens field.field
  · obtain ⟨rest, hrest⟩ := hstart
    rcases List.eq_nil_or_concat' p with rfl | ⟨front, token, rfl⟩
    · exact .inr (.inl ⟨rfl, (Option.some.inj h).symm⟩)
    · have hpath : tokens field.field = front ++ token :: rest := by
        rw [← hrest, List.append_assoc, List.singleton_append]
      rw [at?_addRules_concat hpath] at h
      exact .inr (.inr ⟨front, token, rest, rfl, hrest.symm, (Option.some.inj h).symm⟩)
  · refine .inl ⟨hstart, ?_⟩
    rw [addRules_eq_settle, settle] at h
    split at h
    · rw [at?_markRequired_off_path hstart] at h
      exact at?_insert_imp hstart h
    · exact at?_insert_imp hstart h

/-! ## Nodes that are there -/

theorem draft_concat (rules : RuleSet) (field : FieldRules) :
    draft now (rules ++ [field]) = addRules now (draft now rules) field :=
  List.foldl_concat _ _ _ _

/-- Every node of a body stands on the path of a rule. -/
theorem exists_prefix_of_at?_draft {p : List String} {node : Schema}
    (h : (draft now rules).at? p = some node) :
    p = [] ∨ ∃ field ∈ rules, p <+: tokens field.field := by
  induction rules using List.reverseRecOn generalizing node with
  | nil =>
      cases p with
      | nil => exact .inl rfl
      | cons token rest =>
          have hnone : Schema.object.child? token = none := Schema.child?_eq_none rfl rfl token
          have hsome : (Schema.object.child? token).bind (Schema.at? rest) = some node := h
          rw [hnone] at hsome
          cases hsome
  | append_singleton rules field ih =>
      rw [draft_concat] at h
      rcases at?_addRules_cases h with ⟨-, hold⟩ | ⟨rfl, -⟩ | ⟨front, token, rest, rfl, hpath, -⟩
      · refine (ih hold).imp_right ?_
        rintro ⟨old, hmem, hstart⟩
        exact ⟨old, List.mem_append_left _ hmem, hstart⟩
      · exact .inl rfl
      · exact .inr ⟨field, List.mem_append_right _ List.mem_cons_self, rest, hpath.symm⟩

/-- Every part of the path of a rule leads to a node, and rules that come later keep it. -/
theorem exists_at?_draft (now : Moment) (hunmixed : Unmixed rules) {p : List String}
    (hfield : field ∈ rules) (hp : p <+: tokens field.field) :
    ∃ node, (draft now rules).at? p = some node := by
  induction rules using List.reverseRecOn with
  | nil => cases hfield
  | append_singleton rules last ih =>
      rw [draft_concat]
      by_cases hstart : p <+: tokens last.field
      · obtain ⟨rest, hrest⟩ := hstart
        rcases List.eq_nil_or_concat' p with rfl | ⟨front, token, rfl⟩
        · exact ⟨_, rfl⟩
        · have hpath : tokens last.field = front ++ token :: rest := by
            rw [← hrest, List.append_assoc, List.singleton_append]
          exact ⟨_, at?_addRules_concat hpath _⟩
      · have hold : field ∈ rules := by
          rcases List.mem_append.mp hfield with hold | hlast
          · exact hold
          · exact absurd (List.mem_singleton.mp hlast ▸ hp) hstart
        have hclash : ¬ Clash p (tokens last.field) :=
          hunmixed.not_clash hfield (List.mem_append_right _ List.mem_cons_self) hp
        rw [at?_addRules_of_not_removes hstart (mt Removes.clash hclash)]
        exact ih (hunmixed.mono fun f hf => List.mem_append_left _ hf) hold

/-- Where no path is mixed, the nodes of a body are the parts of the paths of its rules. -/
theorem exists_at?_draft_iff (hunmixed : Unmixed rules) {p : List String} :
    (∃ node, (draft now rules).at? p = some node) ↔
      p = [] ∨ ∃ field ∈ rules, p <+: tokens field.field := by
  constructor
  · rintro ⟨node, hnode⟩
    exact exists_prefix_of_at?_draft hnode
  · rintro (rfl | ⟨field, hfield, hp⟩)
    · exact ⟨_, rfl⟩
    · exact exists_at?_draft now hunmixed hfield hp

end ApiDoc.Body
