import ApiDoc.Proofs.Request.Visit

/-!
# The marks of a required field

Marking a field goes down its path and changes nothing but required names.  The nodes on
the way get the name of the next segment, if no star stands in the rest of the path.
-/

namespace ApiDoc.Body

theorem onElement_self (s : Schema) : onElement (fun e => e) s = s := by
  unfold onElement
  split
  · next hitems =>
      rw [← hitems]
      cases s
      rfl
  · next hitems =>
      rw [← hitems]
      cases s
      rfl
  · rfl

theorem item?_onElement (f : Schema → Schema) (s : Schema) :
    (onElement f s).item? = s.item?.map f := by
  unfold onElement Schema.item?
  cases hitems : s.items with
  | none => simp [hitems]
  | some items =>
      cases items with
      | single item => rfl
      | list slots => cases slots <;> simp [hitems]

theorem markRequired_nil (s : Schema) : markRequired [] s = (s, false) := by
  rw [markRequired]

/-- Behind a star the marks stay below the elements. -/
theorem markRequired_star (rest : List String) (s : Schema) :
    markRequired ("*" :: rest) s = (onElement (fun e => (markRequired rest e).1) s, false) := by
  rw [markRequired, if_pos rfl]
  cases rest with
  | nil =>
      simp only [List.isEmpty_nil, if_true, markRequired_nil]
      rw [onElement_self]
  | cons next more => rfl

/-- Mark the rest of a path below one property, with the flag for the object that holds
the property. -/
def markProperty (token : String) (rest : List String) (s : Schema) : Schema × Bool :=
  if rest.isEmpty then (s, true)
  else
    match Dict.find? (s.properties.getD []) token with
    | some child =>
        ({ s with
            properties := some
              (Dict.insert (s.properties.getD []) token (markRequired rest child).1) },
          (markRequired rest child).2)
    | none => (s, false)

theorem markRequired_of_ne {token : String} (h : token ≠ "*") (rest : List String)
    (s : Schema) :
    markRequired (token :: rest) s =
      (if (markProperty token rest s).2 then (markProperty token rest s).1.markRequired token
        else (markProperty token rest s).1, (markProperty token rest s).2) := by
  rw [markRequired, if_neg h]
  rfl

theorem child?_markProperty {token : String} (h : token ≠ "*") (rest : List String)
    (s : Schema) (other : String) :
    (markProperty token rest s).1.child? other =
      if other = token then (s.child? token).map fun c => (markRequired rest c).1
      else s.child? other := by
  rw [markProperty]
  cases rest with
  | nil =>
      by_cases hsame : other = token
      · subst hsame
        have hidle : (fun c => (markRequired [] c).1) = id :=
          funext fun c => congrArg Prod.fst (markRequired_nil c)
        rw [if_pos List.isEmpty_nil, if_pos rfl, hidle, Option.map_id_fun, id]
      · rw [if_neg hsame]
        rfl
  | cons next more =>
      rw [if_neg (by simp), Schema.child?_of_ne s h]
      cases hchild : Dict.find? (s.properties.getD []) token with
      | none =>
          by_cases hsame : other = token
          · rw [if_pos hsame, hsame, Schema.child?_of_ne s h, hchild]
            rfl
          · rw [if_neg hsame]
      | some child =>
          by_cases hstar : other = "*"
          · rw [if_neg (hstar ▸ Ne.symm h), hstar, Schema.child?_star, Schema.child?_star]
            rfl
          · rw [Schema.child?_of_ne _ hstar, Schema.child?_of_ne _ hstar]
            simp only [Option.getD_some, Dict.find?_insert, eq_comm, Option.map_some]

theorem child?_mark (s : Schema) (name token : String) :
    (s.markRequired name).child? token = s.child? token := rfl

/-- A mark goes down the first segment of its path, and leaves the others. -/
theorem child?_markRequired (token : String) (rest : List String) (s : Schema)
    (other : String) :
    (markRequired (token :: rest) s).1.child? other =
      if other = token then (s.child? token).map fun c => (markRequired rest c).1
      else s.child? other := by
  by_cases hstar : token = "*"
  · subst hstar
    rw [markRequired_star]
    by_cases hother : other = "*"
    · rw [if_pos hother, hother, Schema.child?_star, Schema.child?_star, item?_onElement]
    · rw [if_neg hother, Schema.child?_of_ne _ hother, Schema.child?_of_ne _ hother]
      unfold onElement
      split <;> rfl
  · rw [markRequired_of_ne hstar, ← child?_markProperty hstar]
    dsimp only
    split
    · exact child?_mark _ _ _
    · rfl

/-- On its path a mark goes through the nodes with what is left of the path. -/
theorem at?_markRequired_append (p rest : List String) (s : Schema) :
    (markRequired (p ++ rest) s).1.at? p =
      (s.at? p).map fun node => (markRequired rest node).1 := by
  induction p generalizing s with
  | nil => rfl
  | cons token p ih =>
      rw [List.cons_append, Schema.at?_cons, Schema.at?_cons, child?_markRequired, if_pos rfl]
      cases s.child? token with
      | none => rfl
      | some child => exact ih child

theorem at?_markRequired_off_path {p path : List String} {s : Schema}
    (h : ¬ p <+: path) : (markRequired path s).1.at? p = s.at? p := by
  induction path generalizing p s with
  | nil => rw [markRequired_nil]
  | cons token rest ih =>
      cases p with
      | nil => exact absurd List.nil_prefix h
      | cons other more =>
          rw [Schema.at?_cons, Schema.at?_cons, child?_markRequired]
          by_cases hsame : other = token
          · subst hsame
            have hmore : ¬ more <+: rest := fun hstart =>
              h (List.cons_prefix_cons.mpr ⟨rfl, hstart⟩)
            rw [if_pos rfl]
            cases s.child? other with
            | none => rfl
            | some child => exact ih hmore
          · rw [if_neg hsame]

@[simp] theorem plain_markRequired (path : List String) (s : Schema) :
    (markRequired path s).1.plain = s.plain := by
  cases path with
  | nil => rw [markRequired_nil]
  | cons token rest =>
      by_cases hstar : token = "*"
      · subst hstar
        rw [markRequired_star]
        unfold onElement
        split <;> rfl
      · have hproperty : (markProperty token rest s).1.plain = s.plain := by
          unfold markProperty
          split
          · rfl
          · split <;> rfl
        rw [markRequired_of_ne hstar, ← hproperty]
        dsimp only
        split <;> rfl

/-- A mark goes on to the object above, exactly if no star is on the way. -/
theorem markRequired_snd {path : List String} {s node : Schema} (h : s.at? path = some node) :
    (markRequired path s).2 = true ↔ path ≠ [] ∧ "*" ∉ path := by
  induction path generalizing s with
  | nil => simp [markRequired_nil]
  | cons token rest ih =>
      by_cases hstar : token = "*"
      · subst hstar
        simp [markRequired_star]
      · rw [markRequired_of_ne hstar]
        cases rest with
        | nil => simp [markProperty, Ne.symm hstar]
        | cons next more =>
            obtain ⟨child, hchild, hrest⟩ := Option.bind_eq_some_iff.mp h
            have hflag : (markProperty token (next :: more) s).2 =
                (markRequired (next :: more) child).2 := by
              rw [Schema.child?_of_ne s hstar] at hchild
              rw [markProperty, if_neg (by simp), hchild]
            simpa [hflag, Ne.symm hstar] using ih hrest

/-- A node gets the name of the next segment, if the mark goes on there. -/
theorem required_markRequired {token : String} {rest : List String} {s node : Schema}
    (h : s.at? (token :: rest) = some node) :
    (markRequired (token :: rest) s).1.required =
      if "*" ∈ token :: rest then s.required else (s.markRequired token).required := by
  have hflag := markRequired_snd h
  by_cases hstar : token = "*"
  · subst hstar
    rw [if_pos List.mem_cons_self, markRequired_star]
    unfold onElement
    split <;> rfl
  · have hkeep : (markProperty token rest s).1.required = s.required := by
      unfold markProperty
      split
      · rfl
      · split <;> rfl
    rw [markRequired_of_ne hstar] at hflag ⊢
    dsimp only at hflag ⊢
    by_cases hmember : "*" ∈ token :: rest
    · have hfalse : ¬ (markProperty token rest s).2 = true := fun htrue =>
        (hflag.mp htrue).2 hmember
      rw [if_pos hmember, if_neg hfalse, hkeep]
    · have htrue : (markProperty token rest s).2 = true :=
        hflag.mpr ⟨List.cons_ne_nil _ _, hmember⟩
      rw [if_neg hmember, if_pos htrue, Schema.markRequired, Schema.markRequired, hkeep]

end ApiDoc.Body
