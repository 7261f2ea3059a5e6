import ApiDoc.Proofs.Request.Query
import ApiDoc.Proofs.Rule.Reader
import ApiDoc.Proofs.Text
import Mathlib.Data.List.Induction
import Mathlib.Data.List.Nodup

/-!
# Names in brackets

A dotted name is written in a query with brackets around its later segments.  Names
without brackets and empty segments can be read back from it, so rules of different
fields give parameters of different names.
-/

namespace ApiDoc.Query

/-- A dotted name without square brackets and without an empty segment. -/
def IsPlain (field : String) : Prop :=
  '[' ∉ field.toList ∧ ']' ∉ field.toList ∧ [] ∉ Text.splitOn '.' field.toList

instance : DecidablePred IsPlain := fun field =>
  inferInstanceAs (Decidable
    ('[' ∉ field.toList ∧ ']' ∉ field.toList ∧ [] ∉ Text.splitOn '.' field.toList))

/-- What stands between the brackets of a segment. -/
def bracketBody (segment : List Char) : List Char :=
  if segment = ['*'] then [] else segment

theorem bracketed_eq (segment : List Char) :
    bracketed segment = '[' :: bracketBody segment ++ [']'] := by
  by_cases hstar : segment = ['*']
  · simp [bracketed, bracketBody, hstar]
  · simp [bracketed, bracketBody, hstar]

theorem bracketBody_inj {s t : List Char} (hs : s ≠ []) (ht : t ≠ [])
    (h : bracketBody s = bracketBody t) : s = t := by
  by_cases hstar : s = ['*']
  · by_cases hother : t = ['*']
    · rw [hstar, hother]
    · rw [bracketBody, if_pos hstar, bracketBody, if_neg hother] at h
      exact absurd h.symm ht
  · by_cases hother : t = ['*']
    · rw [bracketBody, if_neg hstar, bracketBody, if_pos hother] at h
      exact absurd h hs
    · rwa [bracketBody, if_neg hstar, bracketBody, if_neg hother] at h

/-- A segment that is not empty and has no brackets. -/
def IsSegment (segment : List Char) : Prop :=
  segment ≠ [] ∧ '[' ∉ segment ∧ ']' ∉ segment

theorem IsSegment.not_mem_bracketBody {segment : List Char} (h : IsSegment segment) :
    ']' ∉ bracketBody segment := by
  by_cases hstar : segment = ['*']
  · simp [bracketBody, hstar]
  · rw [bracketBody, if_neg hstar]
    exact h.2.2

theorem flatMap_bracketed_inj {xs ys : List (List Char)} (hxs : ∀ s ∈ xs, IsSegment s)
    (hys : ∀ s ∈ ys, IsSegment s) (h : xs.flatMap bracketed = ys.flatMap bracketed) :
    xs = ys := by
  induction xs generalizing ys with
  | nil =>
      cases ys with
      | nil => rfl
      | cons t ys => simp [bracketed_eq] at h
  | cons s xs ih =>
      cases ys with
      | nil => simp [bracketed_eq] at h
      | cons t ys =>
          obtain ⟨hs, hxs⟩ := List.forall_mem_cons.mp hxs
          obtain ⟨ht, hys⟩ := List.forall_mem_cons.mp hys
          have hclosed : bracketBody s ++ ']' :: xs.flatMap bracketed =
              bracketBody t ++ ']' :: ys.flatMap bracketed := by
            simpa [bracketed_eq] using h
          obtain ⟨hbody, hrest⟩ := Text.append_cons_inj_of_not_mem hs.not_mem_bracketBody
            ht.not_mem_bracketBody hclosed
          rw [bracketBody_inj hs.1 ht.1 hbody, ih hxs hys hrest]

/-- The first bracket ends the first segment. -/
theorem append_flatMap_bracketed_inj {s t : List Char} {xs ys : List (List Char)}
    (hs : '[' ∉ s) (ht : '[' ∉ t)
    (h : s ++ xs.flatMap bracketed = t ++ ys.flatMap bracketed) :
    s = t ∧ xs.flatMap bracketed = ys.flatMap bracketed := by
  cases xs with
  | nil =>
      cases ys with
      | nil =>
          have hsame : s = t := by simpa using h
          exact ⟨hsame, rfl⟩
      | cons y ys =>
          have hmem : '[' ∈ s := by
            have hall : s = t ++ (y :: ys).flatMap bracketed := by simpa using h
            rw [hall]
            simp [bracketed_eq]
          exact absurd hmem hs
  | cons x xs =>
      cases ys with
      | nil =>
          have hmem : '[' ∈ t := by
            have hall : s ++ (x :: xs).flatMap bracketed = t := by simpa using h
            rw [← hall]
            simp [bracketed_eq]
          exact absurd hmem ht
      | cons y ys =>
          have hopened : s ++ '[' :: (bracketBody x ++ ']' :: xs.flatMap bracketed) =
              t ++ '[' :: (bracketBody y ++ ']' :: ys.flatMap bracketed) := by
            simpa [bracketed_eq] using h
          obtain ⟨hsame, hrest⟩ := Text.append_cons_inj_of_not_mem hs ht hopened
          exact ⟨hsame, by simpa [bracketed_eq] using hrest⟩

theorem IsPlain.isSegment {field : String} (h : IsPlain field) :
    ∀ s ∈ Text.splitOn '.' field.toList, IsSegment s := by
  intro s hs
  have hsub := Text.subset_of_mem_splitOn hs
  refine ⟨?_, fun hopen => h.1 (hsub hopen), fun hclose => h.2.1 (hsub hclose)⟩
  intro hempty
  exact h.2.2 (hempty ▸ hs)

/-- Plain names with the same name in brackets are the same. -/
theorem bracketName_inj {f g : String} (hf : IsPlain f) (hg : IsPlain g)
    (h : bracketName f = bracketName g) : f = g := by
  have hcut : Text.splitOn '.' f.toList = Text.splitOn '.' g.toList := by
    have hsegments := hf.isSegment
    have hothers := hg.isSegment
    unfold bracketName at h
    cases hxs : Text.splitOn '.' f.toList with
    | nil => exact absurd hxs (Text.splitOn_ne_nil _ _)
    | cons s xs =>
        cases hys : Text.splitOn '.' g.toList with
        | nil => exact absurd hys (Text.splitOn_ne_nil _ _)
        | cons t ys =>
            rw [hxs] at h hsegments
            rw [hys] at h hothers
            obtain ⟨hs, hxs⟩ := List.forall_mem_cons.mp hsegments
            obtain ⟨ht, hys⟩ := List.forall_mem_cons.mp hothers
            obtain ⟨hsame, hrest⟩ :=
              append_flatMap_bracketed_inj hs.2.1 ht.2.1 (String.ofList_injective h)
            rw [hsame, flatMap_bracketed_inj hxs hys hrest]
  exact String.toList_inj.mp (Text.splitOn_inj hcut)

theorem bracketName_of_not_mem {field : String} (h : '.' ∉ field.toList) :
    bracketName field = field := by
  rw [bracketName, Text.splitOn_of_not_mem h]
  simp

/-- A name in brackets has no dot. -/
theorem not_mem_bracketName (field : String) : '.' ∉ (bracketName field).toList := by
  have hpieces : ∀ piece ∈ Text.splitOn '.' field.toList, '.' ∉ piece :=
    fun piece hpiece => Text.not_mem_of_mem_splitOn hpiece
  rw [bracketName]
  cases hcut : Text.splitOn '.' field.toList with
  | nil => exact absurd hcut (Text.splitOn_ne_nil _ _)
  | cons first rest =>
      rw [hcut] at hpieces
      obtain ⟨hfirst, hrest⟩ := List.forall_mem_cons.mp hpieces
      dsimp only
      rw [String.toList_ofList, List.mem_append, not_or, List.mem_flatMap]
      refine ⟨hfirst, ?_⟩
      rintro ⟨piece, hpiece, hmem⟩
      have hbody : '.' ∉ bracketBody piece := by
        rw [bracketBody]
        split
        · exact List.not_mem_nil
        · exact hrest piece hpiece
      rw [bracketed_eq] at hmem
      simp [hbody] at hmem

/-- A rule leaves the names as they are, or adds its own. -/
theorem map_name_addRule (now : Moment) (ps : List Parameter) (rules : FieldRules) :
    (addRule now ps rules).map (·.name) = ps.map (·.name) ∨
      (addRule now ps rules).map (·.name) = ps.map (·.name) ++ [bracketName rules.field] := by
  rcases addRule_cases now ps rules with ⟨-, i, p, -, hp, -, -, heq⟩ | ⟨-, heq⟩
  · left
    rw [heq]
    exact map_set_eq hp rfl
  · right
    rw [heq, List.map_append, List.map_singleton]
    rfl

/-- The names of query parameters are those of some of the rules, in order. -/
theorem map_name_ofRules (now : Moment) (rules : RuleSet) :
    ((ofRules now rules).map (·.name)).Sublist
      (rules.map fun field => bracketName field.field) := by
  have hfinish : ∀ p : Parameter, (finish p).name = p.name := by
    intro p
    rw [finish]
    split <;> rfl
  have hdraft : ((rules.foldl (addRule now) []).map (·.name)).Sublist
      (rules.map fun field => bracketName field.field) := by
    induction rules using List.reverseRecOn with
    | nil => exact List.Sublist.refl _
    | append_singleton rules field ih =>
        rw [List.foldl_concat, List.map_append, List.map_singleton]
        rcases map_name_addRule now (rules.foldl (addRule now) []) field with heq | heq
        · rw [heq]
          exact ih.trans (List.sublist_append_left _ _)
        · rw [heq]
          exact ih.append (List.Sublist.refl _)
  rw [ofRules, List.map_map]
  simpa [Function.comp_def, hfinish] using hdraft

/-- Rules of different plain fields give parameters of different names. -/
theorem nodup_names_parameters {now : Moment} {rules : List (String × Json)}
    {ps : List Parameter} (hkeys : (Dict.keys rules).Nodup)
    (hplain : ∀ field ∈ Dict.keys rules, IsPlain field) (h : parameters now rules = .ok ps) :
    (ps.map (·.name)).Nodup := by
  obtain ⟨fields, hread, rfl⟩ := map_eq_ok_iff.mp h
  have hnames : fields.map (fun field => bracketName field.field) =
      (Dict.keys rules).map bracketName := by
    rw [Dict.keys, ← RuleSet.map_field_of_read hread, List.map_map]
    rfl
  refine List.Nodup.sublist (map_name_ofRules now fields) ?_
  rw [hnames]
  refine List.Nodup.map_on ?_ hkeys
  intro f hf g hg hsame
  exact bracketName_inj (hplain f hf) (hplain g hg) hsame

end ApiDoc.Query
