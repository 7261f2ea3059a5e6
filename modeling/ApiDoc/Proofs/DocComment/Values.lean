import ApiDoc.DocComment.TagBody
import ApiDoc.Proofs.Except
import ApiDoc.Proofs.Json.Distinct

/-!
# Values of annotations

Scalars read by their look or for a type, made-up examples, and the bodies of tags:
none of them repeats a key.
-/

namespace ApiDoc

namespace Scalar

open Json (Distinct)

theorem distinct_guess (raw : String) : (guess raw).Distinct := by
  rw [guess]
  split
  · exact .num
  · split
    · exact .bool
    · exact .bool
    · exact .str

theorem distinct_coerce (raw type : String) : (coerce raw type).Distinct := by
  unfold coerce
  split
  · split
    · exact .num
    · exact .str
  · split
    · exact .num
    · exact .str
  · split
    · exact .bool
    · exact .bool
    · exact .bool
    · exact .bool
    · exact .str
  · split
    · next items hread => exact Json.distinct_of_read? hread
    · refine .arr ?_
      intro j hj
      obtain ⟨part, -, rfl⟩ := List.mem_map.mp hj
      exact distinct_guess _
  · cases hread : Json.read? raw.toList with
    | none => exact .str
    | some j => exact Json.distinct_of_read? hread
  · exact .str
  · exact distinct_guess raw

theorem distinct_coerceExample {value : Json} (h : value.Distinct) (type : String) :
    (coerceExample value type).Distinct := by
  unfold coerceExample
  split
  · split
    · exact distinct_coerce _ _
    · exact distinct_coerce _ _
    · exact distinct_coerce _ _
    · exact h
  · split
    · exact .str
    · exact h
  · split
    · exact .str
    · exact h
  · exact h

theorem distinct_exampleFor (now : Moment) (type : String) (format : Option String) :
    ∀ j ∈ exampleFor now type format, j.Distinct := by
  intro j h
  unfold exampleFor at h
  split at h
  · split at h
    · exact Option.some.inj h ▸ .num
    · exact Option.some.inj h ▸ .num
    · exact Option.some.inj h ▸ .num
  · exact Option.some.inj h ▸ .num
  · exact Option.some.inj h ▸ .bool
  · obtain ⟨text, -, rfl⟩ := Option.map_eq_some_iff.mp h
    exact .str
  · cases h

end Scalar

namespace TagBody

theorem distinct_of_value? {fuel : Nat} {raw : List Char} {j : Json}
    (h : value? fuel raw = some j) : j.Distinct := by
  induction fuel generalizing raw j with
  | zero => cases h
  | succ fuel ih =>
      rw [value?] at h
      split at h
      · split at h
        · obtain rfl := Option.some.inj h
          exact .arr (by simp)
        · obtain ⟨values, hvalues, rfl⟩ := Option.map_eq_some_iff.mp h
          refine .arr fun j hj => ?_
          obtain ⟨item, -, hitem⟩ := exists_of_mem_mapM_some hvalues hj
          exact ih hitem
      · split at h
        · exact Json.distinct_of_read? h
        · split at h
          · exact Option.some.inj h ▸ .str
          · split at h
            · exact Option.some.inj h ▸ .null
            · exact Option.some.inj h ▸ Scalar.distinct_guess _

theorem distinct_of_entry {body text : List Char} {made : String × Json}
    (h : entry body text = .ok made) : made.2.Distinct := by
  rw [entry] at h
  split at h
  · cases h
  · dsimp only at h
    split at h
    · next hvalue => exact Except.ok.inj h ▸ distinct_of_value? hvalue
    · cases h

/-- No value of a tag repeats a key. -/
theorem forall_distinct_of_parse {body : String} {entries : List (String × Json)}
    (h : parse body = .ok entries) : ∀ entry ∈ entries, entry.2.Distinct := by
  rw [parse] at h
  split at h
  · obtain rfl : [] = entries := Except.ok.inj h
    simp
  · split at h
    · split at h
      · next hread =>
          obtain rfl := Except.ok.inj h
          exact (Json.distinct_obj_iff.mp (Json.distinct_of_read? hread)).2
      · cases h
      · cases h
    · split at h
      · cases h
      · obtain ⟨made, hmade, rfl⟩ := map_eq_ok_iff.mp h
        refine Dict.forall_mem_merged fun entry hentry => ?_
        obtain ⟨text, -, htext⟩ := exists_of_mem_mapM hmade hentry
        exact distinct_of_entry htext

end TagBody

theorem CommentProperties.forall_distinct_of_read {raw : Option String} {tag : String}
    {comment : CommentProperties} (h : read raw tag = .ok comment) :
    ∀ entry ∈ comment.entries, entry.2.Distinct := by
  rw [read] at h
  split at h
  · obtain rfl := Except.ok.inj h
    simp
  · dsimp only at h
    split at h
    · obtain ⟨entries, hentries, h⟩ := bind_eq_ok_iff.mp h
      obtain rfl := Except.ok.inj h
      exact TagBody.forall_distinct_of_parse hentries
    · obtain rfl := Except.ok.inj h
      simp

end ApiDoc
