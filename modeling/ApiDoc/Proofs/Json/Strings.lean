import ApiDoc.Json.Reader

/-!
# Strings that are read

A value is a string only if its text is in quotes.  Each character of a string is written
with one character or more, so a string is shorter than the text from which it is read.
-/

namespace ApiDoc.Json

variable {acc cs rest : List Char} {s : String}

/-- The characters of a string come from as many characters, and there is a closing quote. -/
theorem length_lt_of_string? (h : string? acc cs = some (s, rest)) :
    s.toList.length + rest.length < acc.length + cs.length := by
  fun_induction string? acc cs with
  | case2 acc rest =>
      obtain ⟨rfl, rfl⟩ := Prod.mk.inj (Option.some.inj h)
      rw [String.toList_ofList, List.length_reverse, List.length_cons]
      omega
  | case5 | case9 | case10 | case13 =>
      rename_i ih
      have hlt := ih h
      simp only [List.length_cons] at hlt ⊢
      omega
  | _ => cases h

/-- Only a quote opens a string. -/
theorem exists_quote_of_value?_str {fuel depth : Nat}
    (h : value? fuel depth cs = some (.str s, rest)) :
    ∃ text, cs = '"' :: text ∧ string? [] text = some (s, rest) := by
  cases fuel with
  | zero => cases h
  | succ fuel =>
      rw [value?.eq_def] at h
      dsimp only at h
      split at h
      case h_4 text =>
        obtain ⟨made, hmade, heq⟩ := Option.map_eq_some_iff.mp h
        obtain ⟨hs, rfl⟩ := Prod.mk.inj heq
        obtain rfl := Json.str.inj hs
        exact ⟨text, rfl, hmade⟩
      case h_5 | h_6 =>
        -- Lists and objects are read, or nothing.
        cases depth with
        | zero => cases h
        | succ depth =>
            dsimp only at h
            split at h
            · cases h
            · obtain ⟨made, -, heq⟩ := Option.map_eq_some_iff.mp h
              cases heq
      case h_7 =>
        obtain ⟨made, -, heq⟩ := Option.map_eq_some_iff.mp h
        cases heq
      all_goals cases h

theorem exists_quote_of_read?_str (h : read? cs = some (.str s)) :
    ∃ text rest, skipSpace cs = '"' :: text ∧ string? [] text = some (s, rest) := by
  obtain ⟨j, hj, hmerged⟩ := Option.map_eq_some_iff.mp h
  obtain rfl : j = .str s := by
    cases j with
    | arr items => rw [merged] at hmerged; cases hmerged
    | obj members => rw [merged] at hmerged; cases hmerged
    | _ => exact hmerged
  rw [readMembers?] at hj
  split at hj
  · next value rest hvalue =>
      obtain ⟨-, heq⟩ := Option.ite_none_right_eq_some.mp hj
      obtain rfl := Option.some.inj heq
      obtain ⟨text, htext, hstring⟩ := exists_quote_of_value?_str hvalue
      exact ⟨text, rest, htext, hstring⟩
  · cases hj

/-- No text is read as the string that it is. -/
theorem length_lt_of_read?_str (h : read? cs = some (.str s)) : s.toList.length < cs.length := by
  obtain ⟨text, rest, htext, hstring⟩ := exists_quote_of_read?_str h
  have hlt := length_lt_of_string? hstring
  have hspace : (skipSpace cs).length ≤ cs.length := (List.dropWhile_suffix _).length_le
  rw [htext, List.length_cons] at hspace
  rw [List.length_nil] at hlt
  omega

end ApiDoc.Json
