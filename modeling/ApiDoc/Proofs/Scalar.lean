import ApiDoc.Scalar

/-!
# Values and the types of schemas

A value has a type as schemas name types.  The examples that are made up for a type are
values of it, and only arrays, objects and binary strings have none.
-/

namespace ApiDoc

/-- Whether a value is of a type; a whole number is a number too. -/
def Json.hasType (j : Json) (type : String) : Bool :=
  match j with
  | .null => false
  | .bool _ => type == "boolean"
  | .num (.int _) => type == "integer" || type == "number"
  | .num (.float _) => type == "number"
  | .str _ => type == "string"
  | .arr _ => type == "array"
  | .obj _ => type == "object"

namespace Scalar

variable {now : Moment} {type : String} {format : Option String}

/-- A string has an example, unless its format is the one of binary payloads. -/
theorem stringExample_eq_none_iff : stringExample now format = none ↔ format = some "binary" := by
  unfold stringExample
  constructor
  · split <;> simp
  · rintro rfl
    rfl

/-- An example has the type for which it is made up, and none is a list or an object. -/
theorem hasType_exampleFor {j : Json} (h : exampleFor now type format = some j) :
    j.hasType type = true ∧ j.hasType "array" = false ∧ j.hasType "object" = false := by
  unfold exampleFor at h
  split at h
  · obtain rfl := Option.some.inj h
    split <;> exact ⟨rfl, rfl, rfl⟩
  · obtain rfl := Option.some.inj h
    exact ⟨rfl, rfl, rfl⟩
  · obtain rfl := Option.some.inj h
    exact ⟨rfl, rfl, rfl⟩
  · obtain ⟨text, -, rfl⟩ := Option.map_eq_some_iff.mp h
    exact ⟨rfl, rfl, rfl⟩
  · cases h

end Scalar

end ApiDoc
