import ApiDoc.Proofs.Scalar.Coerce
import ApiDoc.Request.RuleSchema
import ApiDoc.Rule.Reader

/-!
# The limits of numbers

The minimum and the maximum of a number come from the bounds in its rules, the documented
ones first.  A bound that is a numeral becomes a number if 64 bits hold it, and stays a text
if they do not.
-/

namespace ApiDoc

open Scalar (Numeral inWord)

/-- The limit of a schema on one side. -/
def Schema.limit? (s : Schema) : BoundSide → Option Json
  | .min => s.minimum
  | .max => s.maximum

namespace FieldRules

variable {now : Moment} {rules : FieldRules} {side : BoundSide} {type raw : String}

/-- The payload from which the limit on a side is taken: that of the documented bound, or of
the plain one where none is documented. -/
def limitPayload? (rules : FieldRules) : BoundSide → Option String
  | .min => (rules.minBound?.map (·.value)).or rules.min?
  | .max => (rules.maxBound?.map (·.value)).or rules.max?

theorem limit?_of_isNumeric (h : isNumeric type = true) (plain : Option String)
    (documented : Option Bound) :
    limit? type plain documented =
      ((documented.map (·.value)).or plain).map (Scalar.coerce · type) := by
  cases documented with
  | none => exact if_pos h
  | some bound => exact congrArg (fun t => some (Scalar.coerce bound.value t)) (if_pos h)

/-- The limits of a number are its payloads, read for its type. -/
theorem limit?_schema (now : Moment) (h : isNumeric rules.schemaType = true) (side : BoundSide) :
    (rules.schema now).limit? side =
      (rules.limitPayload? side).map (Scalar.coerce · rules.schemaType) := by
  cases side with
  | min => exact limit?_of_isNumeric h _ _
  | max => exact limit?_of_isNumeric h _ _

/-- A numeral is read as a number if 64 bits hold it, and else stays a text. -/
theorem coerce_numeral (h : isNumeric type = true) (n : Numeral) :
    Scalar.coerce (String.ofList n.text) type =
      if inWord n.value then .num (.int n.value) else .str (String.ofList n.text) := by
  rw [isNumeric, Bool.or_eq_true, decide_eq_true_iff, decide_eq_true_iff] at h
  rw [Scalar.coerce_of_numeric h, String.toList_ofList, n.isTight_text.trim_eq, n.number?_text]
  split <;> rfl

/-- The limit that a number takes from a numeral is the number that this denotes if 64 bits hold
it, and else the text. -/
theorem limit?_schema_numeral (now : Moment) (side : BoundSide) (n : Numeral)
    (hnumeric : isNumeric rules.schemaType = true)
    (hpayload : rules.limitPayload? side = some (String.ofList n.text)) :
    (rules.schema now).limit? side =
      some (if inWord n.value then .num (.int n.value) else .str (String.ofList n.text)) := by
  rw [limit?_schema now hnumeric, hpayload, Option.map_some, coerce_numeral hnumeric]

theorem limit?_schema_documented :
    let rules : FieldRules :=
      ⟨"floor", [.type .integer, .min "5", .documentedMin (.read .min "-12:fail".toList)]⟩
    isNumeric rules.schemaType = true ∧ rules.limitPayload? .min = some "-12" ∧
      (rules.schema default).limit? .min = some (.num (.int (-12))) := by
  intro rules
  have hnumeric : isNumeric rules.schemaType = true := by decide +kernel
  have hpayload : rules.limitPayload? .min = some "-12" := by decide +kernel
  exact ⟨hnumeric, hpayload, limit?_schema_numeral default .min
    ⟨true, ['1', '2'], by decide, List.all_eq_true.mp (by decide)⟩ hnumeric hpayload⟩

/-- The first number that 64 bits do not hold stays a text. -/
theorem not_forall_limit?_schema_num :
    ¬ ∀ (now : Moment) (rules : FieldRules) (side : BoundSide) (n : Numeral),
      isNumeric rules.schemaType = true →
        rules.limitPayload? side = some (String.ofList n.text) →
          ∃ v, (rules.schema now).limit? side = some (.num v) := by
  intro h
  let rules : FieldRules := ⟨"n", [.type .number, .min "9223372036854775808"]⟩
  let n : Numeral :=
    ⟨false, "9223372036854775808".toList, by decide, List.all_eq_true.mp (by decide)⟩
  have hnumeric : isNumeric rules.schemaType = true := by decide +kernel
  have hpayload : rules.limitPayload? .min = some (String.ofList n.text) := by decide +kernel
  have hword : inWord n.value = false := by decide +kernel
  obtain ⟨v, hv⟩ := h default rules .min n hnumeric hpayload
  rw [limit?_schema default hnumeric, hpayload, Option.map_some, coerce_numeral hnumeric,
    hword] at hv
  cases hv

end FieldRules

end ApiDoc
