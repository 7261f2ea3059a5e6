import ApiDoc.Schema.Basic

/-!
# Finishing element slots

Schemas under construction hold the elements of an array as a list of slots.
`collapse` finishes them at every depth: the first slot becomes the schema of
the elements, and an empty list becomes strings.
-/

namespace ApiDoc.Schema

mutual

/-- Finish the slots of a schema and of all schemas inside it. -/
def collapse : Schema → Schema
  | ⟨reference, type, format, description, nullable, enum, default, sample, minimum, maximum,
      minLength, maxLength, minItems, maxItems, properties, items, required, extensions⟩ =>
      ⟨reference, type, format, description, nullable, enum, default, sample, minimum, maximum,
        minLength, maxLength, minItems, maxItems, collapseProperties properties,
        collapseItems items, required, extensions⟩
termination_by structural s => s

def collapseProperties :
    Option (List (String × Schema)) → Option (List (String × Schema))
  | none => none
  | some properties => some (collapseAll properties)
termination_by structural p => p

/-- Finish every schema of a list of properties. -/
def collapseAll : List (String × Schema) → List (String × Schema)
  | [] => []
  | (name, s) :: rest => (name, collapse s) :: collapseAll rest
termination_by structural p => p

def collapseItems : Option (Items Schema) → Option (Items Schema)
  | none => none
  | some (.list []) => some (.single (typed "string"))
  | some (.list (slot :: _)) => some (.single (collapse slot))
  | some (.single item) => some (.single (collapse item))
termination_by structural i => i

end

end ApiDoc.Schema
