import ApiDoc.Datum

/-!
# Handlers

A handler is what is known about the code behind a route: its type and method,
its comment, and the rules of its request.  A resolver finds the handler of an
action.  Resolvers are asked one after another: the first that knows the action
names the handler, and later ones add a comment or rules where none are known.
-/

namespace ApiDoc

/-- What is known about the code that answers a route. -/
structure Handler where
  owner : String := ""
  method : String := ""
  comment : Option String := none
  /-- Rules by the dotted path of their field, in the order they are written. -/
  rules : List (String × Json) := []
deriving Repr, Inhabited

/-- A source of handlers, asked with an action. -/
abbrev Resolver := String → Option Handler

namespace Handler

/-- A handler with the comment and the rules of another where it has none. -/
def complete (first next : Handler) : Handler :=
  { first with
    comment := first.comment.or next.comment
    rules := if first.rules.isEmpty then next.rules else first.rules }

/-- Put the findings of two resolvers together. -/
def merge? : Option Handler → Option Handler → Option Handler
  | some first, some next => some (complete first next)
  | first, next => first.or next

/-- A handler with a name in place of a missing one. -/
def named (h : Handler) (owner method : String) : Handler :=
  { h with
    owner := if h.owner = "" then owner else h.owner
    method := if h.method = "" then method else h.method }

def ofDatum? (d : Datum) : Option Handler := do
  let r ← Datum.record? (Datum.fieldsOf ["class", "method", "doc", "rules"]) d
  return {
    owner := ← r.defaulted? "class" "" Datum.text?
    method := ← r.defaulted? "method" "" Datum.text?
    comment := ← r.defaulted? "doc" none (Datum.orNone? Datum.text?)
    rules := ← r.defaulted? "rules" []
      fun d => (Datum.entries? Datum.value? d).map Dict.merged }

end Handler

/-- Ask resolvers one after another. -/
def Resolver.chain (resolvers : List Resolver) : Resolver := fun action =>
  resolvers.foldr (fun resolver rest => Handler.merge? (resolver action) rest) none

theorem Handler.complete_assoc (a b c : Handler) :
    complete (complete a b) c = complete a (complete b c) := by
  cases a with
  | mk owner method comment rules =>
      cases rules <;> cases comment <;> simp [complete]

theorem Handler.merge?_assoc (a b c : Option Handler) :
    merge? (merge? a b) c = merge? a (merge? b c) := by
  cases a <;> cases b <;> cases c <;> simp [merge?, complete_assoc]

@[simp] theorem Resolver.chain_nil (action : String) : chain [] action = none := rfl

@[simp] theorem Resolver.chain_cons (resolver : Resolver) (rest : List Resolver)
    (action : String) :
    chain (resolver :: rest) action =
      Handler.merge? (resolver action) (chain rest action) := rfl

end ApiDoc
