import ApiDoc.Handler
import Mathlib.Data.List.Basic

/-!
# Chains of resolvers

What a chain knows of an action is gathered from the findings of its resolvers, in their
order: the first finding names the handler, and a comment and rules come from the first
finding that has some.  Gathering is associative, so a chain may be cut anywhere, and any of
its parts may stand in it as a chain of its own.
-/

namespace ApiDoc

/-- A handler that is put together from findings, the earlier ones first. -/
structure Handler.Gathered (found : List Handler) (h : Handler) : Prop where
  /-- The first finding names the handler. -/
  names : ∃ first, found.head? = some first ∧ h.owner = first.owner ∧ h.method = first.method
  /-- The comment is that of the first finding with a comment. -/
  comment : h.comment = found.findSome? (·.comment)
  /-- The rules are those of the first finding with rules. -/
  rules : h.rules = ((found.find? fun f => !f.rules.isEmpty).map (·.rules)).getD []

namespace Handler

variable {found : List Handler} {first h next : Handler}

theorem Gathered.ext {other : Handler} (hh : Gathered found h) (hother : Gathered found other) :
    h = other := by
  obtain ⟨first, hfirst, howner, hmethod⟩ := hh.names
  obtain ⟨also, halso, howner', hmethod'⟩ := hother.names
  obtain rfl : first = also := Option.some.inj (hfirst.symm.trans halso)
  have hcomment := hh.comment.trans hother.comment.symm
  have hrules := hh.rules.trans hother.rules.symm
  cases h
  cases other
  simp_all

theorem gathered_singleton (h : Handler) : Gathered [h] h where
  names := ⟨h, rfl, rfl, rfl⟩
  comment := by cases hc : h.comment <;> simp [hc]
  rules := by cases hr : h.rules <;> simp [hr]

/-- What later findings give completes an earlier one. -/
theorem Gathered.cons (hnext : Gathered found next) (first : Handler) :
    Gathered (first :: found) (complete first next) where
  names := ⟨first, rfl, rfl, rfl⟩
  comment := by
    rw [List.findSome?_cons, ← hnext.comment]
    cases hc : first.comment <;> simp [complete, hc]
  rules := by
    cases hr : first.rules with
    | nil => simp [complete, hr, ← hnext.rules]
    | cons rule rest => simp [complete, hr]

end Handler

namespace Resolver

open Handler

variable {resolvers : List Resolver} {action : String}

/-- The findings of one chain and of another behind it are put together. -/
theorem chain_append (front rest : List Resolver) (action : String) :
    chain (front ++ rest) action = merge? (chain front action) (chain rest action) := by
  induction front with
  | nil =>
      rw [List.nil_append, chain_nil]
      cases chain rest action <;> rfl
  | cons resolver front ih => rw [List.cons_append, chain_cons, ih, chain_cons, merge?_assoc]

/-- A chain in the place of its resolvers. -/
theorem chain_nested (front group rest : List Resolver) :
    chain (front ++ chain group :: rest) = chain (front ++ group ++ rest) := by
  funext action
  rw [chain_append, chain_cons, chain_append, chain_append, merge?_assoc]

theorem chain_eq_none_iff :
    chain resolvers action = none ↔ resolvers.filterMap (· action) = [] := by
  induction resolvers with
  | nil => simp
  | cons resolver rest ih =>
      rw [chain_cons]
      cases hfound : resolver action with
      | none => simpa [merge?, hfound] using ih
      | some first => cases chain rest action <;> simp [merge?, hfound]

/-- What a chain gives is gathered from what its resolvers give. -/
theorem gathered_chain {h : Handler} (hchain : chain resolvers action = some h) :
    Gathered (resolvers.filterMap (· action)) h := by
  induction resolvers generalizing h with
  | nil => cases hchain
  | cons resolver rest ih =>
      rw [chain_cons] at hchain
      cases hfound : resolver action with
      | none =>
          rw [hfound] at hchain
          rw [List.filterMap_cons_none (f := fun r : Resolver => r action) hfound]
          exact ih hchain
      | some first =>
          rw [hfound] at hchain
          rw [List.filterMap_cons_some (f := fun r : Resolver => r action) hfound]
          cases hrest : chain rest action with
          | none =>
              rw [hrest] at hchain
              obtain rfl : first = h := Option.some.inj hchain
              rw [chain_eq_none_iff.mp hrest]
              exact gathered_singleton first
          | some next =>
              rw [hrest] at hchain
              obtain rfl : complete first next = h := Option.some.inj hchain
              exact (ih hrest).cons first

/-- A chain knows an action exactly if one of its resolvers does, and then what it knows is
gathered from the findings of all.  Resolvers that follow one another may be a chain of
their own. -/
theorem chain_gathers (resolvers : List Resolver) :
    (∀ action, (chain resolvers action).isSome ↔
      ∃ resolver ∈ resolvers, (resolver action).isSome) ∧
    (∀ action h, chain resolvers action = some h ↔
      Gathered (resolvers.filterMap (· action)) h) ∧
    ∀ front group rest : List Resolver,
      chain (front ++ chain group :: rest) = chain (front ++ group ++ rest) := by
  refine ⟨fun action => ?_, fun action h => ⟨gathered_chain, fun hgathered => ?_⟩, chain_nested⟩
  · rw [← not_iff_not, Option.not_isSome_iff_eq_none, chain_eq_none_iff,
      List.filterMap_eq_nil_iff]
    simp
  · cases hchain : chain resolvers action with
    | none =>
        obtain ⟨first, hfirst, -⟩ := hgathered.names
        rw [chain_eq_none_iff.mp hchain] at hfirst
        cases hfirst
    | some known => rw [(gathered_chain hchain).ext hgathered]

/-- The first resolver that knows the action has neither a comment nor rules. -/
example :
    let known (comment : Option String) (rules : List (String × Json)) : Resolver := fun _ =>
      some { owner := "Pets", method := "index", comment, rules }
    ((chain [fun _ => none, known none [],
        chain [known (some "All pets.") [], known (some "Pets.") [("page", .str "integer")]]]
      "Pets@index").map fun h => (h.comment, h.rules.map (·.1))) =
        some (some "All pets.", ["page"]) := by
  rfl

end Resolver

end ApiDoc
