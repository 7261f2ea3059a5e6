import ApiDoc.Proofs.Assembly.Table
import ApiDoc.Proofs.Assembly.Tidy
import ApiDoc.Proofs.PathChange.Alike

/-!
# The order of a table of routes

If no two routes document the same method of a path, and the comments for a path agree
about its parameters, then the order of the routes plays no part: every operation comes
from one route, and every change is the only one of its path.  The two documents may
still differ in how equal values of overrides are written, since the first of several
equal overrides is the one that is kept.
-/

namespace ApiDoc

/-- Paths in order are determined by their keys and their operations. -/
theorem Paths.Ordered.ext {paths others : Paths} (hp : paths.Ordered) (ho : others.Ordered)
    (hkeys : ∀ key, (Dict.find? paths key).isSome ↔ (Dict.find? others key).isSome)
    (hoperations : ∀ key name, paths.operation? key name = others.operation? key name) :
    paths = others := by
  refine hp.increasing.ext ho.increasing fun key => ?_
  have hkey := hkeys key
  have hitem := hoperations key
  simp only [operation?] at hitem
  cases hfind : Dict.find? paths key with
  | none =>
      rw [hfind] at hkey
      exact (Option.not_isSome_iff_eq_none.mp fun hsome => Bool.false_ne_true (hkey.mpr hsome)).symm
  | some item =>
      rw [hfind] at hkey hitem
      obtain ⟨other, hother⟩ := Option.isSome_iff_exists.mp (hkey.mp rfl)
      rw [hother] at hitem ⊢
      exact congrArg some ((hp.items _ (Dict.mem_of_find? hfind)).ext
        (ho.items _ (Dict.mem_of_find? hother)) hitem)

/-- Two documents that differ at most in how values of path parameters are written. -/
structure Document.Alike (d e : Document) : Prop where
  fields : e = { d with paths := e.paths }
  paths : d.paths.Alike e.paths

namespace Assembly

variable {a : Assembly} {base key : String} {resolve : Resolver} {routes others : List Route}

/-- No two routes that are kept document the same method of a path. -/
def Apart (a : Assembly) (base : String) (routes : List Route) : Prop :=
  ∀ route ∈ routes, ∀ other ∈ routes,
    a.isDropped base route = false → a.isDropped base other = false →
    pathKey (relativeUri base route.uri) = pathKey (relativeUri base other.uri) →
    ∀ method ∈ a.documentedMethods route, method ∈ a.documentedMethods other → route = other

instance (a : Assembly) (base : String) (routes : List Route) :
    Decidable (a.Apart base routes) :=
  inferInstanceAs (Decidable (∀ _ ∈ _, ∀ _ ∈ _, _ → _ → _ → ∀ _ ∈ _, _ → _))

/-- What the comments say about the parameters of one path is related, for any two
methods that routes which are kept document there. -/
def ChangesAgree (a : Assembly) (base : String) (resolve : Resolver) (routes : List Route)
    (R : List PathOverride → List PathOverride → Prop) : Prop :=
  ∀ route ∈ routes, ∀ other ∈ routes,
    a.isDropped base route = false → a.isDropped base other = false →
    pathKey (relativeUri base route.uri) = pathKey (relativeUri base other.uri) →
    ∀ method ∈ a.documentedMethods route, ∀ another ∈ a.documentedMethods other,
      ∀ d, a.computed base resolve route method = .ok d →
        ∀ e, a.computed base resolve other another = .ok e →
          ∀ xs ∈ d.overrides, ∀ ys ∈ e.overrides, R xs ys

instance (a : Assembly) (base : String) (resolve : Resolver) (routes : List Route)
    (R : List PathOverride → List PathOverride → Prop) [∀ xs ys, Decidable (R xs ys)] :
    Decidable (a.ChangesAgree base resolve routes R) :=
  inferInstanceAs (Decidable (∀ _ ∈ _, ∀ _ ∈ _, _ → _ → _ → ∀ _ ∈ _, ∀ _ ∈ _,
    ∀ _, _ → ∀ _, _ → ∀ _ ∈ _, ∀ _ ∈ _, _))

theorem Documents.mono {d : Documented} (hsub : routes ⊆ others)
    (h : a.Documents base resolve routes key d) : a.Documents base resolve others key d := by
  obtain ⟨route, hroute, hkept⟩ := h
  exact ⟨route, hsub hroute, hkept⟩

theorem Apart.mono (hsub : routes ⊆ others) (h : a.Apart base others) : a.Apart base routes :=
  fun route hroute other hother => h route (hsub hroute) other (hsub hother)

theorem Apart.eq_of_serves (h : a.Apart base routes) {route other : Route} {method : Method}
    (hroute : route ∈ routes) (hother : other ∈ routes)
    (hserves : a.serves base key method route = true)
    (hagain : a.serves base key method other = true) : route = other := by
  obtain ⟨hkept, rfl, hmethod⟩ := serves_iff.mp hserves
  obtain ⟨hothers, hkey, hanother⟩ := serves_iff.mp hagain
  exact h route hroute other hother hkept hothers hkey.symm method hmethod hanother

theorem ChangesAgree.of_documents {R : List PathOverride → List PathOverride → Prop}
    (h : a.ChangesAgree base resolve routes R) {d e : Documented}
    (hd : a.Documents base resolve routes key d) (he : a.Documents base resolve routes key e)
    {xs ys : List PathOverride} (hxs : d.overrides = some xs) (hys : e.overrides = some ys) :
    R xs ys := by
  obtain ⟨route, hroute, hkept, rfl, method, hmethod, hd⟩ := hd
  obtain ⟨other, hother, hothers, hkey, another, hanother, he⟩ := he
  exact h route hroute other hother hkept hothers hkey method hmethod another hanother
    d hd e he xs hxs ys hys

theorem ChangesAgree.imp {R S : List PathOverride → List PathOverride → Prop}
    (hRS : ∀ xs ys, R xs ys → S xs ys) (h : a.ChangesAgree base resolve routes R) :
    a.ChangesAgree base resolve routes S :=
  fun route hroute other hother hkept hothers hkey method hmethod another hanother d hd e he
    xs hxs ys hys => hRS xs ys (h route hroute other hother hkept hothers hkey method hmethod
      another hanother d hd e he xs hxs ys hys)

theorem nodup_keys_of_documents {d : Documented} (h : a.Documents base resolve routes key d)
    {xs : List PathOverride} (hxs : d.overrides = some xs) :
    ∀ override ∈ xs, (Dict.keys override).Nodup := by
  obtain ⟨route, -, -, -, method, -, hd⟩ := h
  obtain ⟨documented, _, _, hofHandler, -, -, rfl⟩ := operation_eq_ok hd
  exact Documented.nodup_keys_ofHandler hofHandler xs hxs

section Drafts

variable {draft other : Draft}

/-- The one route that documents a method of a path gives its operation. -/
theorem operation?_draft_of_serves (hapart : a.Apart base routes)
    (h : routes.foldlM (a.addRoute base resolve) {} = .ok draft) {route : Route}
    {method : Method} (hroute : route ∈ routes)
    (hserves : a.serves base key method route = true) :
    ∃ d, a.computed base resolve route method = .ok d ∧
      draft.paths.operation? key method.name = some d.operation := by
  obtain ⟨last, hlast⟩ := exists_getLast?_filter_serves hroute hserves
  obtain ⟨hmem, hlastServes⟩ := List.mem_filter.mp (List.mem_of_getLast? hlast)
  obtain rfl := hapart.eq_of_serves hroute hmem hserves hlastServes
  exact operation?_draft_of_getLast? h hlast

/-- The operations of a table of routes are in the draft of every table that has more
routes, if those are apart. -/
theorem operation?_draft_mono (hsub : routes ⊆ others) (hapart : a.Apart base others)
    (h : routes.foldlM (a.addRoute base resolve) {} = .ok draft)
    (hothers : others.foldlM (a.addRoute base resolve) {} = .ok other) {name : String}
    {o : Operation} (ho : draft.paths.operation? key name = some o) :
    other.paths.operation? key name = some o := by
  obtain ⟨route, hroute, method, hserves, rfl⟩ := exists_serves_of_operation?_draft h ho
  obtain ⟨d, hd, hoperation⟩ := operation?_draft_of_serves (hapart.mono hsub) h hroute hserves
  obtain ⟨e, he, hagain⟩ := operation?_draft_of_serves hapart hothers (hsub hroute) hserves
  obtain rfl := Except.ok.inj (hd.symm.trans he)
  rw [hagain, ← hoperation, ho]

theorem paths_draft_of_perm (hperm : routes.Perm others) (hapart : a.Apart base others)
    (h : routes.foldlM (a.addRoute base resolve) {} = .ok draft)
    (hothers : others.foldlM (a.addRoute base resolve) {} = .ok other) :
    draft.paths = other.paths := by
  refine (ordered_draft h).ext (ordered_draft hothers) (fun key => ?_) fun key name => ?_
  · rw [isSome_find?_draft h, isSome_find?_draft hothers]
    simp only [hperm.mem_iff]
  · exact Option.ext fun o => ⟨operation?_draft_mono hperm.subset hapart h hothers,
      operation?_draft_mono hperm.symm.subset (hapart.mono hperm.subset) hothers h⟩

/-- At a path for which changes are recorded, they are recorded from every table that
has more routes. -/
theorem exists_find?_changes_draft (hsub : routes ⊆ others)
    (h : routes.foldlM (a.addRoute base resolve) {} = .ok draft)
    (hothers : others.foldlM (a.addRoute base resolve) {} = .ok other)
    {xs : List PathOverride} (hxs : Dict.find? draft.changes key = some xs) :
    ∃ ys, Dict.find? other.changes key = some ys := by
  obtain ⟨d, hd, hoverrides⟩ := (from_draft h).changes _ (Dict.mem_of_find? hxs)
  have hsome : d.overrides.isSome := by
    rw [hoverrides]
    rfl
  exact Option.isSome_iff_exists.mp (isSome_changes_draft hothers (hd.mono hsub) hsome)

/-- Changes that the comments agree about are recorded at the same paths, and agree. -/
theorem rel_changes_draft {R S : List PathOverride → List PathOverride → Prop}
    (hperm : routes.Perm others) (hagree : a.ChangesAgree base resolve routes R)
    (hR : ∀ xs ys, (∀ override ∈ xs, (Dict.keys override).Nodup) →
      (∀ override ∈ ys, (Dict.keys override).Nodup) → R xs ys → S xs ys)
    (h : routes.foldlM (a.addRoute base resolve) {} = .ok draft)
    (hothers : others.foldlM (a.addRoute base resolve) {} = .ok other) :
    Dict.Alike S draft.changes other.changes := by
  refine (increasing_changes_draft h).forall₂_of_find? (increasing_changes_draft hothers)
    fun key => ?_
  cases hxs : Dict.find? draft.changes key with
  | some xs =>
      obtain ⟨ys, hys⟩ := exists_find?_changes_draft hperm.subset h hothers hxs
      obtain ⟨d, hd, hdxs⟩ := (from_draft h).changes _ (Dict.mem_of_find? hxs)
      obtain ⟨e, heothers, heys⟩ := (from_draft hothers).changes _ (Dict.mem_of_find? hys)
      have he : a.Documents base resolve routes key e := heothers.mono hperm.symm.subset
      have hxys : R xs ys := hagree.of_documents hd he hdxs heys
      rw [hys]
      exact .some (hR xs ys (nodup_keys_of_documents hd hdxs) (nodup_keys_of_documents he heys)
        hxys)
  | none =>
      cases hys : Dict.find? other.changes key with
      | none => exact .none
      | some ys =>
          obtain ⟨xs, hsome⟩ := exists_find?_changes_draft hperm.symm.subset hothers h hys
          rw [hxs] at hsome
          cases hsome

theorem exists_draft_of_subset (hsub : others ⊆ routes)
    (h : routes.foldlM (a.addRoute base resolve) {} = .ok draft) :
    ∃ other, others.foldlM (a.addRoute base resolve) {} = .ok other :=
  exists_draft fun _ hroute _ _ hserves => exists_computed h (hsub hroute) hserves

end Drafts

end Assembly

namespace Application

open Assembly

variable {app : Application} {a : Assembly} {filter : Option String} {routes : List Route}
  {document : Document} {warnings : List Warning}

/-- Routes that are apart, and agree about the changes of their paths, give the same
document in any order: equal in every value, and identical if the changes agree to the
letter. -/
theorem document_of_perm (hperm : routes.Perm app.routes)
    (hapart : a.Apart (basePrefix a.settings filter) app.routes)
    (hagree : a.ChangesAgree (basePrefix a.settings filter) app.resolve app.routes
      fun xs ys => xs = ys ∨ PathOverride.same xs ys = true)
    (h : app.documentOf a filter = .ok (document, warnings)) :
    ∃ permuted notes, { app with routes }.documentOf a filter = .ok (permuted, notes) ∧
      document.Alike permuted ∧
      (a.ChangesAgree (basePrefix a.settings filter) app.resolve app.routes (· = ·) →
        permuted = document) := by
  obtain ⟨schemas, draft, hschemas, hdraft, hdocument⟩ := documentUnder_eq_ok h
  obtain ⟨other, hother⟩ := exists_draft_of_subset hperm.subset hdraft
  obtain ⟨notes, hrun⟩ : ∃ notes, { app with routes }.documentOf a filter =
      .ok ({ document with paths := (other.changes.apply other.paths).1 }, notes) := by
    rw [hdocument]
    exact ⟨_, bind_eq_ok_iff.mpr ⟨schemas, hschemas, bind_eq_ok_iff.mpr ⟨other, hother, rfl⟩⟩⟩
  have hpaths : other.paths = draft.paths := paths_draft_of_perm hperm hapart hother hdraft
  refine ⟨_, notes, hrun, ⟨rfl, ?_⟩, fun hequal => ?_⟩
  · have hchanges : Dict.Alike (List.Forall₂ PathOverride.Alike) draft.changes other.changes :=
      rel_changes_draft hperm.symm hagree
        (fun _ _ hxs hys hsame => PathOverride.forall₂_alike hxs hys hsame) hdraft hother
    rw [hdocument, hpaths]
    exact PathChanges.alike_apply hchanges draft.paths
  · have hentries : Dict.Alike (· = ·) draft.changes other.changes :=
      rel_changes_draft hperm.symm hequal (fun _ _ _ _ heq => heq) hdraft hother
    have hchanges : draft.changes = other.changes :=
      List.forall₂_eq_eq_eq ▸ hentries.imp fun _ _ heq => Prod.ext heq.1 heq.2
    rw [hdocument, hpaths, hchanges]

/-- Two methods of one path that change its parameter in the same way, with a route of
another path between them. -/
theorem document_of_perm_pets :
    let a : Assembly := { settings := {}, builders := {}, entities := {}, now := ⟨"", ""⟩ }
    let shown : Route := { uri := "/api/pets/\x7bid\x7d", methods := [.get], action := some "show" }
    let owners : Route := { uri := "/api/owners", methods := [.get] }
    let changed : Route :=
      { uri := "/api/pets/\x7bid?\x7d", methods := [.put], action := some "update" }
    let comment : String → String := fun action =>
      if action = "show" then "@Request(pathParams: \x7b\"name\": \"pet\", \"x-a\": true\x7d)"
      else "@Request(pathParams: \x7b\"x-a\": true, \"name\": \"pet\"\x7d)"
    let app : Application :=
      { routes := [shown, owners, changed]
        resolve := fun action => some { comment := some (comment action) } }
    ∃ document warnings permuted notes, app.documentOf a none = .ok (document, warnings) ∧
      Dict.keys document.paths = ["/owners", "/pets/\x7bpet\x7d"] ∧
      { app with routes := [changed, owners, shown] }.documentOf a none =
        .ok (permuted, notes) ∧
      document.Alike permuted := by
  intro a shown owners changed comment app
  obtain ⟨⟨document, warnings⟩, hmade, hkeys⟩ : ∃ made, app.documentOf a none = .ok made ∧
      Dict.keys made.1.paths = ["/owners", "/pets/\x7bpet\x7d"] := by
    decide +kernel
  have hperm : [changed, owners, shown].Perm app.routes := by decide +kernel
  have hapart : a.Apart (basePrefix a.settings none) app.routes := by decide +kernel
  have hsame : a.ChangesAgree (basePrefix a.settings none) app.resolve app.routes
      fun xs ys => PathOverride.same xs ys = true := by
    decide +kernel
  obtain ⟨permuted, notes, hrun, halike, -⟩ := document_of_perm hperm hapart
    (hsame.imp fun _ _ heq => .inr heq) hmade
  exact ⟨document, warnings, permuted, notes, hmade, hkeys, hrun, halike⟩

end Application

end ApiDoc
