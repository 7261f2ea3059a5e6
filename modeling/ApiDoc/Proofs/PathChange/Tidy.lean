import ApiDoc.Proofs.Document.Read
import ApiDoc.Proofs.PathChange.Basic

/-!
# Changes of tidy operations

A change leaves out its keys with a meaning before the rest becomes extensions of the
parameter.  The key of the schema is not among them, so a change can put an extension
beside the schema under the same key, and does nothing worse.
-/

namespace ApiDoc

namespace PathOverride

/-- The values of the overrides repeat no key. -/
def Distinct (overrides : List PathOverride) : Prop :=
  ∀ override ∈ overrides, ∀ entry ∈ override, entry.2.Distinct

theorem distinct_ofJson {j : Json} (h : j.Distinct) : Distinct (ofJson j) := by
  cases h with
  | arr hitems =>
      intro override hoverride
      obtain ⟨item, hitem, hobj⟩ := List.mem_filterMap.mp hoverride
      exact Json.values_of_asObj? (hitems item hitem) hobj
  | obj _ hvalues => exact List.forall_mem_singleton.mpr hvalues
  | _ => exact fun _ hnone => nomatch hnone

theorem nodup_keys_ofJson {j : Json} (h : j.Distinct) :
    ∀ override ∈ ofJson j, (Dict.keys override).Nodup := by
  cases h with
  | arr hitems =>
      intro override hoverride
      obtain ⟨item, hitem, hobj⟩ := List.mem_filterMap.mp hoverride
      cases hitems item hitem with
      | obj hkeys _ => exact Option.some.inj hobj ▸ hkeys
      | _ => cases hobj
  | obj hkeys _ => exact List.forall_mem_singleton.mpr hkeys
  | _ => exact fun _ hnone => nomatch hnone

theorem tidy_apply {override : PathOverride} {p : Parameter}
    (hoverride : ∀ entry ∈ override, entry.2.Distinct) (h : p.Tidy) :
    (apply override p).Tidy := by
  refine ⟨h.schema.congr rfl rfl rfl rfl, h.extensions.insertAll ?_ ?_⟩
  · intro entry hentry hname
    have hkept := (List.mem_filter.mp hentry).2
    revert hkept
    simp only [List.mem_cons, List.not_mem_nil, or_false] at hname
    rcases hname with heq | heq | heq | heq <;> simp [heq, fieldNames]
  · exact fun entry hentry => hoverride entry (List.mem_of_mem_filter hentry)

/-- An extension with the key of the schema was there, or the change gives it. -/
theorem schema_mem_apply {override : PathOverride} {p : Parameter}
    (h : "schema" ∈ Dict.keys (apply override p).extensions) :
    "schema" ∈ Dict.keys p.extensions ∨ "schema" ∈ Dict.keys override := by
  by_contra hneither
  obtain ⟨hold, hnew⟩ := not_or.mp hneither
  obtain ⟨extension, hextension, heq⟩ := List.mem_map.mp h
  refine Dict.forall_mem_insertAll (p := fun entry : String × Json => entry.1 ≠ "schema") ?_ ?_
    extension hextension heq
  · exact fun entry hentry he => hold (he ▸ List.mem_map_of_mem hentry)
  · exact fun entry hentry he => hnew (he ▸ List.mem_map_of_mem (List.mem_of_mem_filter hentry))

/-- What every change of a parameter keeps is kept when the changes of a path are
applied. -/
theorem forall_mem_applyAll {q : Parameter → Prop} {overrides : List PathOverride}
    {parameters : List Parameter}
    (hstep : ∀ override ∈ overrides, ∀ p, q p → q (apply override p))
    (h : ∀ p ∈ parameters, q p) : ∀ p ∈ applyAll overrides parameters, q p := by
  induction parameters generalizing overrides with
  | nil =>
      cases overrides <;> exact fun _ hnone => nomatch hnone
  | cons p rest ih =>
      obtain ⟨hp, hrest⟩ := List.forall_mem_cons.mp h
      cases overrides with
      | nil => exact h
      | cons override later =>
          rw [applyAll]
          split
          · exact List.forall_mem_cons.mpr ⟨hstep override List.mem_cons_self p hp,
              ih (fun next hnext => hstep next (List.mem_cons_of_mem _ hnext)) hrest⟩
          · exact List.forall_mem_cons.mpr ⟨hp, ih hstep hrest⟩

end PathOverride

theorem PathChanges.tidy_changeOperation {overrides : List PathOverride} {o : Operation}
    (hoverrides : PathOverride.Distinct overrides) (h : o.Tidy) :
    (changeOperation overrides o).Tidy :=
  { h with
    parameters := PathOverride.forall_mem_applyAll
      (fun override hoverride _ => PathOverride.tidy_apply (hoverrides override hoverride))
      h.parameters }

end ApiDoc
