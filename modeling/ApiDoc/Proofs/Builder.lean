import ApiDoc.Builder
import ApiDoc.Proofs.Dict
import ApiDoc.Proofs.Except

/-!
# Builders of pages

Any function can be registered as a builder; what settings register makes pages of the known
kinds.
-/

namespace ApiDoc

/-- The builder of an object with one property that refers to the model. -/
def Builder.wrapping (property : String) : Builder := fun model _ =>
  { Schema.object with properties := some [(property, { reference := some model })] }

namespace Builders

variable {builders : Builders} {code host : String}

/-- Every builder makes pages of one of the known kinds. -/
def MakePages (builders : Builders) : Prop :=
  ∀ entry ∈ builders.codes, ∃ (kind : PageKind) (host : String), entry.2 = kind.schema host

theorem makePages_empty : MakePages {} :=
  List.forall_mem_nil _

theorem MakePages.register (h : builders.MakePages) (code : String) (kind : PageKind)
    (host : String) : (builders.register code (kind.schema host)).MakePages :=
  Dict.forall_mem_insert ⟨kind, host, rfl⟩ h

theorem MakePages.of_find? (h : builders.MakePages) {builder : Builder}
    (hfind : builders.find? code = some builder) :
    ∃ (kind : PageKind) (host : String), builder = kind.schema host :=
  h (code, builder) (Dict.mem_of_find? hfind)

theorem makePages_ofNames {names : Dict String} (h : ofNames host names = .ok builders) :
    builders.MakePages := by
  refine foldlM_keeps (p := MakePages) ?_ h makePages_empty
  rintro ⟨code, name⟩ - before after hstep hbefore
  dsimp only at hstep
  split at hstep
  · next kind _ =>
      obtain rfl := Except.ok.inj hstep
      exact hbefore.register code kind host
  · cases hstep

end Builders

end ApiDoc
