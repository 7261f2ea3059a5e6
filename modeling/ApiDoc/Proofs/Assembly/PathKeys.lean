import ApiDoc.Proofs.Assembly.Table
import ApiDoc.Proofs.Route
import ApiDoc.Proofs.Template
import Mathlib.Data.List.Infix

/-!
# The paths of a document

The path of a normalized address loses its prefix and the marks of optional placeholders,
and changes of path parameters give its placeholders new names.  Each of these steps swaps
some parts of a text and leaves its segments what they are, so the paths of a document start
with a slash, and no segment of them is a colon with a name behind it.  A mark is left before
a closing brace only where the address has two of them.
-/

namespace ApiDoc

/-- A text that can stand as a path in a document. -/
structure IsPath (key : String) : Prop where
  slash : key.toList.head? = some '/'
  unmarked : ¬ ['?', '\x7d'] <:+: key.toList
  named : ∀ segment ∈ Text.splitOn '/' key.toList, ¬ Text.IsColonName segment

instance : DecidablePred IsPath := fun key =>
  decidable_of_iff (key.toList.head? = some '/' ∧ ¬ ['?', '\x7d'] <:+: key.toList ∧
      ∀ segment ∈ Text.splitOn '/' key.toList, ¬ Text.IsColonName segment)
    ⟨fun ⟨slash, unmarked, named⟩ => ⟨slash, unmarked, named⟩,
      fun ⟨slash, unmarked, named⟩ => ⟨slash, unmarked, named⟩⟩

theorem isPath_iff {key : String} : IsPath key ↔
    key.toList.head? = some '/' ∧ ¬ ['?', '\x7d'] <:+: key.toList ∧
      ¬ ∃ c, c ≠ '/' ∧ ['/', ':', c] <:+: key.toList := by
  constructor
  · intro h
    refine ⟨h.slash, h.unmarked, ?_⟩
    rw [← Text.exists_isColonName_iff h.slash]
    rintro ⟨segment, hsegment, hcolon⟩
    exact h.named segment hsegment hcolon
  · rintro ⟨hslash, hmarks, hcolon⟩
    rw [← Text.exists_isColonName_iff hslash] at hcolon
    exact ⟨hslash, hmarks, fun segment hsegment hname => hcolon ⟨segment, hsegment, hname⟩⟩

/-! ## New names of placeholders -/

theorem IsPath.rename {key : String} (h : IsPath key) {news : List (Option String)}
    (hnews : ∀ name, some name ∈ news → '/' ∉ name.toList ∧ '?' ∉ name.toList) :
    IsPath (Template.rename key news) := by
  obtain ⟨hslash, hmarks, hcolon⟩ := isPath_iff.mp h
  have hedited := Template.edited_rename key hnews
  refine isPath_iff.mpr ⟨?_, ?_, ?_⟩
  · exact hedited.head?_eq_slash Template.keepSegments_renames hslash
  · refine mt (hedited.isInfix_marks ?_) hmarks
    rintro old new ⟨name, other, rfl, rfl, -, hmark⟩
    exact ⟨⟨'\x7b', _, rfl, by decide⟩, by simpa using hmark⟩
  · exact mt (hedited.exists_isInfix_colon Template.keepSegments_renames) hcolon

namespace Assembly

variable {a : Assembly} {base : String} {route : Route}

/-! ## Addresses without prefix and marks -/

/-- What is left of the address of a kept route starts with a slash and is a part of the
address. -/
theorem relativeUri_of_kept (hkept : a.isDropped base route = false)
    (hslash : route.uri.toList.head? = some '/') :
    (relativeUri base route.uri).toList.head? = some '/' ∧
      (relativeUri base route.uri).toList <:+: route.uri.toList := by
  have hunder : base ≠ "" →
      route.uri = base ∨ ∃ rest, route.uri.toList = base.toList ++ '/' :: rest := by
    intro hbase
    by_contra hout
    rw [isDropped_iff.mpr (.inr (.inr ⟨hbase, hout⟩))] at hkept
    cases hkept
  rw [relativeUri]
  split
  · have hroot : "/".toList = ['/'] := String.toList_ofList
    obtain ⟨rest, hrest⟩ := List.head?_eq_some_iff.mp hslash
    rw [hroot, hrest]
    exact ⟨rfl, List.IsPrefix.isInfix ⟨rest, rfl⟩⟩
  · next hrest =>
      rw [String.toList_ofList]
      by_cases hbase : base = ""
      · rw [hbase]
        exact ⟨hslash, List.infix_refl _⟩
      · rcases hunder hbase with huri | ⟨rest, huri⟩
        · rw [huri, Text.dropHead?_eq_some_iff.mpr (List.append_nil _).symm] at hrest
          exact absurd rfl hrest
        · rw [Text.dropHead?_eq_some_iff.mpr huri, Option.getD_some, huri]
          exact ⟨rfl, (List.suffix_append _ _).isInfix⟩

/-- The path of a kept route with a normalized address, in which no brace has two marks
before it. -/
theorem isPath_pathKey (hkept : a.isDropped base route = false)
    (hnormalized : ∃ uri, route.uri = Route.normalizeUri uri)
    (hmarks : ¬ ['?', '?', '\x7d'] <:+: route.uri.toList) :
    IsPath (pathKey (relativeUri base route.uri)) := by
  have hslash : route.uri.toList.head? = some '/' := by
    obtain ⟨uri, huri⟩ := hnormalized
    rw [huri, Route.head?_normalizeUri]
  have hcolon : ¬ ∃ c, c ≠ '/' ∧ ['/', ':', c] <:+: route.uri.toList := by
    rw [← Text.exists_isColonName_iff hslash]
    rintro ⟨segment, hsegment, hname⟩
    obtain ⟨uri, huri⟩ := hnormalized
    rw [huri] at hsegment
    exact Route.not_isColonName_of_mem_normalizeUri hsegment hname
  obtain ⟨hhead, hpart⟩ := relativeUri_of_kept hkept hslash
  have hreplaced : Text.Replaced ['?', '\x7d'] ['\x7d'] (relativeUri base route.uri).toList
      (pathKey (relativeUri base route.uri)).toList := by
    rw [pathKey, String.toList_ofList]
    exact Text.replaced_replaceAll (List.cons_ne_nil _ _) _ _
  have hswaps : Text.KeepSegments fun old new => old = ['?', '\x7d'] ∧ new = ['\x7d'] := by
    rintro old new ⟨rfl, rfl⟩
    exact ⟨⟨'?', _, rfl, by decide⟩, ⟨'\x7d', _, rfl, by decide⟩, by decide⟩
  refine isPath_iff.mpr ⟨?_, ?_, ?_⟩
  · exact hreplaced.edited.head?_eq_slash hswaps hhead
  · exact fun hin => hmarks ((hreplaced.isInfix_marks hin).trans hpart)
  · intro hin
    obtain ⟨c, hc, hold⟩ := hreplaced.edited.exists_isInfix_colon hswaps hin
    exact hcolon ⟨c, hc, hold.trans hpart⟩

end Assembly

/-- A documentation that gives path parameters names without slashes and marks. -/
def Documented.NamesInSegments (d : Documented) : Prop :=
  ∀ overrides ∈ d.overrides, ∀ override ∈ overrides, ∀ name ∈ PathOverride.name? override,
    '/' ∉ name.toList ∧ '?' ∉ name.toList

instance : DecidablePred Documented.NamesInSegments := fun d =>
  inferInstanceAs (Decidable (∀ overrides ∈ d.overrides, ∀ override ∈ overrides,
    ∀ name ∈ PathOverride.name? override, '/' ∉ name.toList ∧ '?' ∉ name.toList))

namespace Application

open Assembly

/-- The paths of a document start with a slash, have no mark before a closing brace and no
segment that is a colon with a name behind it, if the addresses are normalized and none has
two marks before a brace. -/
theorem isPath_of_mem_paths {app : Application} {a : Assembly} {filter : Option String}
    {document : Document} {warnings : List Warning}
    (hnormalized : ∀ route ∈ app.routes, ∃ uri, route.uri = Route.normalizeUri uri)
    (hmarks : ∀ route ∈ app.routes, ¬ ['?', '?', '\x7d'] <:+: route.uri.toList)
    (hnames : ∀ route ∈ app.routes, ∀ d,
      Documented.ofHandler a route.uri (route.action.bind app.resolve) = .ok d →
        d.NamesInSegments)
    (h : app.documentOf a filter = .ok (document, warnings)) :
    ∀ key ∈ Dict.keys document.paths, IsPath key := by
  obtain ⟨schemas, draft, -, hdraft, rfl⟩ := documentUnder_eq_ok h
  have hkeys : ∀ entry ∈ draft.paths, IsPath entry.1 := by
    intro entry hentry
    have hfind := Dict.mem_keys_iff.mp (List.mem_map_of_mem hentry)
    obtain ⟨route, hroute, hkept, hkey⟩ := (isSome_find?_draft hdraft entry.1).mp hfind
    rw [← hkey]
    exact isPath_pathKey hkept (hnormalized route hroute) (hmarks route hroute)
  have hchanges : ∀ change ∈ draft.changes, IsPath change.1 →
      IsPath (PathChanges.renamed change.1 change.2) := by
    intro change hchange hpath
    obtain ⟨d, ⟨route, hroute, -, -, method, -, hd⟩, hoverrides⟩ :=
      (from_draft hdraft).changes change hchange
    obtain ⟨documented, _, _, hofHandler, _, _, rfl⟩ := operation_eq_ok hd
    apply hpath.rename
    intro name hname
    obtain ⟨override, hoverride, heq⟩ := List.mem_map.mp hname
    exact hnames route hroute documented hofHandler change.2 hoverrides override hoverride name heq
  rw [Dict.keys, List.forall_mem_map]
  exact PathChanges.forall_keys_apply hchanges hkeys

/-- A placeholder that gets another name and one that loses its mark, a colon inside a segment,
and the address of the prefix itself. -/
theorem isPath_of_mem_paths_pets :
    let a : Assembly := { settings := {}, builders := {}, entities := {}, now := ⟨"", ""⟩ }
    let app : Application :=
      { routes :=
          [{ uri := "/api/pets/\x7bid\x7d/\x7btoy?\x7d", methods := [.get], action := some "toy" },
            { uri := "/api/pets:all", methods := [.get] }, { uri := "/api", methods := [.get] }]
        resolve := fun _ => some
          { comment := some "@Request(\x7b\"pathParams\": [\x7b\"name\": \":pet\"\x7d]\x7d)" } }
    (∀ route ∈ app.routes, ∃ uri, route.uri = Route.normalizeUri uri) ∧
    (∀ route ∈ app.routes, ¬ ['?', '?', '\x7d'] <:+: route.uri.toList) ∧
    (∀ route ∈ app.routes, ∀ d,
      Documented.ofHandler a route.uri (route.action.bind app.resolve) = .ok d →
        d.NamesInSegments) ∧
    ∃ made, app.documentOf a none = .ok made ∧
      Dict.keys made.1.paths = ["/", "/pets/\x7b:pet\x7d/\x7btoy\x7d", "/pets:all"] ∧
      ∀ key ∈ Dict.keys made.1.paths, IsPath key := by
  intro a app
  have hfixed : ∀ route ∈ app.routes, route.uri = Route.normalizeUri route.uri := by
    decide +kernel
  have hnormalized : ∀ route ∈ app.routes, ∃ uri, route.uri = Route.normalizeUri uri :=
    fun route hroute => ⟨route.uri, hfixed route hroute⟩
  have hmarks : ∀ route ∈ app.routes, ¬ ['?', '?', '\x7d'] <:+: route.uri.toList := by
    decide +kernel
  have hnames : ∀ route ∈ app.routes, ∀ d,
      Documented.ofHandler a route.uri (route.action.bind app.resolve) = .ok d →
        d.NamesInSegments := by
    decide +kernel
  obtain ⟨made, hmade, hkeys⟩ : ∃ made, app.documentOf a none = .ok made ∧
      Dict.keys made.1.paths = ["/", "/pets/\x7b:pet\x7d/\x7btoy\x7d", "/pets:all"] := by
    decide +kernel
  refine ⟨hnormalized, hmarks, hnames, made, hmade, hkeys, ?_⟩
  exact isPath_of_mem_paths hnormalized hmarks hnames hmade

/-- Of two marks before a brace one is left, also where there is no placeholder. -/
theorem not_isPath_marks :
    let a : Assembly := { settings := {}, builders := {}, entities := {}, now := ⟨"", ""⟩ }
    let app : Application := { routes := [{ uri := "/api/a??\x7d", methods := [.get] }] }
    (∀ route ∈ app.routes, route.uri = Route.normalizeUri route.uri ∧
      Template.placeholders route.uri = []) ∧
    (∀ route ∈ app.routes, ∀ d,
      Documented.ofHandler a route.uri (route.action.bind app.resolve) = .ok d →
        d.NamesInSegments) ∧
    ∃ made, app.documentOf a none = .ok made ∧
      ¬ ∀ key ∈ Dict.keys made.1.paths, IsPath key := by
  decide +kernel

end Application

end ApiDoc
