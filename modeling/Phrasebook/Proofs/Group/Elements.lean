import Phrasebook.Proofs.Group.LocaleOrder
import Phrasebook.Proofs.Group.Substitution

/-! # Elements of lists as messages

A list and each of its elements are messages of their own. Where displayed paths can be read back, a locale has a
value for an element exactly when it has a list that reaches so far, so that both messages resolve to the same
locale: indexing the result of the list gives the result of the element.
-/

namespace Phrasebook

open Message
open Json (Reaches)

namespace Message

theorem Path.Plain.element {path : Path} (h : path.Plain) (position : Nat) : (path.element position).Plain := by
  intro name hname
  rcases List.mem_append.mp hname with hname | hname
  · exact h name hname
  · simp at hname

theorem Path.Keyed.element {path : Path} (h : path.Keyed) (position : Nat) : (path.element position).Keyed := by
  obtain ⟨name, rest, rfl⟩ := h
  exact ⟨name, rest ++ [.index position], rfl⟩

end Message

theorem Json.reaches_element_iff {document value : Json} {path : Path} {position : Nat} :
    Reaches document (path.element position) value ↔
      ∃ items, Reaches document path (.array items) ∧ items[position]? = some value := by
  constructor
  · intro h
    obtain ⟨middle, hpath, hstep⟩ := h.split
    cases hstep with
    | element hget hrest =>
      cases hrest
      exact ⟨_, hpath, hget⟩
  · rintro ⟨items, hpath, hget⟩
    exact hpath.append (.element hget (.here value))

namespace Group

variable {documents : List (String × Json)} {path : Path} {entry element : Entry}

theorem value?_eq_some_iff_reaches (hdocuments : Addressable documents) (hlocales : (Keyed.keys documents).Nodup)
    (hplain : path.Plain) (hkeyed : path.Keyed)
    (hentry : (path.display, entry) ∈ (Catalog.gather (recordsOf documents)).entries) {locale : String}
    {value : Json} :
    entry.value? locale = some value ↔
      value.isObject = false ∧ ∃ document, (locale, document) ∈ documents ∧ Reaches document path value := by
  rw [value?_eq_some_iff hlocales hdocuments.repeatedKey?_eq_none hentry]
  constructor
  · rintro ⟨record, hfound, rfl⟩
    obtain ⟨document, hdocument, hreach, hobject, -⟩ := hdocuments.reaches_at hplain hkeyed hfound
    exact ⟨hobject, document, hdocument, hreach⟩
  · rintro ⟨hobject, document, hdocument, hreach⟩
    have hrecord := (Record.mem_ofDocument_iff document _).mpr ⟨path, value, hreach, hobject, rfl⟩
    cases hfind : (Record.ofDocument document).find? fun record => record.key = path.display with
    | none => exact absurd (decide_eq_true rfl) (List.find?_eq_none.mp hfind _ hrecord)
    | some record =>
      have hfound := mem_found_iff.mpr ⟨document, hdocument, hfind⟩
      obtain ⟨document', hdocument', hreach', -⟩ := hdocuments.reaches_at hplain hkeyed hfound
      cases Keyed.eq_of_mem hlocales hdocument hdocument'
      exact ⟨record, hfound, (hdocuments.tidy _ hdocument).unique hreach' hreach⟩

theorem value?_element_iff (hdocuments : Addressable documents) (hlocales : (Keyed.keys documents).Nodup)
    (hplain : path.Plain) (hkeyed : path.Keyed) {position : Nat}
    (hentry : (path.display, entry) ∈ (Catalog.gather (recordsOf documents)).entries)
    (helement : (Path.display (path.element position), element) ∈ (Catalog.gather (recordsOf documents)).entries)
    {locale : String} {value : Json} :
    element.value? locale = some value ↔
      value.isObject = false ∧
        ∃ items, entry.value? locale = some (.array items) ∧ items[position]? = some value := by
  rw [value?_eq_some_iff_reaches hdocuments hlocales (hplain.element position) (hkeyed.element position) helement]
  simp only [value?_eq_some_iff_reaches hdocuments hlocales hplain hkeyed hentry, Json.reaches_element_iff]
  constructor
  · rintro ⟨hobject, document, hdocument, items, hreach, hget⟩
    exact ⟨hobject, items, ⟨rfl, document, hdocument, hreach⟩, hget⟩
  · rintro ⟨hobject, items, ⟨-, document, hdocument, hreach⟩, hget⟩
    exact ⟨hobject, document, hdocument, items, hreach, hget⟩

/-- Where a list resolves, its element resolves to the same locale. -/
theorem resolve_element (hdocuments : Addressable documents) (hlocales : (Keyed.keys documents).Nodup)
    (hplain : path.Plain) (hkeyed : path.Keyed) {position : Nat}
    (hentry : (path.display, entry) ∈ (Catalog.gather (recordsOf documents)).entries)
    (helement : (Path.display (path.element position), element) ∈ (Catalog.gather (recordsOf documents)).entries)
    {defaultLocale : String} {lang ambient : Option String} {items : List Json} {value : Json}
    (hresolve : Accessor.resolve ⟨entry, defaultLocale⟩ lang ambient = some (.array items))
    (hget : items[position]? = some value) (hobject : value.isObject = false) :
    Accessor.resolve ⟨element, defaultLocale⟩ lang ambient = some value := by
  have hvalue {locale : String} {value : Json} : element.value? locale = some value ↔ value.isObject = false ∧
      ∃ items, entry.value? locale = some (.array items) ∧ items[position]? = some value :=
    value?_element_iff hdocuments hlocales hplain hkeyed hentry helement
  rw [Accessor.resolve_eq_some_iff] at hresolve ⊢
  rcases hresolve with hactive | ⟨hnone, hdefault⟩
  · exact .inl (hvalue.mpr ⟨hobject, items, hactive, hget⟩)
  · refine .inr ⟨Option.eq_none_iff_forall_ne_some.mpr fun other hother => ?_,
      hvalue.mpr ⟨hobject, items, hdefault, hget⟩⟩
    obtain ⟨-, found, hfound, -⟩ := hvalue.mp hother
    cases (show none = some (Json.array found) from hnone.symm.trans hfound)

/-- Indexing the result of a list gives the result of the element. -/
theorem call_element (hdocuments : Addressable documents) (hlocales : (Keyed.keys documents).Nodup)
    {analysis : Analysis} (hanalysis : analyze documents = .ok analysis) {key : String}
    (hentry : analysis.catalog.get? key = some entry) {defaultLocale : String} {lang ambient : Option String}
    {items : List Json} {position : Nat} {value : Json}
    (hresolve : Accessor.resolve ⟨entry, defaultLocale⟩ lang ambient = some (.array items))
    (hget : items[position]? = some value) (harray : value.isArray = false) (hobject : value.isObject = false) :
    ∃ element, analysis.catalog.get? (key ++ "[" ++ toString position ++ "]") = some element ∧
      ∀ params, ∃ filled result,
        Accessor.call ⟨entry, defaultLocale⟩ lang params ambient = some (.array filled) ∧
          filled[position]? = some result ∧
          Accessor.call ⟨element, defaultLocale⟩ lang params ambient = some result := by
  have hkeys := nodup_keys_of_analyze hanalysis
  obtain ⟨hrecords, rfl⟩ := (analyze_eq_ok_iff documents analysis).mp hanalysis
  replace hentry := Keyed.mem_of_get? hentry
  obtain ⟨rfl, hplain, hkeyed, -⟩ := place_of_mem_entries hdocuments hlocales hrecords hentry
  obtain ⟨locale, hlist⟩ := exists_value?_of_resolve hresolve
  obtain ⟨-, document, hdocument, hreach⟩ :=
    (value?_eq_some_iff_reaches hdocuments hlocales hplain hkeyed hentry).mp hlist
  obtain ⟨element, helement⟩ := exists_entry_of_reaches hdocument
    (Json.reaches_element_iff.mpr ⟨items, hreach, hget⟩) hobject
  refine ⟨element, ?_, fun params => ?_⟩
  · rw [← Path.display_element hkeyed]
    exact (Keyed.get?_eq_some_iff hkeys _ _).mpr helement
  · have hvalue := resolve_element hdocuments hlocales hplain hkeyed hentry helement hresolve hget hobject
    refine ⟨_, _, by rw [call_eq_mapTexts hentry, hresolve, Option.map_some, Json.mapTexts], ?_, by
      rw [call_eq_mapTexts helement, hvalue, Option.map_some]⟩
    rw [List.getElem?_map, hget, Option.map_some]
    cases value with
    | array => cases harray
    | _ => rfl

def partedDocuments : List (String × Json) :=
  [("en", .object [("l", .array [.string "\x7bn\x7d", .string "\x7bm\x7d"])]), ("es", .object [("k", .string "z")])]

set_option maxRecDepth 2000 in
/-- The second element of a list, called in a locale that has other messages only. -/
theorem call_element_fallback :
    ∃ analysis entry element,
      Addressable partedDocuments ∧ (Keyed.keys partedDocuments).Nodup ∧ analyze partedDocuments = .ok analysis ∧
      analysis.catalog.get? "l" = some entry ∧
      Accessor.resolve ⟨entry, "en"⟩ (some "es") none =
        some (.array [.string "\x7bn\x7d", .string "\x7bm\x7d"]) ∧
      analysis.catalog.get? "l[1]" = some element ∧
      ∀ params, ∃ filled result,
        Accessor.call ⟨entry, "en"⟩ (some "es") params none = some (.array filled) ∧
          filled[1]? = some result ∧ Accessor.call ⟨element, "en"⟩ (some "es") params none = some result := by
  have hdocuments : Addressable partedDocuments := by
    refine ⟨by decide, ?_, ?_⟩
    · simp [partedDocuments, Json.Tidy, Json.throughout_object_iff, Json.throughout_array_iff, Keyed.keys,
        Json.throughout_string]
    · simp [partedDocuments, PlainNames, Json.throughout_object_iff, Json.throughout_array_iff, Keyed.keys,
        Json.throughout_string, PlainName, startsStep]
  have hanalysis : analyze partedDocuments =
      .ok ⟨⟨["en", "es"],
        [ ("l", ⟨[.key "l"], ["n", "m"], true, none,
            [("en", .array [.string "\x7bn\x7d", .string "\x7bm\x7d"])]⟩),
          ("l[0]", ⟨[.key "l", .index 0], ["n"], false, some ⟨"l", 0⟩, [("en", .string "\x7bn\x7d")]⟩),
          ("l[1]", ⟨[.key "l", .index 1], ["m"], false, some ⟨"l", 1⟩, [("en", .string "\x7bm\x7d")]⟩),
          ("k", ⟨[.key "k"], [], false, none, [("es", .string "z")]⟩) ]⟩,
        [("en", 3), ("es", 1)]⟩ := by cbv
  have hentry := Keyed.get?_cons_self "l" (⟨[.key "l"], ["n", "m"], true, none,
    [("en", .array [.string "\x7bn\x7d", .string "\x7bm\x7d"])]⟩ : Entry)
  have hget : [Json.string "\x7bn\x7d", .string "\x7bm\x7d"][1]? = some (.string "\x7bm\x7d") := rfl
  obtain ⟨element, helement, hcall⟩ := call_element hdocuments (by decide) hanalysis (hentry _)
    (show Accessor.resolve ⟨_, "en"⟩ (some "es") none = some (.array _) from rfl) hget rfl rfl
  exact ⟨_, _, element, hdocuments, by decide, hanalysis, hentry _, rfl, helement, hcall⟩

end Group

end Phrasebook
