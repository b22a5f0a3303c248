import Mathlib
import Phrasebook.Proofs.Accessor
import Phrasebook.Proofs.Group.Analysis
import Phrasebook.Proofs.Message.SourceOrder
import Phrasebook.Proofs.Template.Substitution

/-! # Calls as substitution

A call gives the value of the locale with every placeholder replaced that has a value, in a string or in the
strings that stand directly in a list. The entry declares the placeholders of all locales, among them those of the
resolved value, and is an array root as soon as one locale has a list. So neither the declared names nor the
shortcuts for texts without placeholders can be seen in the result.
-/

namespace Phrasebook

open Message

namespace Json

variable {f g : String → String} {value : Json}

def mapText (f : String → String) : Json → Json
  | .string text => .string (f text)
  | value => value

/-- Changes the texts in which placeholders are looked for. -/
def mapTexts (f : String → String) : Json → Json
  | .array items => .array (items.map (mapText f))
  | value => mapText f value

theorem mapText_congr (h : ∀ text, value = .string text → f text = g text) : mapText f value = mapText g value := by
  cases value with
  | string text => rw [mapText, mapText, h text rfl]
  | _ => rfl

theorem mapText_self : mapText (fun text => text) = id := by
  funext value
  cases value <;> rfl

theorem mapTexts_congr (h : ∀ text ∈ value.texts, f text = g text) : mapTexts f value = mapTexts g value := by
  cases value with
  | string text => exact congrArg Json.string (h text (List.mem_singleton_self text))
  | array items =>
    have hitems : ∀ item ∈ items, mapText f item = mapText g item := by
      intro item hitem
      refine mapText_congr fun text htext => h text ?_
      exact List.mem_filterMap.mpr ⟨item, hitem, by rw [htext, text?]⟩
    rw [mapTexts, mapTexts, List.map_congr_left hitems]
  | _ => rfl

theorem mapTexts_eq_self (h : ∀ text ∈ value.texts, f text = text) : mapTexts f value = value := by
  rw [mapTexts_congr h]
  cases value with
  | array items => rw [mapTexts, mapText_self, List.map_id]
  | _ => rfl

end Json

namespace Accessor

variable {entry : Entry} {values : Keyed String} {value : Json}

theorem any_needsFilling {items : List Json} {declared : List String} {text : String}
    (h : text ∈ (Json.array items).texts) (hmentions : Template.mentions text declared = true) :
    items.any (needsFilling declared) = true := by
  obtain ⟨item, hitem, htext⟩ := List.mem_filterMap.mp h
  cases item with
  | string text' =>
    cases htext
    exact List.any_eq_true.mpr ⟨_, hitem, hmentions⟩
  | _ => cases htext

theorem fillString_eq_mapText (declared : List String) :
    fillString declared values = Json.mapText fun text => Template.fill text declared values := by
  funext value
  cases value <;> rfl

/-- A list in which no string mentions a declared name is left alone, and substitution would not change it. -/
theorem fillValue_eq_mapTexts (hroot : value.isArray = true → entry.isArrayRoot = true) :
    fillValue entry values value = value.mapTexts fun text => Template.fill text entry.params values := by
  cases value with
  | array items =>
    rw [fillValue, hroot rfl, Bool.true_and]
    split
    · rw [Json.mapTexts, fillString_eq_mapText]
    · rename_i hneeds
      refine (Json.mapTexts_eq_self fun text htext => Template.fill_eq_self fun name hname hsupplied => ?_).symm
      have hmentions : Template.mentions text entry.params = true := by
        by_contra hno
        exact Template.mentions_eq_false_iff.mp (Bool.eq_false_iff.mpr hno) name hname hsupplied.1
      exact hneeds (any_needsFilling htext hmentions)
  | _ => rfl

/-- Without declared names the value is left alone, and substitution would not change it. -/
theorem filled_eq_mapTexts (hroot : value.isArray = true → entry.isArrayRoot = true) :
    filled entry (some values) value = value.mapTexts fun text => Template.fill text entry.params values := by
  rw [filled]
  split
  · rename_i hempty
    refine (Json.mapTexts_eq_self fun text _ => Template.fill_eq_self fun name _ hsupplied => ?_).symm
    rw [List.isEmpty_iff.mp hempty] at hsupplied
    exact List.not_mem_nil hsupplied.1
  · exact fillValue_eq_mapTexts hroot

end Accessor

namespace Group

variable {documents : List (String × Json)} {key : String} {entry : Entry}

theorem declares_of_mem_values (hentry : (key, entry) ∈ (Catalog.gather (recordsOf documents)).entries)
    {locale : String} {value : Json} (hvalue : (locale, value) ∈ entry.values) :
    (∀ text ∈ value.texts, ∀ name ∈ Template.names text, name ∈ entry.params) ∧
      (value.isArray = true → entry.isArrayRoot = true) := by
  obtain ⟨origin, record, hrecord, hkey, rfl⟩ := Catalog.mem_values_gather hentry hvalue
  obtain ⟨document, -, hflat⟩ := mem_contributions_recordsOf.mp hrecord
  obtain ⟨path, value, -, -, rfl⟩ := (Record.mem_ofDocument_iff _ _).mp hflat
  refine ⟨fun text htext name hname => ?_, fun harray => Catalog.isArrayRoot_gather hentry hrecord hkey harray⟩
  refine (Catalog.mem_params_gather_iff hentry name).mpr ⟨origin, _, hrecord, hkey, ?_⟩
  change name ∈ Record.placeholders value
  rw [Template.names_eq_eraseDups, List.mem_eraseDups] at hname
  rw [Record.placeholders_eq, List.mem_eraseDups]
  exact List.mem_flatMap.mpr ⟨text, htext, hname⟩

theorem exists_value?_of_resolve {defaultLocale : String} {lang ambient : Option String} {value : Json}
    (h : Accessor.resolve ⟨entry, defaultLocale⟩ lang ambient = some value) :
    ∃ locale, entry.value? locale = some value := by
  rcases Accessor.resolve_eq_some_iff.mp h with h | ⟨-, h⟩
  · exact ⟨_, h⟩
  · exact ⟨_, h⟩

/-- A call substitutes in the texts of the value it resolved to, whatever the entry declares. -/
theorem call_eq_mapTexts (hentry : (key, entry) ∈ (Catalog.gather (recordsOf documents)).entries)
    (defaultLocale : String) (lang : Option String) (params : Option (Keyed String)) (ambient : Option String) :
    Accessor.call ⟨entry, defaultLocale⟩ lang params ambient =
      (Accessor.resolve ⟨entry, defaultLocale⟩ lang ambient).map
        (Json.mapTexts (Template.substituteGiven params)) := by
  rw [Accessor.call_eq_map]
  refine Option.map_congr fun value hvalue => ?_
  cases params with
  | none => exact (Json.mapTexts_eq_self fun text _ => rfl).symm
  | some values =>
    obtain ⟨locale, hlocale⟩ := exists_value?_of_resolve hvalue
    obtain ⟨hdeclared, hroot⟩ := declares_of_mem_values hentry (Keyed.mem_of_get? hlocale)
    rw [Accessor.filled_eq_mapTexts hroot]
    exact Json.mapTexts_congr fun text htext => Template.fill_eq_substitute (hdeclared text htext)

/-- A call replaces every placeholder that has a value, in a string or in the strings of a list. -/
theorem call_eq_substitute {analysis : Analysis} (hanalysis : analyze documents = .ok analysis)
    (hentry : (key, entry) ∈ analysis.catalog.entries) (defaultLocale : String) (lang ambient : Option String) :
    Accessor.call ⟨entry, defaultLocale⟩ lang none ambient = Accessor.resolve ⟨entry, defaultLocale⟩ lang ambient ∧
      (∀ values, Accessor.call ⟨entry, defaultLocale⟩ lang (some values) ambient =
        (Accessor.resolve ⟨entry, defaultLocale⟩ lang ambient).map
          (Json.mapTexts fun text => Template.substitute text values)) ∧
      ∀ text values, Template.substitute text values = Template.fill text (Template.names text) values := by
  obtain ⟨-, rfl⟩ := (analyze_eq_ok_iff documents analysis).mp hanalysis
  refine ⟨?_, fun values => ?_, fun text values => (Template.fill_eq_substitute fun name hname => hname).symm⟩
  · rw [Accessor.call_eq_map]
    exact Option.map_id'
  · exact call_eq_mapTexts hentry defaultLocale lang (some values) ambient

/-- A message that is a list in the first locale, and in the second a string with a name more. -/
def extendedDocuments : List (String × Json) :=
  [("en", .object [("l", .array [.string "\x7bx\x7d"])]), ("es", .object [("l", .string "\x7by\x7d \x7bx\x7d")])]

set_option maxRecDepth 2000 in
theorem call_eq_substitute_mixed :
    ∃ analysis entry,
      analyze extendedDocuments = .ok analysis ∧
      ("l", entry) ∈ analysis.catalog.entries ∧ entry.isArrayRoot = true ∧ entry.params = ["x", "y"] ∧
      Accessor.call ⟨entry, "en"⟩ (some "es") none none = some (.string "\x7by\x7d \x7bx\x7d") ∧
      ∀ values, Accessor.call ⟨entry, "en"⟩ (some "es") (some values) none =
        some (.string (Template.substitute "\x7by\x7d \x7bx\x7d" values)) := by
  have hanalysis : analyze extendedDocuments =
      .ok ⟨⟨["en", "es"],
        [ ("l", ⟨[.key "l"], ["x", "y"], true, none,
            [("en", .array [.string "\x7bx\x7d"]), ("es", .string "\x7by\x7d \x7bx\x7d")]⟩),
          ("l[0]", ⟨[.key "l", .index 0], ["x"], false, some ⟨"l", 0⟩, [("en", .string "\x7bx\x7d")]⟩) ]⟩,
        [("en", 2), ("es", 1)]⟩ := by cbv
  obtain ⟨hnone, hsome, -⟩ := call_eq_substitute hanalysis List.mem_cons_self "en" (some "es") none
  exact ⟨_, _, hanalysis, List.mem_cons_self, rfl, rfl, hnone, hsome⟩

end Group

end Phrasebook
