import Phrasebook.Group.Basic
import Phrasebook.Proofs.Message.Flatten
import Phrasebook.Proofs.Message.Gather
import Phrasebook.Proofs.Outcome

/-! # The analysis of a group

Documents are analysed exactly when none of them spells a displayed path twice, and the catalog is then the
gathering of all their records.
-/

namespace Phrasebook

open Message

namespace Group

def recordsOf (documents : List (String × Json)) : List (String × List Record) :=
  documents.map fun document => (document.1, Record.ofDocument document.2)

theorem records_eq_ok_iff (locale : String) (document : Json) (rs : List Record) :
    records locale document = .ok rs ↔
      repeatedKey? (Record.ofDocument document) = none ∧ rs = Record.ofDocument document := by
  rw [records]
  cases repeatedKey? (Record.ofDocument document) with
  | none => simp [eq_comm]
  | some path => simp

theorem mapM_records_eq_ok_iff (documents : List (String × Json)) (all : List (String × List Record)) :
    documents.mapM (fun (locale, document) => do
      return (locale, ← records locale document)) = .ok all ↔
      (∀ document ∈ documents, repeatedKey? (Record.ofDocument document.2) = none) ∧
        all = recordsOf documents := by
  rw [Outcome.mapM_eq_ok_iff]
  induction documents generalizing all with
  | nil => simp [recordsOf]
  | cons document rest ih =>
    rw [List.forall₂_cons_left_iff, List.forall_mem_cons]
    constructor
    · rintro ⟨pair, tail, hpair, htail, rfl⟩
      obtain ⟨rs, hrs, heq⟩ := Outcome.bind_eq_ok_iff.mp hpair
      obtain ⟨hnone, rfl⟩ := (records_eq_ok_iff _ _ _).mp hrs
      obtain ⟨hrest, rfl⟩ := (ih tail).mp htail
      cases heq
      exact ⟨⟨hnone, hrest⟩, rfl⟩
    · rintro ⟨⟨hnone, hrest⟩, rfl⟩
      refine ⟨_, recordsOf rest, ?_, (ih _).mpr ⟨hrest, rfl⟩, rfl⟩
      exact Outcome.bind_eq_ok_iff.mpr ⟨_, (records_eq_ok_iff _ _ _).mpr ⟨hnone, rfl⟩, rfl⟩

theorem analyze_eq_ok_iff (documents : List (String × Json)) (analysis : Analysis) :
    analyze documents = .ok analysis ↔
      (∀ document ∈ documents, repeatedKey? (Record.ofDocument document.2) = none) ∧
        analysis =
          { catalog := .gather (recordsOf documents)
            counts := (recordsOf documents).map fun (locale, rs) => (locale, rs.length) } := by
  rw [analyze, Outcome.bind_eq_ok_iff]
  simp only [mapM_records_eq_ok_iff]
  constructor
  · rintro ⟨all, ⟨hnone, rfl⟩, heq⟩
    cases heq
    exact ⟨hnone, rfl⟩
  · rintro ⟨hnone, rfl⟩
    exact ⟨_, ⟨hnone, rfl⟩, rfl⟩

theorem nodup_keys_of_analyze {documents : List (String × Json)} {analysis : Analysis}
    (h : analyze documents = .ok analysis) : (Keyed.keys analysis.catalog.entries).Nodup := by
  obtain ⟨-, rfl⟩ := (analyze_eq_ok_iff documents analysis).mp h
  exact Catalog.keys_gather_nodup _

theorem mem_contributions_recordsOf {documents : List (String × Json)} {locale : String}
    {record : Record} :
    (locale, record) ∈ contributions (recordsOf documents) ↔
      ∃ document, (locale, document) ∈ documents ∧ record ∈ Record.ofDocument document := by
  rw [mem_contributions]
  simp only [recordsOf, List.mem_map, Prod.exists, Prod.mk.injEq]
  constructor
  · rintro ⟨rs, ⟨l, document, hmem, rfl, rfl⟩, hrecord⟩
    exact ⟨document, hmem, hrecord⟩
  · rintro ⟨document, hmem, hrecord⟩
    exact ⟨_, ⟨locale, document, hmem, rfl, rfl⟩, hrecord⟩

end Group

end Phrasebook
