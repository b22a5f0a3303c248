import Phrasebook.Proofs.Json.Inside

/-! # Documents that were read

A repeated name keeps its first place, so that the objects of every document that was read have distinct
names.
-/

namespace Phrasebook.Json

mutual

theorem Written.tidy_of_value? {written : Written} {depth : Nat} {value : Json}
    (h : written.value? depth = some value) : value.Tidy := by
  cases written with
  | null =>
    cases h
    exact throughout_scalar rfl rfl
  | bool b =>
    cases h
    exact throughout_scalar rfl rfl
  | number n =>
    obtain ⟨_, -, rfl⟩ := Option.map_eq_some_iff.mp h
    exact throughout_scalar rfl rfl
  | string s =>
    obtain ⟨_, -, rfl⟩ := Option.map_eq_some_iff.mp h
    exact throughout_scalar rfl rfl
  | array items =>
    cases depth with
    | zero => cases h
    | succ depth =>
      obtain ⟨values, hvalues, rfl⟩ := Option.map_eq_some_iff.mp h
      exact (throughout_array_iff _).mpr (Written.tidy_of_values? hvalues)
  | object members =>
    cases depth with
    | zero => cases h
    | succ depth =>
      obtain ⟨pairs, hpairs, rfl⟩ := Option.map_eq_some_iff.mp h
      exact (throughout_object_iff _).mpr
        ⟨Keyed.keys_ofPairs_nodup pairs, Keyed.forall_mem_ofPairs (Written.tidy_of_memberValues? hpairs)⟩

theorem Written.tidy_of_values? {items : List Written} {depth : Nat} {values : List Json}
    (h : Written.values? depth items = some values) : ∀ value ∈ values, value.Tidy := by
  cases items with
  | nil =>
    cases h
    simp
  | cons item rest =>
    rw [Written.values?] at h
    obtain ⟨value, hvalue, h⟩ := Option.bind_eq_some_iff.mp h
    obtain ⟨values, hvalues, h⟩ := Option.bind_eq_some_iff.mp h
    cases h
    exact List.forall_mem_cons.mpr ⟨Written.tidy_of_value? hvalue, Written.tidy_of_values? hvalues⟩

theorem Written.tidy_of_memberValues? {members : List (Option String × Written)} {depth : Nat}
    {pairs : List (String × Json)} (h : Written.memberValues? depth members = some pairs) :
    ∀ pair ∈ pairs, pair.2.Tidy := by
  cases members with
  | nil =>
    cases h
    simp
  | cons member rest =>
    obtain ⟨key, written⟩ := member
    rw [Written.memberValues?] at h
    obtain ⟨key, -, h⟩ := Option.bind_eq_some_iff.mp h
    obtain ⟨value, hvalue, h⟩ := Option.bind_eq_some_iff.mp h
    obtain ⟨pairs, hpairs, h⟩ := Option.bind_eq_some_iff.mp h
    cases h
    exact List.forall_mem_cons.mpr ⟨Written.tidy_of_value? hvalue, Written.tidy_of_memberValues? hpairs⟩

end

/-- The objects of a document that was read have distinct names. -/
theorem tidy_of_parse? {text : String} {value : Json} (h : parse? text = some value) : value.Tidy := by
  obtain ⟨written, -, h⟩ := Option.bind_eq_some_iff.mp h
  exact Written.tidy_of_value? h

end Phrasebook.Json
