import Phrasebook.Keyed
import Mathlib.Data.List.Nodup

/-! # Associations with distinct keys

Changing the value of a key keeps the keys distinct, and with distinct keys the pairs of an association are
exactly what looking up finds.
-/

namespace Phrasebook.Keyed

variable {α β : Type}

theorem keys_cons (key : String) (value : α) (rest : Keyed α) :
    Keyed.keys ((key, value) :: rest) = key :: rest.keys := rfl

theorem get?_cons_self (key : String) (value : α) (rest : Keyed α) :
    Keyed.get? ((key, value) :: rest) key = some value := if_pos rfl

theorem mem_of_get? {pairs : Keyed α} {key : String} {value : α} (h : pairs.get? key = some value) :
    (key, value) ∈ pairs := by
  induction pairs with
  | nil => cases h
  | cons pair rest ih =>
    rw [get?] at h
    split at h
    · rename_i hkey
      cases h
      rw [← hkey]
      exact List.mem_cons_self
    · exact List.mem_cons_of_mem _ (ih h)

theorem get?_eq_none_iff (pairs : Keyed α) (key : String) : pairs.get? key = none ↔ key ∉ pairs.keys := by
  induction pairs with
  | nil => simp [get?, keys]
  | cons pair rest ih =>
    obtain ⟨k, v⟩ := pair
    rw [get?, keys_cons, List.mem_cons, not_or, ← ih]
    by_cases hk : k = key
    · simp [hk]
    · simp [hk, Ne.symm hk]

theorem has_iff (pairs : Keyed α) (key : String) : pairs.has key = true ↔ key ∈ pairs.keys := by
  rw [has, Option.isSome_iff_ne_none, ne_eq, get?_eq_none_iff, not_not]

theorem get?_eq_some_iff {pairs : Keyed α} (hkeys : pairs.keys.Nodup) (key : String) (value : α) :
    pairs.get? key = some value ↔ (key, value) ∈ pairs := by
  refine ⟨mem_of_get?, fun h => ?_⟩
  induction pairs with
  | nil => cases h
  | cons pair rest ih =>
    obtain ⟨k, v⟩ := pair
    rw [keys_cons, List.nodup_cons] at hkeys
    rw [get?]
    rcases List.mem_cons.mp h with heq | hrest
    · cases heq
      exact if_pos rfl
    · rw [if_neg, ih hkeys.2 hrest]
      rintro rfl
      exact hkeys.1 (List.mem_map_of_mem (f := (·.1)) hrest)

theorem eq_of_mem {pairs : Keyed α} (hkeys : pairs.keys.Nodup) {key : String} {first second : α}
    (hfirst : (key, first) ∈ pairs) (hsecond : (key, second) ∈ pairs) : first = second := by
  have hget := (get?_eq_some_iff hkeys key first).mpr hfirst
  rw [(get?_eq_some_iff hkeys key second).mpr hsecond] at hget
  exact (Option.some.inj hget).symm

theorem nodup_keys_alter {pairs : Keyed α} (hkeys : pairs.keys.Nodup) (key : String)
    (f : Option α → α) : (pairs.alter key f).keys.Nodup := by
  rw [keys_alter]
  split
  · exact hkeys
  · rename_i hhas
    rw [has_iff] at hhas
    simpa [List.nodup_append] using ⟨hkeys, fun k hk heq => hhas (heq ▸ hk)⟩

theorem get?_append (first second : Keyed α) (key : String) :
    Keyed.get? (first ++ second) key = (first.get? key).or (second.get? key) := by
  induction first with
  | nil => rfl
  | cons pair rest ih =>
    rw [List.cons_append, get?, get?]
    split
    · rfl
    · exact ih

theorem alter_of_not_mem {pairs : Keyed α} {key : String} (h : key ∉ pairs.keys) (f : Option α → α) :
    pairs.alter key f = pairs ++ [(key, f none)] := by
  induction pairs with
  | nil => rfl
  | cons pair rest ih =>
    rw [keys_cons, List.mem_cons, not_or] at h
    rw [alter, if_neg (Ne.symm h.1), ih h.2, List.cons_append]

theorem put_of_not_mem {pairs : Keyed α} {key : String} (h : key ∉ pairs.keys) (value : α) :
    pairs.put key value = pairs ++ [(key, value)] := alter_of_not_mem h _

theorem exists_eq_append_of_get? {pairs : Keyed α} {key : String} {present : α}
    (h : pairs.get? key = some present) :
    ∃ before after, pairs = before ++ (key, present) :: after ∧
      ∀ value, pairs.put key value = before ++ (key, value) :: after := by
  induction pairs with
  | nil => cases h
  | cons pair rest ih =>
    obtain ⟨k, v⟩ := pair
    rw [get?] at h
    by_cases hk : k = key
    · rw [if_pos hk] at h
      cases h
      subst hk
      exact ⟨[], rest, rfl, fun value => by rw [put, alter, if_pos rfl, List.nil_append]⟩
    · rw [if_neg hk] at h
      obtain ⟨before, after, heq, hput⟩ := ih h
      refine ⟨(k, v) :: before, after, by rw [heq, List.cons_append], fun value => ?_⟩
      rw [put, alter, if_neg hk, ← put, hput, List.cons_append]

/-- Setting new, distinct keys one after the other appends their pairs. -/
theorem foldl_put_append (pairs more : Keyed α) (h : (pairs ++ more).keys.Nodup) :
    more.foldl (fun acc pair => acc.put pair.1 pair.2) pairs = pairs ++ more := by
  induction more generalizing pairs with
  | nil => simp
  | cons pair rest ih =>
    have hpair : pair.1 ∉ Keyed.keys pairs := by
      intro hmem
      simp only [keys, List.map_append, List.map_cons, List.nodup_append] at h
      exact h.2.2 _ hmem _ List.mem_cons_self rfl
    rw [List.foldl_cons, put_of_not_mem hpair, ih]
    · simp
    · simpa using h

theorem keys_ofPairs_nodup (pairs : List (String × α)) : (ofPairs pairs).keys.Nodup := by
  have step (acc : Keyed α) (h : acc.keys.Nodup) :
      (pairs.foldl (fun acc pair => put acc pair.1 pair.2) acc).keys.Nodup := by
    induction pairs generalizing acc with
    | nil => exact h
    | cons pair rest ih => exact ih _ (nodup_keys_alter h _ _)
  exact step [] List.nodup_nil

theorem forall_mem_put {holds : α → Prop} {pairs : Keyed α} (h : ∀ pair ∈ pairs, holds pair.2) (key : String)
    {value : α} (hvalue : holds value) : ∀ pair ∈ pairs.put key value, holds pair.2 := by
  induction pairs with
  | nil => simpa [put, alter] using hvalue
  | cons pair rest ih =>
    obtain ⟨hhere, hrest⟩ := List.forall_mem_cons.mp h
    rw [put, alter]
    split
    · exact List.forall_mem_cons.mpr ⟨hvalue, hrest⟩
    · exact List.forall_mem_cons.mpr ⟨hhere, ih hrest⟩

theorem forall_mem_ofPairs {holds : α → Prop} {pairs : List (String × α)}
    (h : ∀ pair ∈ pairs, holds pair.2) : ∀ pair ∈ ofPairs pairs, holds pair.2 := by
  have step (acc : Keyed α) (hacc : ∀ pair ∈ acc, holds pair.2) :
      ∀ pair ∈ pairs.foldl (fun acc pair => put acc pair.1 pair.2) acc, holds pair.2 := by
    induction pairs generalizing acc with
    | nil => exact hacc
    | cons pair rest ih =>
      obtain ⟨hhere, hrest⟩ := List.forall_mem_cons.mp h
      exact ih hrest _ (forall_mem_put hacc pair.1 hhere)
  exact step [] (by simp)

end Phrasebook.Keyed
