import Phrasebook.Proofs.Keyed
import Phrasebook.Proofs.Outcome
import Phrasebook.Registry

/-! # What a registry remembers

A claim that is accepted leaves earlier owners in place and its own owner with the name. So claims that are
accepted one after the other have usable names, and equal names have one owner.
-/

namespace Phrasebook.Registry

theorem claimIn_of_invalid {name : String} (h : Identifier.isValid name = false) (registry : Registry)
    (owner : String) : registry.claimIn name owner = (.error (.invalid name owner), registry) := by
  rw [claimIn, claim, h]
  rfl

theorem claimIn_of_valid {name : String} (h : Identifier.isValid name = true) (registry : Registry) (owner : String) :
    registry.claimIn name owner =
      match Keyed.get? registry name with
      | some first => (if first = owner then .ok () else .error (.collision name first owner), registry)
      | none => (.ok (), registry ++ [(name, owner)]) := by
  rw [claimIn, claim, h]
  change StateT.run (ExceptT.run (match Keyed.get? registry name with
    | some first => if first ≠ owner then throw (.collision name first owner) else pure ()
    | none => modify fun registry => registry ++ [(name, owner)] : ExceptT Failure (StateM Registry) Unit)) registry = _
  cases Keyed.get? registry name with
  | none => rfl
  | some first =>
    by_cases hfirst : first = owner
    · simp only [hfirst, ne_eq, not_true_eq_false, if_false, if_true]
      rfl
    · simp only [hfirst, ne_eq, not_false_eq_true, if_false, if_true]
      rfl

theorem register_of_invalid {name : String} (h : Identifier.isValid name = false) (registry : Registry)
    (owner : String) : registry.register name owner = .error (.invalid name owner) := by
  rw [register, claimIn_of_invalid h]

theorem register_of_valid {name : String} (h : Identifier.isValid name = true) (registry : Registry) (owner : String) :
    registry.register name owner =
      match Keyed.get? registry name with
      | some first => if first = owner then .ok registry else .error (.collision name first owner)
      | none => .ok (registry ++ [(name, owner)]) := by
  rw [register, claimIn_of_valid h]
  cases Keyed.get? registry name with
  | none => rfl
  | some first => by_cases hfirst : first = owner <;> simp [hfirst]

/-- A claim in a kept registry ends as the claim that returns the next registry does, and leaves the registry as it
is when it fails. -/
theorem claimIn_eq (registry : Registry) (name owner : String) :
    claimIn registry name owner =
      match registry.register name owner with
      | .ok next => (.ok (), next)
      | .error failure => (.error failure, registry) := by
  cases hvalid : Identifier.isValid name with
  | false => rw [register_of_invalid hvalid, claimIn_of_invalid hvalid]
  | true =>
    rw [register_of_valid hvalid, claimIn_of_valid hvalid]
    cases Keyed.get? registry name with
    | none => rfl
    | some first => by_cases hfirst : first = owner <;> simp [hfirst]

theorem register_eq_ok_iff (registry next : Registry) (name owner : String) :
    registry.register name owner = .ok next ↔
      Identifier.isValid name = true ∧
        (Keyed.get? registry name = some owner ∧ next = registry ∨
          Keyed.get? registry name = none ∧ next = registry ++ [(name, owner)]) := by
  cases hvalid : Identifier.isValid name with
  | false => simp [register_of_invalid hvalid]
  | true =>
    rw [register_of_valid hvalid]
    cases Keyed.get? registry name with
    | none => simp [eq_comm]
    | some first =>
      by_cases hfirst : first = owner
      · simp [hfirst, eq_comm]
      · simp [hfirst]

theorem register_eq_error_iff (registry : Registry) (name owner : String) (failure : Failure) :
    registry.register name owner = .error failure ↔
      Identifier.isValid name = false ∧ failure = .invalid name owner ∨
        ∃ first, Identifier.isValid name = true ∧ Keyed.get? registry name = some first ∧ first ≠ owner ∧
          failure = .collision name first owner := by
  cases hvalid : Identifier.isValid name with
  | false => simp [register_of_invalid hvalid, eq_comm]
  | true =>
    rw [register_of_valid hvalid]
    cases Keyed.get? registry name with
    | none => simp
    | some first =>
      by_cases hfirst : first = owner
      · simp [hfirst]
      · simp [hfirst, eq_comm (b := failure)]

theorem get?_register {registry next : Registry} {name owner : String}
    (h : registry.register name owner = .ok next) : Keyed.get? next name = some owner := by
  obtain ⟨-, ⟨hget, rfl⟩ | ⟨hget, rfl⟩⟩ := (register_eq_ok_iff _ _ _ _).mp h
  · exact hget
  · rw [Keyed.get?_append, hget, Option.none_or, Keyed.get?_cons_self]

theorem get?_register_of_some {registry next : Registry} {name owner : String}
    (h : registry.register name owner = .ok next) {other first : String}
    (hother : Keyed.get? registry other = some first) : Keyed.get? next other = some first := by
  obtain ⟨-, ⟨hget, rfl⟩ | ⟨hget, rfl⟩⟩ := (register_eq_ok_iff _ _ _ _).mp h
  · exact hother
  · rw [Keyed.get?_append, hother, Option.some_or]

theorem get?_registerAll {registry last : Registry} {claims : List (String × String)}
    (h : registry.registerAll claims = .ok last) :
    (∀ name owner, Keyed.get? registry name = some owner → Keyed.get? last name = some owner) ∧
      ∀ claim ∈ claims, Identifier.isValid claim.1 = true ∧ Keyed.get? last claim.1 = some claim.2 := by
  induction claims generalizing registry with
  | nil =>
    cases h
    simp
  | cons claim rest ih =>
    obtain ⟨name, owner⟩ := claim
    rw [registerAll, List.foldlM_cons, Outcome.bind_eq_ok_iff] at h
    obtain ⟨next, hnext, hrest⟩ := h
    obtain ⟨hkept, hclaims⟩ := ih hrest
    refine ⟨fun name owner hget => hkept _ _ (get?_register_of_some hnext hget), ?_⟩
    rw [List.forall_mem_cons]
    refine ⟨⟨((register_eq_ok_iff _ _ _ _).mp hnext).1, ?_⟩, hclaims⟩
    exact hkept _ _ (get?_register hnext)

theorem owner_unique {registry last : Registry} {claims : List (String × String)}
    (h : registry.registerAll claims = .ok last) {name first second : String}
    (hfirst : (name, first) ∈ claims) (hsecond : (name, second) ∈ claims) : first = second := by
  have hget := ((get?_registerAll h).2 _ hfirst).2
  rw [((get?_registerAll h).2 _ hsecond).2] at hget
  exact (Option.some.inj hget).symm

/-- When the names of each owner are distinct, so are the names of all accepted claims. -/
theorem nodup_names {registry last : Registry} {claims : List (String × String)}
    (h : registry.registerAll claims = .ok last)
    (howners : claims.Pairwise fun first second => first.2 = second.2 → first.1 ≠ second.1) :
    (claims.map (·.1)).Nodup := by
  rw [List.Nodup, List.pairwise_map]
  refine howners.imp_of_mem ?_
  rintro ⟨name, first⟩ ⟨other, second⟩ hfirst hsecond howner heq
  change name = other at heq
  subst heq
  exact howner (owner_unique h hfirst hsecond) rfl

end Phrasebook.Registry
