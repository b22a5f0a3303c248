import Mathlib.Data.List.Infix
import Mathlib.Data.Set.Card
import Phrasebook.Proofs.Group.Exports

/-! # Histories of claims

A registry that is kept while claims are made, some of which fail, remembers of each name the owner that was
accepted first. A failing claim leaves it as it is. So the names and owners of a list of claims decide whether
they all succeed, and their order does not.
-/

namespace Phrasebook.Registry

/-- The registry after a history of claims, whether they succeeded or not. -/
def after (history : List (String × String)) : Registry :=
  history.foldl (fun registry call => (claimIn registry call.1 call.2).2) []

/-- Some call of a history claimed the name for the owner, and succeeded when it was made. -/
def Accepts (history : List (String × String)) (name owner : String) : Prop :=
  ∃ front back, history = front ++ (name, owner) :: back ∧ (claimIn (after front) name owner).1 = .ok ()

/-- The first call of a history that claimed the name and succeeded was for the owner. -/
def AcceptsFirst (history : List (String × String)) (name owner : String) : Prop :=
  ∃ front back, history = front ++ (name, owner) :: back ∧ (claimIn (after front) name owner).1 = .ok () ∧
    ∀ other, ¬Accepts front name other

def AcceptsAll (history : List (String × String)) : Prop :=
  ∀ front call back, history = front ++ call :: back → (claimIn (after front) call.1 call.2).1 = .ok ()

variable {registry : Registry} {history : List (String × String)} {name owner : String}

/-! ## One claim -/

theorem claimIn_fst_eq_ok_iff (registry : Registry) (name owner : String) :
    (claimIn registry name owner).1 = .ok () ↔
      Identifier.isValid name = true ∧ ∀ first, Keyed.get? registry name = some first → first = owner := by
  cases hvalid : Identifier.isValid name with
  | false => simp [claimIn_of_invalid hvalid]
  | true =>
    rw [claimIn_of_valid hvalid]
    cases Keyed.get? registry name with
    | none => simp
    | some first => by_cases hfirst : first = owner <;> simp [hfirst]

theorem claimIn_of_error {failure : Failure} (h : (claimIn registry name owner).1 = .error failure) :
    (claimIn registry name owner).2 = registry ∧
      (Identifier.isValid name = false ∧ failure = .invalid name owner ∨
        ∃ first, Identifier.isValid name = true ∧ Keyed.get? registry name = some first ∧ first ≠ owner ∧
          failure = .collision name first owner) := by
  rw [claimIn_eq] at h ⊢
  cases hresult : registry.register name owner with
  | ok next =>
    rw [hresult] at h
    cases h
  | error cause =>
    rw [hresult] at h
    cases h
    exact ⟨rfl, (register_eq_error_iff _ _ _ _).mp hresult⟩

/-- What a registry knows after a claim: what it knew, and the claim if it succeeded. -/
theorem get?_claimIn_iff (registry : Registry) (call : String × String) (name owner : String) :
    Keyed.get? (claimIn registry call.1 call.2).2 name = some owner ↔
      Keyed.get? registry name = some owner ∨
        call = (name, owner) ∧ (claimIn registry call.1 call.2).1 = .ok () := by
  cases hresult : registry.register call.1 call.2 with
  | error failure => simp [claimIn_eq, hresult]
  | ok next =>
    rw [claimIn_eq, hresult]
    obtain ⟨-, ⟨hget, rfl⟩ | ⟨hget, rfl⟩⟩ := (register_eq_ok_iff _ _ _ _).mp hresult
    · refine ⟨Or.inl, ?_⟩
      rintro (hknown | ⟨rfl, -⟩)
      · exact hknown
      · exact hget
    · rw [Keyed.get?_append, Option.or_eq_some_iff]
      by_cases hname : call.1 = name
      · subst hname
        simp [hget, Keyed.get?, Prod.ext_iff]
      · have hcall : call ≠ (name, owner) := fun h => hname (congrArg Prod.fst h)
        simp [Keyed.get?, hname, hcall]

theorem nodup_keys_claimIn (hkeys : (Keyed.keys registry).Nodup) (name owner : String) :
    (Keyed.keys (claimIn registry name owner).2).Nodup := by
  cases hresult : registry.register name owner with
  | error failure => simpa only [claimIn_eq, hresult] using hkeys
  | ok next =>
    rw [claimIn_eq, hresult]
    obtain ⟨-, ⟨-, rfl⟩ | ⟨hget, rfl⟩⟩ := (register_eq_ok_iff _ _ _ _).mp hresult
    · exact hkeys
    · have hnew : name ∉ Keyed.keys registry := (Keyed.get?_eq_none_iff _ _).mp hget
      rw [← Keyed.put_of_not_mem hnew]
      exact Keyed.nodup_keys_alter hkeys _ _

/-! ## A history of claims -/

theorem after_concat (history : List (String × String)) (call : String × String) :
    after (history ++ [call]) = (claimIn (after history) call.1 call.2).2 := List.foldl_concat ..

theorem nodup_keys_after (history : List (String × String)) : (Keyed.keys (after history)).Nodup := by
  induction history using List.reverseRecOn with
  | nil => exact List.nodup_nil
  | append_singleton history call ih =>
    rw [after_concat]
    exact nodup_keys_claimIn ih _ _

theorem not_accepts_nil (name owner : String) : ¬Accepts [] name owner := by
  rintro ⟨front, back, h, -⟩
  exact absurd h.symm (List.append_ne_nil_of_right_ne_nil _ (List.cons_ne_nil _ _))

theorem accepts_concat_iff (history : List (String × String)) (call : String × String) (name owner : String) :
    Accepts (history ++ [call]) name owner ↔
      Accepts history name owner ∨ call = (name, owner) ∧ (claimIn (after history) call.1 call.2).1 = .ok () := by
  constructor
  · rintro ⟨front, back, heq, hok⟩
    rcases List.eq_nil_or_concat back with rfl | ⟨back, last, rfl⟩
    · obtain ⟨rfl, hcall⟩ := List.append_inj' heq rfl
      cases hcall
      exact .inr ⟨rfl, hok⟩
    · rw [List.concat_eq_append, ← List.cons_append, ← List.append_assoc] at heq
      exact .inl ⟨front, back, (List.append_inj' heq rfl).1, hok⟩
  · rintro (⟨front, back, rfl, hok⟩ | ⟨rfl, hok⟩)
    · exact ⟨front, back ++ [call], by rw [List.append_assoc, List.cons_append], hok⟩
    · exact ⟨history, [], rfl, hok⟩

/-- A registry knows the owners whose claims were accepted. -/
theorem get?_after_iff (history : List (String × String)) (name owner : String) :
    Keyed.get? (after history) name = some owner ↔ Accepts history name owner := by
  induction history using List.reverseRecOn with
  | nil =>
    refine iff_of_false (fun h => ?_) (not_accepts_nil name owner)
    cases h
  | append_singleton history call ih => rw [after_concat, get?_claimIn_iff, ih, accepts_concat_iff]

/-- The owner of a name is the one that was accepted first. -/
theorem acceptsFirst_of_accepts (h : Accepts history name owner) : AcceptsFirst history name owner := by
  induction history using List.reverseRecOn with
  | nil => exact absurd h (not_accepts_nil name owner)
  | append_singleton history call ih =>
    rcases (accepts_concat_iff history call name owner).mp h with hbefore | ⟨rfl, hok⟩
    · obtain ⟨front, back, rfl, hfirst⟩ := ih hbefore
      exact ⟨front, back ++ [call], by rw [List.append_assoc, List.cons_append], hfirst⟩
    · by_cases hearlier : Accepts history name owner
      · obtain ⟨front, back, rfl, hfirst⟩ := ih hearlier
        exact ⟨front, back ++ [(name, owner)], by rw [List.append_assoc, List.cons_append], hfirst⟩
      · refine ⟨history, [], rfl, hok, fun other hother => ?_⟩
        have howner := ((claimIn_fst_eq_ok_iff _ _ _).mp hok).2 other ((get?_after_iff _ _ _).mpr hother)
        rw [howner] at hother
        exact hearlier hother

theorem has_after_iff (history : List (String × String)) (name : String) :
    Keyed.has (after history) name = true ↔ ∃ owner, Accepts history name owner := by
  rw [Keyed.has, Option.isSome_iff_exists]
  exact exists_congr fun owner => get?_after_iff history name owner

theorem length_after (history : List (String × String)) :
    (after history).length = {name | ∃ owner, Accepts history name owner}.ncard := by
  have hset : {name | ∃ owner, Accepts history name owner} = ↑(Keyed.keys (after history)).toFinset := by
    ext name
    rw [Set.mem_ofPred_eq, ← has_after_iff, Keyed.has_iff, Finset.mem_coe, List.mem_toFinset]
  rw [hset, Set.ncard_coe_finset, List.toFinset_card_of_nodup (nodup_keys_after history), Keyed.keys, List.length_map]

/-! ## A list of claims -/

theorem acceptsAll_concat_iff (history : List (String × String)) (call : String × String) :
    AcceptsAll (history ++ [call]) ↔ AcceptsAll history ∧ (claimIn (after history) call.1 call.2).1 = .ok () := by
  constructor
  · intro h
    refine ⟨fun front earlier back heq => h front earlier (back ++ [call]) ?_, h history call [] rfl⟩
    rw [heq, List.append_assoc, List.cons_append]
  · rintro ⟨hall, hlast⟩ front other back heq
    rcases List.eq_nil_or_concat back with rfl | ⟨back, last, rfl⟩
    · obtain ⟨rfl, hcall⟩ := List.append_inj' heq rfl
      cases hcall
      exact hlast
    · rw [List.concat_eq_append, ← List.cons_append, ← List.append_assoc] at heq
      exact hall front other back (List.append_inj' heq rfl).1

/-- A list of claims succeeds when each of them does in the registry that those before it have left. -/
theorem registerAll_eq_ok_iff (history : List (String × String)) (last : Registry) :
    registerAll [] history = .ok last ↔ AcceptsAll history ∧ after history = last := by
  induction history using List.reverseRecOn generalizing last with
  | nil =>
    have hnone : AcceptsAll [] := fun front call back h =>
      absurd h.symm (List.append_ne_nil_of_right_ne_nil _ (List.cons_ne_nil _ _))
    exact ⟨fun h => ⟨hnone, Except.ok.inj h⟩, fun h => congrArg Except.ok h.2⟩
  | append_singleton history call ih =>
    have hsteps : registerAll [] (history ++ [call]) =
        registerAll [] history >>= fun registry => registry.register call.1 call.2 := by
      simp only [registerAll, List.foldlM_append, List.foldlM_cons, List.foldlM_nil, bind_pure]
    rw [hsteps, Outcome.bind_eq_ok_iff, acceptsAll_concat_iff, after_concat]
    simp only [ih]
    rw [claimIn_eq]
    cases hlast : (after history).register call.1 call.2 with
    | error failure =>
      constructor
      · rintro ⟨registry, ⟨-, rfl⟩, hregister⟩
        rw [hlast] at hregister
        cases hregister
      · rintro ⟨⟨-, h⟩, -⟩
        cases h
    | ok next =>
      constructor
      · rintro ⟨registry, ⟨hall, rfl⟩, hregister⟩
        rw [hlast] at hregister
        cases hregister
        exact ⟨⟨hall, rfl⟩, rfl⟩
      · rintro ⟨⟨hall, -⟩, rfl⟩
        exact ⟨_, ⟨hall, rfl⟩, hlast⟩

def HoldsOnly (made : List (String × String)) (registry : Registry) : Prop :=
  ∀ name owner, Keyed.get? registry name = some owner → (name, owner) ∈ made

theorem exists_register_of_holdsOnly {made : List (String × String)} (hregistry : HoldsOnly made registry)
    (hvalid : Identifier.isValid name = true) (howner : ∀ first, (name, first) ∈ made → first = owner) :
    ∃ next, registry.register name owner = .ok next ∧ HoldsOnly (made ++ [(name, owner)]) next := by
  cases hget : Keyed.get? registry name with
  | none =>
    refine ⟨_, (register_eq_ok_iff _ _ _ _).mpr ⟨hvalid, .inr ⟨hget, rfl⟩⟩, fun other found hother => ?_⟩
    rw [Keyed.get?_append, Option.or_eq_some_iff] at hother
    rcases hother with hbefore | ⟨-, hnew⟩
    · exact List.mem_append_left _ (hregistry other found hbefore)
    · exact List.mem_append_right _ (Keyed.mem_of_get? hnew)
  | some first =>
    rw [howner first (hregistry name first hget)] at hget
    refine ⟨_, (register_eq_ok_iff _ _ _ _).mpr ⟨hvalid, .inl ⟨hget, rfl⟩⟩, fun other found hother => ?_⟩
    exact List.mem_append_left _ (hregistry other found hother)

/-- A list of claims succeeds when the names are usable and each has one owner. -/
theorem exists_registerAll_iff (claims : List (String × String)) :
    (∃ last, registerAll [] claims = .ok last) ↔
      (∀ claim ∈ claims, Identifier.isValid claim.1 = true) ∧
        ∀ name first second, (name, first) ∈ claims → (name, second) ∈ claims → first = second := by
  constructor
  · rintro ⟨last, h⟩
    exact ⟨fun claim hclaim => ((get?_registerAll h).2 claim hclaim).1,
      fun name first second hfirst hsecond => owner_unique h hfirst hsecond⟩
  · rintro ⟨hvalid, howner⟩
    have hsteps : ∃ last, registerAll [] claims = .ok last ∧ HoldsOnly claims last := by
      refine Outcome.exists_foldlM_eq_ok ?_ ?_
      · intro name owner h
        cases h
      · rintro made ⟨name, owner⟩ rest registry rfl hregistry
        have hmem : (name, owner) ∈ made ++ (name, owner) :: rest := List.mem_append_right _ List.mem_cons_self
        exact exists_register_of_holdsOnly hregistry (hvalid _ hmem)
          fun first hfirst => howner name first owner (List.mem_append_left _ hfirst) hmem
    obtain ⟨last, hlast, -⟩ := hsteps
    exact ⟨last, hlast⟩

theorem exists_registerAll_congr {claims claims' : List (String × String)}
    (h : ∀ claim, claim ∈ claims ↔ claim ∈ claims') :
    (∃ last, registerAll [] claims = .ok last) ↔ ∃ last, registerAll [] claims' = .ok last := by
  simp only [exists_registerAll_iff, h]

theorem checkIndex_eq_ok_iff_of_perm {entries entries' : List Script.Exports} (h : entries.Perm entries') :
    Plan.checkIndex entries = .ok () ↔ Plan.checkIndex entries' = .ok () := by
  rw [Plan.checkIndex, Plan.checkIndex, Group.checkNames_eq_ok_iff, Group.checkNames_eq_ok_iff]
  refine exists_registerAll_congr fun claim => ?_
  rw [Plan.indexClaims, Plan.indexClaims, List.mem_append, List.mem_append, (h.flatMap_right _).mem_iff]

/-- A registry that starts empty remembers the first owner of each name. After any history of claims, the next
one succeeds when the name is usable and was accepted for no other owner; one that fails leaves the registry as
it is and names the first owner if there is one; the registry has the names that were accepted, each once.
Claims that are checked as a list, as those of an index are, are the claims of a history: one of them gives the
registry that a claim leaves, and the list succeeds when every claim of the history does. So the order of the
entries of an index does not decide whether it is accepted. -/
theorem history_decides (history : List (String × String)) (name owner : String) :
    ((claimIn (after history) name owner).1 = .ok () ↔
      Identifier.isValid name = true ∧ ∀ other, Accepts history name other → other = owner) ∧
    (∀ failure, (claimIn (after history) name owner).1 = .error failure →
      after (history ++ [(name, owner)]) = after history ∧
        (Identifier.isValid name = false ∧ failure = .invalid name owner ∨
          ∃ first, Identifier.isValid name = true ∧ AcceptsFirst history name first ∧ first ≠ owner ∧
            failure = .collision name first owner)) ∧
    (Keyed.has (after history) name = true ↔ ∃ owner, Accepts history name owner) ∧
    (after history).length = {name | ∃ owner, Accepts history name owner}.ncard ∧
    (claimIn (after history) name owner =
      match (after history).register name owner with
      | .ok next => (.ok (), next)
      | .error failure => (.error failure, after history)) ∧
    (∀ last, registerAll [] history = .ok last ↔ AcceptsAll history ∧ after history = last) ∧
    ∀ entries entries' : List Script.Exports, entries.Perm entries' →
      (Plan.checkIndex entries = .ok () ↔ Plan.checkIndex entries' = .ok ()) := by
  refine ⟨?_, fun failure h => ?_, has_after_iff history name, length_after history,
    claimIn_eq _ name owner, registerAll_eq_ok_iff history, fun entries entries' h => checkIndex_eq_ok_iff_of_perm h⟩
  · simp only [claimIn_fst_eq_ok_iff, get?_after_iff]
  · obtain ⟨hsame, hreason⟩ := claimIn_of_error h
    refine ⟨by rw [after_concat, hsame], hreason.imp_right ?_⟩
    rintro ⟨first, hvalid, hget, hne, rfl⟩
    exact ⟨first, hvalid, acceptsFirst_of_accepts ((get?_after_iff _ _ _).mp hget), hne, rfl⟩

/-- Claims that are accepted, refused for their name, refused for their owner, and repeated. -/
def mixedHistory : List (String × String) :=
  [("title", "home"), ("class", "home"), ("title", "shop"), ("title", "home"), ("price", "shop")]

theorem history_decides_mixed :
    after (mixedHistory ++ [("title", "shop")]) = after mixedHistory ∧
      AcceptsFirst mixedHistory "title" "home" ∧
      (¬∃ owner, Accepts mixedHistory "class" owner) ∧
      {name | ∃ owner, Accepts mixedHistory name owner}.ncard = 2 ∧
      Plan.checkIndex
        [⟨"shop", "./messages/shop", ["price"], [], none⟩, ⟨"home", "./messages/home", ["title"], [], none⟩] = .ok () := by
  have hafter : after mixedHistory = [("title", "home"), ("price", "shop")] := by decide +kernel
  have hrefused : (claimIn (after mixedHistory) "title" "shop").1 = .error (.collision "title" "home" "shop") := by
    rw [hafter]
    rfl
  obtain ⟨-, herror, -, hlength, -, -, hperm⟩ := history_decides mixedHistory "title" "shop"
  obtain ⟨-, -, hhas, -⟩ := history_decides mixedHistory "class" "home"
  obtain ⟨hsame, hreason⟩ := herror _ hrefused
  refine ⟨hsame, ?_, ?_, ?_, (hperm _ _ (.swap _ _ [])).mp rfl⟩
  · rcases hreason with ⟨-, h⟩ | ⟨first, -, hfirst, -, h⟩
    · cases h
    · cases h
      exact hfirst
  · rw [← hhas, hafter]
    decide
  · rw [← hlength, hafter]
    rfl

end Phrasebook.Registry
