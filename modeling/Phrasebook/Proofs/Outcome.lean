import Mathlib.Data.List.Forall2

/-! # Computations that may fail

A sequence of computations succeeds when each step does, and a list of them when it does for every member.
-/

namespace Phrasebook.Outcome

variable {ε α β : Type}

theorem bind_eq_ok_iff {first : Except ε α} {next : α → Except ε β} {result : β} :
    first >>= next = .ok result ↔ ∃ value, first = .ok value ∧ next value = .ok result := by
  cases first with
  | error e =>
    constructor
    · intro h
      cases h
    · rintro ⟨value, h, -⟩
      cases h
  | ok value =>
    constructor
    · intro h
      exact ⟨value, rfl, h⟩
    · rintro ⟨value', h, hnext⟩
      cases h
      exact hnext

theorem bind_eq_error_iff {first : Except ε α} {next : α → Except ε β} {error : ε} :
    first >>= next = .error error ↔
      first = .error error ∨ ∃ value, first = .ok value ∧ next value = .error error := by
  cases first with
  | error e =>
    constructor
    · intro h
      cases h
      exact .inl rfl
    · rintro (h | ⟨value, h, -⟩)
      · cases h
        rfl
      · cases h
  | ok value =>
    constructor
    · exact fun h => .inr ⟨value, rfl, h⟩
    · rintro (h | ⟨value', h, hnext⟩)
      · cases h
      · cases h
        exact hnext

theorem bind_pure_eq_error_iff {first : Except ε α} {change : α → β} {error : ε} :
    (first >>= fun value => pure (change value)) = .error error ↔ first = .error error := by
  rw [bind_eq_error_iff]
  refine or_iff_left ?_
  rintro ⟨value, -, h⟩
  cases h

theorem exists_eq_ok_of_toOption {x : Except ε α} (h : x.toOption.isSome = true) : ∃ value, x = .ok value := by
  cases x with
  | error e => cases h
  | ok value => exact ⟨value, rfl⟩

theorem exists_eq_error_of_match {x : Except ε α} {holds : ε → Bool}
    (h : (match x with | .error error => holds error | .ok _ => false) = true) :
    ∃ error, x = .error error ∧ holds error = true := by
  cases x with
  | error error => exact ⟨error, rfl, h⟩
  | ok value => cases h

def endsIn {σ : Type} (run : σ × Except ε α) (holds : σ → Bool) : Bool :=
  match run with
  | (state, .ok _) => holds state
  | (_, .error _) => false

theorem exists_of_endsIn {σ : Type} {run : σ × Except ε α} {holds : σ → Bool} (h : endsIn run holds = true) :
    ∃ state value, run = (state, .ok value) ∧ holds state = true := by
  obtain ⟨state, result⟩ := run
  cases result with
  | error e => cases h
  | ok value => exact ⟨state, value, rfl, h⟩

theorem exists_eq_ok_of_any {x : Except ε α} {holds : α → Bool} (h : x.toOption.any holds = true) :
    ∃ value, x = .ok value ∧ holds value = true := by
  cases x with
  | error e => cases h
  | ok value => exact ⟨value, rfl, h⟩

theorem exists_run_of_any {σ : Type} {run : σ × Except ε α} {holds : α → Bool}
    (h : run.2.toOption.any holds = true) : ∃ state value, run = (state, .ok value) ∧ holds value = true := by
  obtain ⟨value, hvalue, hholds⟩ := exists_eq_ok_of_any h
  exact ⟨run.1, value, Prod.ext rfl hvalue, hholds⟩

theorem mapM_eq_ok_iff {f : α → Except ε β} {xs : List α} {ys : List β} :
    xs.mapM f = .ok ys ↔ List.Forall₂ (fun x y => f x = .ok y) xs ys := by
  induction xs generalizing ys with
  | nil =>
    rw [List.mapM_nil, List.forall₂_nil_left_iff]
    exact ⟨fun h => (Except.ok.inj h).symm, fun h => congrArg Except.ok h.symm⟩
  | cons x xs ih =>
    rw [List.mapM_cons, bind_eq_ok_iff, List.forall₂_cons_left_iff]
    constructor
    · rintro ⟨y, hy, hrest⟩
      obtain ⟨rest, hxs, heq⟩ := bind_eq_ok_iff.mp hrest
      cases heq
      exact ⟨y, rest, hy, ih.mp hxs, rfl⟩
    · rintro ⟨y, rest, hy, hxs, rfl⟩
      exact ⟨y, hy, bind_eq_ok_iff.mpr ⟨rest, ih.mpr hxs, rfl⟩⟩

theorem exists_of_mem_mapM {f : α → Except ε β} {xs : List α} {ys : List β} (h : xs.mapM f = .ok ys) {y : β}
    (hy : y ∈ ys) : ∃ x ∈ xs, f x = .ok y := by
  rw [mapM_eq_ok_iff] at h
  induction h with
  | nil => cases hy
  | cons hfirst _ ih =>
    rcases List.mem_cons.mp hy with rfl | hrest
    · exact ⟨_, List.mem_cons_self, hfirst⟩
    · obtain ⟨x, hx, heq⟩ := ih hrest
      exact ⟨x, List.mem_cons_of_mem _ hx, heq⟩

/-- The error of a list of computations is that of the first one that fails. -/
theorem mapM_eq_error_iff {f : α → Except ε β} {xs : List α} {error : ε} :
    xs.mapM f = .error error ↔
      ∃ front x back, xs = front ++ x :: back ∧ (∀ y ∈ front, ∃ value, f y = .ok value) ∧ f x = .error error := by
  induction xs with
  | nil =>
    rw [List.mapM_nil]
    constructor
    · intro h
      cases h
    · rintro ⟨front, x, back, hnil, -, -⟩
      exact absurd hnil.symm (List.append_ne_nil_of_right_ne_nil _ (List.cons_ne_nil _ _))
  | cons x xs ih =>
    rw [List.mapM_cons, bind_eq_error_iff]
    constructor
    · rintro (hhere | ⟨value, hvalue, h⟩)
      · exact ⟨[], x, xs, rfl, fun y hy => absurd hy List.not_mem_nil, hhere⟩
      · obtain hrest | ⟨rest, -, h⟩ := bind_eq_error_iff.mp h
        · obtain ⟨front, x', back, rfl, hfront, herror⟩ := ih.mp hrest
          exact ⟨x :: front, x', back, rfl, List.forall_mem_cons.mpr ⟨⟨value, hvalue⟩, hfront⟩, herror⟩
        · cases h
    · rintro ⟨front, x', back, hxs, hfront, herror⟩
      cases front with
      | nil =>
        cases hxs
        exact .inl herror
      | cons first front =>
        cases hxs
        obtain ⟨⟨value, hvalue⟩, hfront⟩ := List.forall_mem_cons.mp hfront
        exact .inr ⟨value, hvalue, bind_eq_error_iff.mpr (.inl (ih.mpr ⟨front, x', back, rfl, hfront, herror⟩))⟩

theorem exists_of_mapM_eq_error {f : α → Except ε β} {xs : List α} {error : ε} (h : xs.mapM f = .error error) :
    ∃ x ∈ xs, f x = .error error := by
  obtain ⟨front, x, back, rfl, -, herror⟩ := mapM_eq_error_iff.mp h
  exact ⟨x, List.mem_append_right _ List.mem_cons_self, herror⟩

/-- A list of computations ends alike when each member that succeeds does so again. -/
theorem mapM_eq_ok_of_forall {f g : α → Except ε β} {xs : List α} {ys : List β} (h : xs.mapM f = .ok ys)
    (hagain : ∀ x ∈ xs, ∀ y, f x = .ok y → g x = .ok y) : xs.mapM g = .ok ys := by
  rw [mapM_eq_ok_iff] at h ⊢
  induction h with
  | nil => exact .nil
  | cons hfirst _ ih =>
    obtain ⟨hhere, hrest⟩ := List.forall_mem_cons.mp hagain
    exact .cons (hhere _ hfirst) (ih hrest)

theorem mapM_congr {f g : α → Except ε β} {xs : List α} (h : ∀ x ∈ xs, f x = g x) : xs.mapM f = xs.mapM g := by
  induction xs with
  | nil => rfl
  | cons x xs ih =>
    rw [List.forall_mem_cons] at h
    rw [List.mapM_cons, List.mapM_cons, h.1, ih h.2]

theorem foldlM_congr {f g : β → α → Except ε β} {xs : List α} (h : ∀ x ∈ xs, ∀ state, f state x = g state x)
    (start : β) : xs.foldlM f start = xs.foldlM g start := by
  induction xs generalizing start with
  | nil => rfl
  | cons x xs ih =>
    rw [List.forall_mem_cons] at h
    rw [List.foldlM_cons, List.foldlM_cons, h.1]
    exact bind_congr fun next => ih h.2 next

/-- A list of computations that are refused by a test ends at the first member that is. -/
theorem mapM_ite (refuses : α → Bool) (error : α → ε) (value : α → β) (xs : List α) :
    (xs.mapM fun x => if refuses x then .error (error x) else .ok (value x) : Except ε (List β)) =
      match xs.find? refuses with
      | some x => .error (error x)
      | none => .ok (xs.map value) := by
  induction xs with
  | nil => rfl
  | cons x xs ih =>
    rw [List.mapM_cons, ih, List.find?_cons]
    cases refuses x with
    | true => rfl
    | false => cases xs.find? refuses <;> rfl

theorem exists_mapM_eq_ok {f : α → Except ε β} {holds : α → β → Prop} {xs : List α}
    (h : ∀ x ∈ xs, ∃ y, f x = .ok y ∧ holds x y) :
    ∃ ys, xs.mapM f = .ok ys ∧ List.Forall₂ holds xs ys := by
  induction xs with
  | nil => exact ⟨[], rfl, .nil⟩
  | cons x xs ih =>
    obtain ⟨⟨y, hy, hholds⟩, hrest⟩ := List.forall_mem_cons.mp h
    obtain ⟨ys, hys, hforall⟩ := ih hrest
    refine ⟨y :: ys, ?_, .cons hholds hforall⟩
    rw [mapM_eq_ok_iff] at hys ⊢
    exact .cons hy hys

/-- A fold succeeds when every step goes on from what the steps before it have made. -/
theorem exists_foldlM_eq_ok {f : β → α → Except ε β} {holds : List α → β → Prop} {xs : List α} {start : β}
    (hstart : holds [] start)
    (hstep : ∀ before x after state, xs = before ++ x :: after → holds before state →
      ∃ next, f state x = .ok next ∧ holds (before ++ [x]) next) :
    ∃ last, xs.foldlM f start = .ok last ∧ holds xs last := by
  have step (done rest : List α) (heq : xs = done ++ rest) (state : β) (hstate : holds done state) :
      ∃ last, rest.foldlM f state = .ok last ∧ holds xs last := by
    induction rest generalizing done state with
    | nil =>
      rw [heq, List.append_nil]
      exact ⟨state, rfl, hstate⟩
    | cons x rest ih =>
      obtain ⟨next, hnext, hholds⟩ := hstep done x rest state heq hstate
      obtain ⟨last, hlast, hall⟩ := ih (done ++ [x]) (by rw [heq, List.append_assoc]; rfl) next hholds
      refine ⟨last, ?_, hall⟩
      rw [List.foldlM_cons, hnext]
      exact hlast
  exact step [] xs rfl start hstart

theorem exists_step_of_foldlM {f : β → α → Except ε β} {xs : List α} {start last : β}
    (h : xs.foldlM f start = .ok last) {x : α} (hx : x ∈ xs) : ∃ state next, f state x = .ok next := by
  induction xs generalizing start with
  | nil => cases hx
  | cons first xs ih =>
    rw [List.foldlM_cons, bind_eq_ok_iff] at h
    obtain ⟨next, hnext, h⟩ := h
    rcases List.mem_cons.mp hx with rfl | hrest
    · exact ⟨start, next, hnext⟩
    · exact ih h hrest

theorem exists_step_of_foldlM_eq_error {f : β → α → Except ε β} {xs : List α} {start : β} {error : ε}
    (h : xs.foldlM f start = .error error) : ∃ x ∈ xs, ∃ state, f state x = .error error := by
  induction xs generalizing start with
  | nil => cases h
  | cons first xs ih =>
    rw [List.foldlM_cons, bind_eq_error_iff] at h
    rcases h with hfirst | ⟨next, -, h⟩
    · exact ⟨first, List.mem_cons_self, start, hfirst⟩
    · obtain ⟨x, hx, hstep⟩ := ih h
      exact ⟨x, List.mem_cons_of_mem _ hx, hstep⟩

theorem mapError_eq_ok_iff {γ : Type} {f : ε → γ} {x : Except ε α} {value : α} :
    x.mapError f = .ok value ↔ x = .ok value := by
  cases x with
  | error e =>
    constructor
    · intro h
      cases h
    · intro h
      cases h
  | ok found =>
    constructor
    · intro h
      cases h
      rfl
    · intro h
      cases h
      rfl

theorem mapError_eq_error_iff {γ : Type} {f : ε → γ} {x : Except ε α} {error : γ} :
    x.mapError f = .error error ↔ ∃ cause, x = .error cause ∧ f cause = error := by
  cases x with
  | error cause =>
    constructor
    · intro h
      cases h
      exact ⟨cause, rfl, rfl⟩
    · rintro ⟨_, h, rfl⟩
      cases h
      rfl
  | ok value =>
    constructor
    · intro h
      cases h
    · rintro ⟨_, h, -⟩
      cases h

end Phrasebook.Outcome
