/-! # Associations in order of first insertion

Documents, catalogs and registries are read back in the order in which their keys first appeared. An
association is a list of pairs; changing the value of a key that is present leaves it where it stands, and
a new key goes to the end.
-/

namespace Phrasebook

/-- Pairs of a key and a value, looked up by the first pair with the key. -/
abbrev Keyed (α : Type) := List (String × α)

namespace Keyed

variable {α : Type}

def get? (pairs : Keyed α) (key : String) : Option α :=
  match pairs with
  | [] => none
  | (k, v) :: rest => if k = key then some v else get? rest key

def has (pairs : Keyed α) (key : String) : Bool :=
  (pairs.get? key).isSome

/-- Replaces the value of a key by a function of the present one, or adds the key at the end. -/
def alter (pairs : Keyed α) (key : String) (f : Option α → α) : Keyed α :=
  match pairs with
  | [] => [(key, f none)]
  | (k, v) :: rest => if k = key then (k, f (some v)) :: rest else (k, v) :: alter rest key f

def put (pairs : Keyed α) (key : String) (value : α) : Keyed α :=
  pairs.alter key fun _ => value

def keys (pairs : Keyed α) : List String :=
  pairs.map (·.1)

/-- The association in which a later pair replaces the value of an earlier one with the same key. -/
def ofPairs (pairs : List (String × α)) : Keyed α :=
  pairs.foldl (fun acc pair => put acc pair.1 pair.2) []

theorem get?_alter (pairs : Keyed α) (key other : String) (f : Option α → α) :
    (pairs.alter key f).get? other =
      if key = other then some (f (pairs.get? key)) else pairs.get? other := by
  induction pairs with
  | nil => simp [alter, get?]
  | cons pair rest ih =>
    obtain ⟨k, v⟩ := pair
    simp only [alter, get?]
    grind [get?]

theorem keys_alter (pairs : Keyed α) (key : String) (f : Option α → α) :
    (pairs.alter key f).keys = if pairs.has key then pairs.keys else pairs.keys ++ [key] := by
  induction pairs with
  | nil => simp [alter, keys, has, get?]
  | cons pair rest ih =>
    obtain ⟨k, v⟩ := pair
    simp only [keys, has, alter, get?] at ih ⊢
    grind

end Keyed

end Phrasebook
