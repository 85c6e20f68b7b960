set_option autoImplicit false

/-!
Finite maps as lists of pairs in ascending order of their keys.
-/

namespace Replay.Ordered

abbrev Map (κ α : Type) := List (κ × α)

section

variable {κ α : Type} [DecidableEq κ] [LT κ] [DecidableLT κ]

def insert (key : κ) (value : α) : Map κ α → Map κ α
  | [] => [(key, value)]
  | (k, v) :: rest =>
    if key < k then (key, value) :: (k, v) :: rest
    else if key = k then (key, value) :: rest
    else (k, v) :: insert key value rest

/-- The pairs in order; of pairs with one key, the last. -/
def ofList (pairs : List (κ × α)) : Map κ α := pairs.foldl (fun m (k, v) => insert k v m) []

end

section

variable {κ α : Type} [DecidableEq κ]

def get? (key : κ) : Map κ α → Option α
  | [] => none
  | (k, v) :: rest => if key = k then some v else get? key rest

def erase (key : κ) : Map κ α → Map κ α
  | [] => []
  | (k, v) :: rest => if key = k then rest else (k, v) :: erase key rest

end

section

variable {κ α : Type} [DecidableEq κ] [LT κ] [DecidableLT κ]

@[simp] theorem get?_insert_self (key : κ) (value : α) (m : Map κ α) :
    get? key (insert key value m) = some value := by
  induction m with
  | nil => simp [insert, get?]
  | cons pair rest ih =>
    obtain ⟨k, v⟩ := pair
    simp only [insert]
    split
    · simp [get?]
    · split
      · simp [get?]
      · simp_all [get?]

@[simp] theorem get?_insert_of_ne {key other : κ} (h : other ≠ key) (value : α) (m : Map κ α) :
    get? other (insert key value m) = get? other m := by
  induction m with
  | nil => simp [insert, get?, h]
  | cons pair rest ih =>
    obtain ⟨k, v⟩ := pair
    simp only [insert]
    split
    · simp [get?, h]
    · split
      · next hk => simp [get?, ← hk, h]
      · simp [get?, ih]

end

end Replay.Ordered
