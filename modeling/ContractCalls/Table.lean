/-
Insertion-ordered tables.

A table holds at most one value per key and remembers the order in which the
keys first arrived; writing a key again replaces its value in place.
-/
namespace ContractCalls

/-- A finite map that keeps its keys in the order of their first insertion. -/
structure Table (κ : Type) (α : Type) where
  /-- Keys and values in order. -/
  entries : List (κ × α)
deriving Repr

namespace Table

variable {κ α β : Type} [DecidableEq κ]

/-- The table without entries. -/
def empty : Table κ α := ⟨[]⟩

instance : Inhabited (Table κ α) := ⟨empty⟩

/-- The value stored first under a key of a list of pairs. -/
def find? (key : κ) : List (κ × α) → Option α
  | [] => none
  | (k, v) :: rest => if k = key then some v else find? key rest

/-- The list of pairs with the value of `key` set, at its old place or at the end. -/
def put (key : κ) (value : α) : List (κ × α) → List (κ × α)
  | [] => [(key, value)]
  | (k, v) :: rest => if k = key then (k, value) :: rest else (k, v) :: put key value rest

/-- The value of a key. -/
def get? (t : Table κ α) (key : κ) : Option α := find? key t.entries

/-- The key has a value. -/
def contains (t : Table κ α) (key : κ) : Bool := (t.get? key).isSome

/-- Sets the value of a key. -/
def insert (t : Table κ α) (key : κ) (value : α) : Table κ α := ⟨put key value t.entries⟩

/-- The keys in order. -/
def keys (t : Table κ α) : List κ := t.entries.map Prod.fst

/-- The values in order of their keys. -/
def values (t : Table κ α) : List α := t.entries.map Prod.snd

theorem find?_put (key other : κ) (value : α) (entries : List (κ × α)) :
    find? other (put key value entries) =
      if key = other then some value else find? other entries := by
  induction entries with
  | nil => simp [put, find?]
  | cons entry rest ih =>
      obtain ⟨k, v⟩ := entry
      by_cases hk : k = key
      · subst hk
        by_cases ho : k = other <;> simp [put, find?, ho]
      · by_cases ho : k = other
        · subst ho
          simp [put, find?, hk, Ne.symm hk]
        · simp [put, find?, hk, ho, ih]

@[simp] theorem get?_empty (key : κ) : (empty : Table κ α).get? key = none := rfl

/-- Reading after a write gives the written value at its key and the old value elsewhere. -/
@[simp] theorem get?_insert (t : Table κ α) (key other : κ) (value : α) :
    (t.insert key value).get? other = if key = other then some value else t.get? other :=
  find?_put key other value t.entries

end Table

end ContractCalls
