/-
Sorting and sorted collections by a comparison.

Texts are compared character by character, which is also the order of their
UTF-8 bytes.  Sorting is stable; a sorted set keeps one copy of each element.
-/
namespace ContractCalls.Ordered

variable {α β : Type}

/-- A comparison of two values. -/
abbrev Comparison (α : Type) := α → α → Ordering

/-- Compares by `first`, and by `next` where that leaves a tie. -/
def lexically (first next : Comparison α) : Comparison α :=
  fun a b => (first a b).then (next a b)

/-- Compares the images under `key`. -/
def comparing [Ord β] (key : α → β) : Comparison α :=
  fun a b => compare (key a) (key b)

/-- The list in ascending order; elements that compare equal keep their order. -/
def sort (order : Comparison α) (xs : List α) : List α :=
  xs.mergeSort fun a b => (order a b).isLE

/-- Inserts into an ascending list unless an equal element is there. -/
def insert (order : Comparison α) (x : α) : List α → List α
  | [] => [x]
  | y :: ys =>
      match order x y with
      | .lt => x :: y :: ys
      | .eq => y :: ys
      | .gt => y :: insert order x ys

/-- The ascending list of the distinct elements. -/
def ofList (order : Comparison α) (xs : List α) : List α :=
  xs.foldl (fun set x => insert order x set) []

/-- Sets the value of a key in a list of pairs with ascending keys. -/
def put [Ord β] (key : β) (value : α) : List (β × α) → List (β × α)
  | [] => [(key, value)]
  | (k, v) :: rest =>
      match compare key k with
      | .lt => (key, value) :: (k, v) :: rest
      | .eq => (k, value) :: rest
      | .gt => (k, v) :: put key value rest

/-- Gives a key its first value in a list of pairs with ascending keys; a value that is there
stays. -/
def putNew [Ord β] (key : β) (value : α) : List (β × α) → List (β × α)
  | [] => [(key, value)]
  | (k, v) :: rest =>
      match compare key k with
      | .lt => (key, value) :: (k, v) :: rest
      | .eq => (k, v) :: rest
      | .gt => (k, v) :: putNew key value rest

end ContractCalls.Ordered
