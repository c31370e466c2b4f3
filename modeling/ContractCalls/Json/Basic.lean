/-
JSON values.

An object is a list of fields in ascending order of their keys, each key
once.  A number is a whole number of 64 bits, signed or unsigned, or else a
double-precision number; the two kinds are never confused.
-/
import ContractCalls.Decimal.Binary64
import ContractCalls.Ordered

namespace ContractCalls

/-- A JSON number. -/
inductive JsonNumber where
  /-- A whole number from `-2^63` to `2^64 - 1`. -/
  | whole (value : Int)
  /-- Any other number. -/
  | double (value : Decimal.Binary64)
deriving DecidableEq, Repr

/-- A JSON value. -/
inductive Json where
  | null
  | bool (value : Bool)
  | number (value : JsonNumber)
  | string (value : String)
  | array (items : List Json)
  /-- Fields in ascending order of their keys. -/
  | object (fields : List (String × Json))
deriving Repr

namespace Json

instance : Inhabited Json := ⟨.null⟩

/-- A whole number. -/
def ofInt (n : Int) : Json := .number (.whole n)

/-- A natural number. -/
def ofNat (n : Nat) : Json := ofInt n

/-- A value, or `null` for none. -/
def ofOption {α : Type} (encode : α → Json) : Option α → Json
  | none => .null
  | some a => encode a

/-- A list of values. -/
def ofList {α : Type} (encode : α → Json) (xs : List α) : Json := .array (xs.map encode)

/-- A list of strings. -/
def ofStrings (xs : List String) : Json := ofList .string xs

/-- The object with the given fields; of two fields with one key the later counts. -/
def ofFields (fields : List (String × Json)) : Json :=
  .object (fields.foldl (fun sorted (key, value) => Ordered.put key value sorted) [])

/-- The value of the first field with a key. -/
def find? (key : String) : List (String × Json) → Option Json
  | [] => none
  | (k, v) :: rest => if k = key then some v else find? key rest

/-- A field of an object; other values have none. -/
def get? (j : Json) (key : String) : Option Json :=
  match j with
  | .object fields => find? key fields
  | _ => none

/-- The text of a string. -/
def asString? : Json → Option String
  | .string s => some s
  | _ => none

/-- The truth value of a Boolean. -/
def asBool? : Json → Option Bool
  | .bool b => some b
  | _ => none

/-- The items of an array. -/
def asArray? : Json → Option (List Json)
  | .array items => some items
  | _ => none

/-- The fields of an object. -/
def asObject? : Json → Option (List (String × Json))
  | .object fields => some fields
  | _ => none

/-- A whole number that fits a signed 64-bit word. -/
def asInt? : Json → Option Int
  | .number (.whole n) => if n < 9223372036854775808 then some n else none
  | _ => none

/-- A whole number that is not negative. -/
def asNat? : Json → Option Nat
  | .number (.whole n) => if 0 ≤ n then some n.toNat else none
  | _ => none

/-- The value is an object. -/
def isObject : Json → Bool
  | .object _ => true
  | _ => false

/-- The value is `null`. -/
def isNull : Json → Bool
  | .null => true
  | _ => false

/-! ## Parts are smaller than the whole -/

theorem sizeOf_find? {key : String} {fields : List (String × Json)} {v : Json}
    (h : find? key fields = some v) : sizeOf v < sizeOf fields := by
  induction fields with
  | nil => simp [find?] at h
  | cons field rest ih =>
      obtain ⟨k, w⟩ := field
      simp only [find?] at h
      split at h
      · cases h
        simp
        omega
      · have := ih h
        simp
        omega

/-- A field is smaller than its object. -/
theorem sizeOf_get? {j v : Json} {key : String} (h : j.get? key = some v) :
    sizeOf v < sizeOf j := by
  cases j with
  | object fields =>
      have := sizeOf_find? (show find? key fields = some v from h)
      simp
      omega
  | _ => simp [get?] at h

/-- An item is smaller than its array. -/
theorem sizeOf_item {j v : Json} {items : List Json} (h : j.asArray? = some items)
    (hv : v ∈ items) : sizeOf v < sizeOf j := by
  cases j with
  | array xs =>
      simp only [asArray?, Option.some.injEq] at h
      subst h
      have := List.sizeOf_lt_of_mem hv
      simp
      omega
  | _ => simp [asArray?] at h

/-- The value of a field is smaller than its object. -/
theorem sizeOf_field {j : Json} {fields : List (String × Json)} {p : String × Json}
    (h : j.asObject? = some fields) (hp : p ∈ fields) : sizeOf p.2 < sizeOf j := by
  cases j with
  | object fs =>
      simp only [asObject?, Option.some.injEq] at h
      subst h
      have := List.sizeOf_lt_of_mem hp
      obtain ⟨k, v⟩ := p
      simp at this ⊢
      omega
  | _ => simp [asObject?] at h

end Json

end ContractCalls
