/-
Source-level types.

Compilers describe types as texts, so a type here stays close to that surface
form; layouts are not modelled.
-/
namespace ContractCalls

/-- A type attached to operands and declarations. -/
inductive Ty where
  | elementary (name : String)
  | struct (name : String)
  | enum (name : String)
  | contract (name : String)
  /-- An array; a dynamic one has no size. -/
  | array (element : Ty) (size : Option Nat)
  | mapping (key value : Ty)
  | tuple (items : List Ty)
  /-- A function type, kept as its text. -/
  | function (text : String)
  /-- The type of a type expression. -/
  | typeOf (inner : Ty)
  | unknown
deriving Repr

namespace Ty

instance : Inhabited Ty := ⟨.unknown⟩

mutual

/-- Equality of types. -/
def eq : Ty → Ty → Bool
  | .elementary a, .elementary b => a == b
  | .struct a, .struct b => a == b
  | .enum a, .enum b => a == b
  | .contract a, .contract b => a == b
  | .array a m, .array b n => eq a b && m == n
  | .mapping a c, .mapping b d => eq a b && eq c d
  | .tuple as, .tuple bs => eqItems as bs
  | .function a, .function b => a == b
  | .typeOf a, .typeOf b => eq a b
  | .unknown, .unknown => true
  | _, _ => false

/-- Equality of type lists. -/
def eqItems : List Ty → List Ty → Bool
  | [], [] => true
  | a :: as, b :: bs => eq a b && eqItems as bs
  | _, _ => false

end

mutual

theorem eq_refl : ∀ t : Ty, eq t t = true
  | .elementary _ => by simp [eq]
  | .struct _ => by simp [eq]
  | .enum _ => by simp [eq]
  | .contract _ => by simp [eq]
  | .array a _ => by simp [eq, eq_refl a]
  | .mapping a b => by simp [eq, eq_refl a, eq_refl b]
  | .tuple as => by simp [eq, eqItems_refl as]
  | .function _ => by simp [eq]
  | .typeOf a => by simp [eq, eq_refl a]
  | .unknown => by simp [eq]

theorem eqItems_refl : ∀ ts : List Ty, eqItems ts ts = true
  | [] => by simp [eqItems]
  | t :: ts => by simp [eqItems, eq_refl t, eqItems_refl ts]

end

mutual

theorem eq_of_eq : ∀ {s t : Ty}, eq s t = true → s = t
  | .elementary _, t, h => by cases t <;> simp_all [eq]
  | .struct _, t, h => by cases t <;> simp_all [eq]
  | .enum _, t, h => by cases t <;> simp_all [eq]
  | .contract _, t, h => by cases t <;> simp_all [eq]
  | .array a m, t, h => by
      cases t <;> simp [eq] at h
      exact h.2 ▸ eq_of_eq h.1 ▸ rfl
  | .mapping a b, t, h => by
      cases t <;> simp [eq] at h
      exact eq_of_eq h.1 ▸ eq_of_eq h.2 ▸ rfl
  | .tuple as, t, h => by
      cases t <;> simp [eq] at h
      exact eqItems_of_eq h ▸ rfl
  | .function _, t, h => by cases t <;> simp_all [eq]
  | .typeOf a, t, h => by
      cases t <;> simp [eq] at h
      exact eq_of_eq h ▸ rfl
  | .unknown, t, h => by cases t <;> simp_all [eq]

theorem eqItems_of_eq : ∀ {ss ts : List Ty}, eqItems ss ts = true → ss = ts
  | [], ts, h => by cases ts <;> simp_all [eqItems]
  | s :: ss, ts, h => by
      cases ts <;> simp [eqItems] at h
      exact eq_of_eq h.1 ▸ eqItems_of_eq h.2 ▸ rfl

end

instance : DecidableEq Ty := fun s t =>
  if h : eq s t = true then .isTrue (eq_of_eq h)
  else .isFalse fun e => h (e ▸ eq_refl s)

/-- The type of words. -/
def uint256 : Ty := .elementary "uint256"

/-- The type of addresses. -/
def address : Ty := .elementary "address"

/-- The type of truth values. -/
def bool : Ty := .elementary "bool"

/-- Components of a multi-value type; any other type is its own only component. -/
def components : Ty → List Ty
  | .tuple items => items
  | t => [t]

/-- The type has components. -/
def isTuple : Ty → Bool
  | .tuple _ => true
  | _ => false

/-- The contract named by a contract type or by a type expression of one. -/
def contractName? : Ty → Option String
  | .contract name => some name
  | .typeOf inner => contractName? inner
  | _ => none

/-- The type is an elementary one whose name starts with `address`. -/
def isAddress : Ty → Bool
  | .elementary name => "address".toList.isPrefixOf name.toList
  | _ => false

/-- The type is that of a type expression. -/
def isTypeOf : Ty → Bool
  | .typeOf _ => true
  | _ => false

mutual

/-- Text of a type. -/
def render : Ty → String
  | .elementary name | .struct name | .enum name | .contract name => name
  | .array element (some size) => render element ++ "[" ++ toString size ++ "]"
  | .array element none => render element ++ "[]"
  | .mapping key value => "mapping(" ++ render key ++ " => " ++ render value ++ ")"
  | .tuple items => "tuple(" ++ ",".intercalate (renderItems items) ++ ")"
  | .function text => text
  | .typeOf inner => "type(" ++ render inner ++ ")"
  | .unknown => "?"

/-- Texts of a list of types. -/
def renderItems : List Ty → List String
  | [] => []
  | t :: ts => render t :: renderItems ts

end

end Ty

end ContractCalls
