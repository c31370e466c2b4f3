/-
Reading and writing the fields of exchanged JSON values.

A field that is missing and a field that is null mean the same.  A value of a
sum type is the name of its alternative, alone or as the only key of an object
with the content of the alternative.
-/
import ContractCalls.Json.Basic

namespace ContractCalls.Json

/-! ## Reading -/

/-- A field, null if it is missing. -/
def field (j : Json) (key : String) : Json := (j.get? key).getD .null

/-- The field has a value. -/
def has (j : Json) (key : String) : Bool := !(j.field key).isNull

def textAt? (j : Json) (key : String) : Option String := (j.field key).asString?

def textAt (j : Json) (key : String) (default : String) : String := (j.textAt? key).getD default

def flagAt (j : Json) (key : String) (default : Bool) : Bool := (j.field key).asBool?.getD default

def natAt? (j : Json) (key : String) : Option Nat := (j.field key).asNat?

def natAt (j : Json) (key : String) : Nat := (j.natAt? key).getD 0

def itemsAt (j : Json) (key : String) : List Json := (j.field key).asArray?.getD []

def textsAt (j : Json) (key : String) : List String := (j.itemsAt key).filterMap asString?

def natsAt (j : Json) (key : String) : List Nat := (j.itemsAt key).filterMap asNat?

/-- The alternative of a sum type and its content. -/
def alternative : Json → String × Json
  | .string name => (name, .null)
  | .object ((name, content) :: _) => (name, content)
  | _ => ("", .null)

/-! ## Writing -/

/-- An alternative with content. -/
def tagged (name : String) (content : Json) : Json := .object [(name, content)]

/-- A pair. -/
def pair (a b : Json) : Json := .array [a, b]

end ContractCalls.Json
