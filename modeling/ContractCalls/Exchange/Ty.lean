/-
The JSON forms of types.

A type is written as its text where readers want it, and as a tagged value
where it has to be read back exactly.
-/
import ContractCalls.Exchange.Field
import ContractCalls.Ty.Parser

namespace ContractCalls.Ty

/-- The text of a type. -/
def toText (ty : Ty) : Json := .string ty.render

mutual

/-- The tagged form of a type. -/
def toJson : Ty → Json
  | .elementary name => .tagged "Elementary" (.string name)
  | .struct name => .tagged "Struct" (.string name)
  | .enum name => .tagged "Enum" (.string name)
  | .contract name => .tagged "Contract" (.string name)
  | .array element size => .tagged "Array" (.pair (toJson element) (Json.ofOption Json.ofNat size))
  | .mapping key value => .tagged "Mapping" (.pair (toJson key) (toJson value))
  | .tuple items => .tagged "Tuple" (.array (toJsonItems items))
  | .function text => .tagged "Function" (.string text)
  | .typeOf inner => .tagged "TypeOf" (toJson inner)
  | .unknown => .string "Unknown"

/-- The tagged forms of types. -/
def toJsonItems : List Ty → List Json
  | [] => []
  | t :: ts => toJson t :: toJsonItems ts

end

/-- The type of a tagged form that nests no deeper than `depth`. -/
def ofJsonWithin : (depth : Nat) → Json → Ty
  | 0, _ => .unknown
  | depth + 1, j =>
      let (name, content) := j.alternative
      let text := content.asString?.getD ""
      let parts := content.asArray?.getD []
      match name, parts with
      | "Elementary", _ => .elementary text
      | "Struct", _ => .struct text
      | "Enum", _ => .enum text
      | "Contract", _ => .contract text
      | "Array", [element, size] => .array (ofJsonWithin depth element) size.asNat?
      | "Mapping", [key, value] => .mapping (ofJsonWithin depth key) (ofJsonWithin depth value)
      | "Tuple", parts => .tuple (parts.map (ofJsonWithin depth))
      | "Function", _ => .function text
      | "TypeOf", _ => .typeOf (ofJsonWithin depth content)
      | _, _ => .unknown

/-- More levels than any exchanged type has. -/
def exchangeDepth : Nat := 4096

/-- The type of a JSON value: a text is parsed, anything else is a tagged form. -/
def ofJson (j : Json) : Ty :=
  match j with
  | .string s => parse s
  | .null => .unknown
  | other => ofJsonWithin exchangeDepth other

end ContractCalls.Ty
