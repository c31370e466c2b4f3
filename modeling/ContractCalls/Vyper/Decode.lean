/-
Reading syntax from the nodes of a module.

Nothing fails here: what is not understood is kept as such, and fails when it
is lowered.
-/
import ContractCalls.Json.Printer
import ContractCalls.Vyper.Node
import ContractCalls.Vyper.Operator
import ContractCalls.Vyper.Syntax

namespace ContractCalls.Vyper

open Text

namespace Literal

/-- The text of the value of a literal. -/
def text (n : Node) : String :=
  match n.json.get? "value" with
  | some (.string s) => s
  | some .null | none => ""
  | some other => other.compact

/-- The bytes of a literal: those its hexadecimal digits spell, or those of the text. -/
def bytes (text : String) : List UInt8 :=
  match strip? ['0', 'x'] text.toList with
  | some digits => hexBytes digits
  | none => text.toUTF8.toList

/-- The value and type of a number. -/
def number (text : String) : Constant × Ty :=
  match Constant.parseNumber? text with
  | some (.int n) => (.int n, .elementary "int256")
  | some other => (other, .elementary "uint256")
  | none => (.string text, .unknown)

/-- The value and type of a literal, if the node is one. -/
def value? (n : Node) : Option (Constant × Ty) :=
  let text := text n
  match n.astType with
  | "NameConstant" =>
      match (n.json.get? "value").bind Json.asBool? with
      | some b => some (.bool b, .bool)
      | none => some (.string "None", .unknown)
  | "Str" => some (.string text, .elementary "string")
  | "Decimal" => some (.string text, .elementary "decimal")
  | "Hex" =>
      if text.utf8ByteSize == 42 then some (.address text, .elementary "address")
      else some (.bytes (bytes text), .elementary "bytes")
  | "HexBytes" | "Bytes" => some (.bytes (bytes text), .elementary "bytes")
  | "Int" => some (number text)
  | _ => none

end Literal

/-! ## Leaves of the syntax -/

/-- The token of the operator of a node. -/
def operatorOf (n : Node) : String :=
  match n.child? "op" with
  | some op => operatorSymbol op.astType
  | none => "?"

/-- What a unary operator does. -/
def UnaryForm.ofNode (n : Node) : UnaryForm :=
  match (n.child? "op").map (·.astType) with
  | some "Not" => .not
  | some "Invert" => .invert
  | _ => .negate

/-- The structure a call constructs, if its callee is the name of one. -/
def constructed? (structs : List String) (n : Node) : Option String := do
  let callee ← n.child? "func"
  let name ← callee.text? "id"
  if callee.is "Name" && structs.contains name then some name else none

/-- The member names of a dictionary. -/
def memberNames (n : Node) : List String := (n.nodes "keys").map fun key => key.name?.getD ""

/-! ## Expressions -/

/-- The expression of a node; `structs` are the structures of the module. -/
def Expr.ofNode (structs : List String) (n : Node) : Expr :=
  let required := fun (key : String) =>
    (n.mapChild key fun c _ => Expr.ofNode structs c).getD (.absent key n.astType)
  let all := fun (key : String) => n.mapNodes key fun c _ => Expr.ofNode structs c
  match Literal.value? n with
  | some (value, ty) => .literal value ty
  | none =>
      match n.astType with
      | "Name" => .name ((n.text? "id").getD "")
      | "Attribute" => .member (required "value") ((n.text? "attr").getD "")
      | "Subscript" =>
          .subscript (required "value")
            ((n.mapSlice fun c _ => Expr.ofNode structs c).getD (.absent "slice" n.astType))
      | "Call" =>
          let keywords := (n.mapNodes "keywords" fun k h => k.mapChild "value" fun c g =>
            have : Node.IsPart c n := Nat.lt_trans g h
            ((k.text? "arg").getD "", Expr.ofNode structs c)).filterMap id
          match constructed? structs n with
          | some typeName =>
              let members := (n.mapNodes "args" fun d h =>
                if d.is "Dict" then
                  some (memberNames d, d.mapNodes "values" fun c g =>
                    have : Node.IsPart c n := Nat.lt_trans g h
                    Expr.ofNode structs c)
                else none).findSome? id
              let (names, values) := members.getD ([], [])
              .construct typeName (names ++ keywords.map Prod.fst) (values ++ keywords.map Prod.snd)
          | none =>
              .call (required "func") (((n.child? "func").map Node.chain).getD "")
                (all "args" ++ keywords.map Prod.snd)
      | "ExtCall" | "StaticCall" => .marked n.astType (required "value")
      | "BinOp" => .binary (operatorOf n) (required "left") (required "right")
      | "Compare" => .compare (operatorOf n) (required "left") (required "right")
      | "BoolOp" => .logical (operatorOf n) (all "values")
      | "UnaryOp" => .unary (.ofNode n) (required "operand")
      | "Tuple" => .tuple (all "elements")
      | "List" => .list (all "elements")
      | "IfExp" => .conditional (required "test") (required "body") (required "orelse")
      | "Dict" => .dict (all "values")
      | other => .unlisted other (n.mapChildren fun c _ => Expr.ofNode structs c)
termination_by sizeOf n.json
decreasing_by all_goals omega

/-! ## Statements -/

/-- A part of a node that is an expression, if it is there. -/
def Expr.part? (structs : List String) (n : Node) (key : String) : Option Expr :=
  (n.child? key).map (.ofNode structs)

/-- A part of a node that is an expression, or its absence. -/
def Expr.required (structs : List String) (n : Node) (key : String) : Expr :=
  (Expr.part? structs n key).getD (.absent key n.astType)

/-- A node of a kind the lowering does not know. -/
def Expr.unlistedOfNode (structs : List String) (n : Node) : Expr :=
  .unlisted n.astType (n.children.map (.ofNode structs))

/-- The expression of a statement, if it is there. -/
def Stmt.ofPart (structs : List String) (n : Node) (key : String) : Stmt :=
  match Expr.part? structs n key with
  | some e => .expression e
  | none => .skip

/-- The variable that an annotated assignment declares. -/
def Binding.ofDeclaration (types : UserTypes) (n : Node) : Except FrontEndError Binding :=
  match n.child? "target" with
  | none => .error (.missingField "target" n.astType)
  | some target =>
      match target.name? with
      | none => .error (.missingField "id" target.astType)
      | some name => .ok ⟨name, types.typeOf? (n.child? "annotation")⟩

/-- The variable of a loop. -/
def Binding.ofLoop (types : UserTypes) (n : Node) : Except FrontEndError Binding :=
  match n.child? "target" with
  | none => .error (.missingField "target" n.astType)
  | some target =>
      match target.astType with
      | "AnnAssign" =>
          match target.child? "target" with
          | none => .error (.missingField "target" target.astType)
          | some inner => named inner (types.typeOf? (target.child? "annotation"))
      | "Name" => named target .unknown
      | other => .error (.unsupported ("loop target " ++ other))
where
  named (n : Node) (ty : Ty) : Except FrontEndError Binding :=
    match n.name? with
    | some name => .ok ⟨name, ty⟩
    | none => .error (.missingField "id" "For.target")

/-- A parameter of a function. -/
def Binding.ofParameter (types : UserTypes) (n : Node) : Except FrontEndError Binding :=
  match n.text? "arg" with
  | some name => .ok ⟨name, types.typeOf? (n.child? "annotation")⟩
  | none => .error (.missingField "arg" n.astType)

/-- An assignment; a tuple takes the components of the value. -/
def Stmt.assignment (structs : List String) (n : Node) : Stmt :=
  let value := Expr.required structs n "value"
  match n.child? "target" with
  | some target =>
      if target.is "Tuple" then
        .assignAll ((target.nodes "elements").map (.ofNode structs)) value
      else .assign (.ofNode structs target) value
  | none => .assign (.absent "target" n.astType) value

/-- The values of a return statement. -/
def returnValues (structs : List String) (n : Node) : List Expr :=
  match n.child? "value" with
  | some value =>
      if value.is "Tuple" then (value.nodes "elements").map (.ofNode structs)
      else [.ofNode structs value]
  | none => []

/-- The statement of a node; `locate` reads source positions. -/
def Stmt.ofNode (types : UserTypes) (locate : Node → Option Span) (n : Node) : Stmt :=
  let structs := types.structs
  let block := fun (key : String) => n.mapNodes key fun c _ => Stmt.ofNode types locate c
  .located (locate n) <|
    match n.astType with
    | "AnnAssign" => .declare (Binding.ofDeclaration types n) (Expr.part? structs n "value")
    | "Assign" => .assignment structs n
    | "AugAssign" =>
        .update (operatorOf n) (Expr.required structs n "target") (Expr.required structs n "value")
    | "Expr" | "Log" => .ofPart structs n "value"
    | "Return" => .ret (returnValues structs n)
    | "If" => .ifElse (Expr.required structs n "test") (block "body") (block "orelse")
    | "For" => .forEach (Binding.ofLoop types n) (Expr.required structs n "iter") (block "body")
    | "Assert" => .assert (Expr.required structs n "test") (Expr.part? structs n "msg")
    | "Raise" => .raise (Expr.part? structs n "exc")
    | "Pass" => .nop
    | "Break" => .breakLoop
    | "Continue" => .continueLoop
    | _ => .expression (.unlistedOfNode structs n)
termination_by sizeOf n.json
decreasing_by all_goals omega

/-- The parameter nodes of a function. -/
def parameterNodes (n : Node) : List Node :=
  ((n.child? "args").map (·.nodes "args")).getD []

/-- The definition of a node. -/
def Definition.ofNode (types : UserTypes) (locate : Node → Option Span) (n : Node) : Definition :=
  { parameters := (parameterNodes n).mapM (Binding.ofParameter types)
    body := (n.nodes "body").map (.ofNode types locate) }

end ContractCalls.Vyper
