/-
Operations of a body and the callees of its calls.

An operation is made by a constructor that checks its operands against the
arena; what it reads, what it writes and whom it calls are three views of it.
-/
import ContractCalls.Operand.Arena

namespace ContractCalls

/-- Position of a function in its compilation. -/
structure FunctionId where
  index : Nat
deriving DecidableEq, Repr, Inhabited, Ord

/-- Text of a function id that names no function. -/
def FunctionId.render (id : FunctionId) : String := "fn" ++ toString id.index

/-- Unary operators with an operation of their own. -/
inductive UnaryOp where
  | not
  | bitNot
deriving DecidableEq, Repr

namespace UnaryOp

/-- The operator of a token. -/
def ofToken : String → Except ModelError UnaryOp
  | "!" => .ok .not
  | "~" => .ok .bitNot
  | token => .error (.unknownUnaryOperator token)

/-- The token of an operator. -/
def token : UnaryOp → String
  | .not => "!"
  | .bitNot => "~"

end UnaryOp

/-- Arguments of a call, with the parameter names of a call by name. -/
structure CallArgs where
  names : Option (List String)
  arguments : List OperandId
deriving DecidableEq, Repr

namespace CallArgs

/-- Arguments by position. -/
def positional (arguments : List OperandId) : CallArgs := ⟨none, arguments⟩

/-- Arguments by name. -/
def named (names : List String) (arguments : List OperandId) : CallArgs :=
  ⟨some names, arguments⟩

end CallArgs

/-- What a call on another contract lands on. -/
inductive HighLevelTarget where
  | function (id : FunctionId)
  /-- A public state variable read through its getter. -/
  | getter (name : String)
  | unresolved (label : String)
deriving DecidableEq, Repr

/-- The edge an unresolved call belongs to. -/
inductive UnresolvedEdge where
  | internal
  | library
deriving DecidableEq, Repr

/-- Expression forms without an operation of their own. -/
inductive Intrinsic where
  | binary (operator : String)
  | index
  | member (name : String)
  | conversion
  | emit (event : String)
  | lowLevel (kind : String)
  | creation (contract : String)
  | tupleComponent (position : Nat)
  | initializer
deriving DecidableEq, Repr

/-- Text of an intrinsic. -/
def Intrinsic.render : Intrinsic → String
  | .binary operator => "BINARY " ++ operator
  | .index => "INDEX"
  | .member name => "MEMBER ." ++ name
  | .conversion => "CONVERT"
  | .emit event => "EMIT " ++ event
  | .lowLevel kind => "LOW_LEVEL " ++ kind
  | .creation contract => "NEW_CONTRACT " ++ contract
  | .tupleComponent position => "UNPACK[" ++ toString position ++ "]"
  | .initializer => "INIT_LIST"

/-- Whom a call calls. -/
inductive Callee where
  | internal (id : FunctionId)
  | library (id : FunctionId)
  | highLevel (contract : Option String) (target : HighLevelTarget)
  | builtin (name : String)
  | unresolved (edge : UnresolvedEdge) (label : String)
  | intrinsic (form : Intrinsic)
deriving DecidableEq, Repr

namespace Callee

/-- The call stands for an expression form, not for a call of the program. -/
def isIntrinsic : Callee → Bool
  | .intrinsic _ => true
  | _ => false

/-- Text of a callee, with function ids written by `label`. -/
def render (label : FunctionId → String) : Callee → String
  | .internal id => "INTERNAL " ++ label id
  | .library id => "LIBRARY " ++ label id
  | .highLevel contract target =>
      let name := match target with
        | .function id => label id
        | .getter name => name
        | .unresolved text => text
      "HIGH_LEVEL " ++ contract.getD "?" ++ "::" ++ name
  | .builtin name => "SOLIDITY " ++ name
  | .unresolved _ text => "UNRESOLVED " ++ text
  | .intrinsic form => form.render

end Callee

/-- An operation. -/
inductive Operation where
  | assignment (lvalue rvalue : OperandId) (declared : Ty)
  | call (args : CallArgs) (lvalue : Option OperandId) (callee : Callee)
  | newElementary (args : CallArgs) (ty : Ty) (lvalue : OperandId)
  | newStructure (args : CallArgs) (name : String) (lvalue : OperandId)
  | delete (lvalue operand : OperandId)
  | unary (lvalue operand : OperandId) (op : UnaryOp)
  | nop
deriving DecidableEq, Repr

namespace Operation

/-- Fails unless every argument may be read. -/
def checkArgs (arena : Arena) (args : CallArgs) : Except ModelError Unit :=
  args.arguments.forM arena.ensureRvalue

/-- An assignment with checked operands. -/
def mkAssignment (arena : Arena) (lvalue rvalue : OperandId) (declared : Ty) :
    Except ModelError Operation := do
  arena.ensureLvalue lvalue
  arena.ensureRvalue rvalue
  return .assignment lvalue rvalue declared

/-- A call with checked operands. -/
def mkCall (arena : Arena) (callee : Callee) (args : CallArgs) (lvalue : Option OperandId) :
    Except ModelError Operation := do
  lvalue.forM arena.ensureLvalue
  checkArgs arena args
  return .call args lvalue callee

/-- The creation of a value of a type without fields, with checked operands. -/
def mkNewElementary (arena : Arena) (ty : Ty) (args : CallArgs) (lvalue : OperandId) :
    Except ModelError Operation := do
  arena.ensureLvalue lvalue
  checkArgs arena args
  return .newElementary args ty lvalue

/-- The creation of a structure, with checked operands. -/
def mkNewStructure (arena : Arena) (name : String) (args : CallArgs) (lvalue : OperandId) :
    Except ModelError Operation := do
  arena.ensureLvalue lvalue
  checkArgs arena args
  return .newStructure args name lvalue

/-- A deletion with checked operands. -/
def mkDelete (arena : Arena) (lvalue operand : OperandId) : Except ModelError Operation := do
  arena.ensureLvalue lvalue
  arena.ensureRvalue operand
  return .delete lvalue operand

/-- A unary operation with a checked token and checked operands. -/
def mkUnary (arena : Arena) (lvalue operand : OperandId) (token : String) :
    Except ModelError Operation := do
  let op ← UnaryOp.ofToken token
  arena.ensureLvalue lvalue
  arena.ensureRvalue operand
  return .unary lvalue operand op

/-- The operands an operation reads, in argument order. -/
def reads : Operation → List OperandId
  | .assignment _ rvalue _ => [rvalue]
  | .call args _ _ | .newElementary args _ _ | .newStructure args _ _ => args.arguments
  | .delete _ operand | .unary _ operand _ => [operand]
  | .nop => []

/-- The operand an operation writes. -/
def lvalue? : Operation → Option OperandId
  | .assignment lvalue _ _ | .newElementary _ _ lvalue | .newStructure _ _ lvalue
  | .delete lvalue _ | .unary lvalue _ _ => some lvalue
  | .call _ lvalue _ => lvalue
  | .nop => none

/-- Whom an operation calls. -/
def callee? : Operation → Option Callee
  | .call _ _ callee => some callee
  | _ => none

/-- The operation with every operand it reads replaced. -/
def mapReads (f : OperandId → OperandId) : Operation → Operation
  | .assignment lvalue rvalue declared => .assignment lvalue (f rvalue) declared
  | .call args lvalue callee => .call { args with arguments := args.arguments.map f } lvalue callee
  | .newElementary args ty lvalue =>
      .newElementary { args with arguments := args.arguments.map f } ty lvalue
  | .newStructure args name lvalue =>
      .newStructure { args with arguments := args.arguments.map f } name lvalue
  | .delete lvalue operand => .delete lvalue (f operand)
  | .unary lvalue operand op => .unary lvalue (f operand) op
  | .nop => .nop

/-- The operation with the operand it writes replaced. -/
def mapLvalue (f : OperandId → OperandId) : Operation → Operation
  | .assignment lvalue rvalue declared => .assignment (f lvalue) rvalue declared
  | .call args lvalue callee => .call args (lvalue.map f) callee
  | .newElementary args ty lvalue => .newElementary args ty (f lvalue)
  | .newStructure args name lvalue => .newStructure args name (f lvalue)
  | .delete lvalue operand => .delete (f lvalue) operand
  | .unary lvalue operand op => .unary (f lvalue) operand op
  | .nop => .nop

/-! ## Text -/

/-- An operand with its type. -/
def typed (arena : Arena) (id : OperandId) : String :=
  match arena.get? id with
  | some operand => operand.render ++ "(" ++ operand.ty.render ++ ")"
  | none => id.render

/-- An operand with the components of its type. -/
def typedByComponents (arena : Arena) (id : OperandId) : String :=
  match arena.get? id with
  | some operand =>
      operand.render ++ "(" ++ ",".intercalate (Ty.renderItems operand.ty.components) ++ ")"
  | none => id.render

/-- The arguments of a call. -/
def renderArgs (arena : Arena) (args : CallArgs) : String :=
  let values := args.arguments.map arena.display
  match args.names with
  | some names => ",".intercalate (names.zipWith (fun n v => n ++ "=" ++ v) values)
  | none => ",".intercalate values

/-- The operand behind a reference that is assigned to, if it is bound. -/
def aliased? (arena : Arena) (lvalue : OperandId) : Option OperandId :=
  match arena.get? lvalue with
  | some operand =>
      if operand.isReference then
        match arena.resolve lvalue with
        | .ok target => if target = lvalue then none else some target
        | .error _ => none
      else none
  | none => none

/-- Text of an operation, with function ids written by `label`. -/
def render (arena : Arena) (label : FunctionId → String) : Operation → String
  | .assignment lvalue rvalue _ =>
      let target := match aliased? arena lvalue with
        | some target => " (->" ++ arena.display target ++ ")"
        | none => ""
      typed arena lvalue ++ target ++ " := " ++ typedByComponents arena rvalue
  | .call args lvalue callee =>
      let invocation := "CALL " ++ callee.render label ++ "(" ++ renderArgs arena args ++ ")"
      match lvalue with
      | some lvalue => typed arena lvalue ++ " = " ++ invocation
      | none => invocation
  | .newElementary args ty lvalue =>
      arena.display lvalue ++ " = new " ++ ty.render ++ "(" ++ renderArgs arena args ++ ")"
  | .newStructure args name lvalue =>
      typed arena lvalue ++ " = new " ++ name ++ "(" ++ renderArgs arena args ++ ")"
  | .delete lvalue operand => arena.display lvalue ++ " = delete " ++ arena.display operand
  | .unary lvalue operand op =>
      arena.display lvalue ++ " = " ++ op.token ++ " " ++ arena.display operand
  | .nop => "NOP"

end Operation

end ContractCalls
