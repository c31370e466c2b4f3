/-
The names of a module that its functions refer to.
-/
import ContractCalls.Operation
import ContractCalls.Table
import ContractCalls.Vyper.Node

namespace ContractCalls.Vyper

/-- The names of a module. -/
structure Layout where
  contractName : String
  functions : Table String FunctionId
  /-- The return types of the functions. -/
  returns : Table String (List Ty)
  states : Table String Ty
  types : UserTypes

namespace Layout

/-- The layout of a module without members. -/
def new (contractName : String) : Layout :=
  ⟨contractName, .empty, .empty, .empty, ⟨[], []⟩⟩

/-- What a call of a function of the module itself calls. -/
def ownCallee (layout : Layout) (name : String) : Callee :=
  match layout.functions.get? name with
  | some id => .internal id
  | none => .unresolved .internal (layout.contractName ++ "." ++ name)

/-- The return types of a function. -/
def returnTypes (layout : Layout) (name : String) : List Ty := (layout.returns.get? name).getD []

end Layout

/-- What a call that leaves the module calls, by how it reads in source. -/
def outsideCallee (label : String) : Callee := .highLevel none (.unresolved label)

end ContractCalls.Vyper
