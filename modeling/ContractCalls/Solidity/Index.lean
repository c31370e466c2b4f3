/-
What the ids of a syntax tree refer to.

Registration fills the index; resolving references and lowering read it.  A
definition has one instance per contract that sees it.
-/
import ContractCalls.Compilation
import ContractCalls.Solidity.Node

namespace ContractCalls.Solidity

/-- What a declaration id refers to. -/
inductive DeclRef where
  | contract (id : ContractId)
  /-- A function; a free function has no declarer. -/
  | function (declarer : Option ContractId)
  | modifier (declarer : ContractId)
  | stateVariable (declarer : ContractId) (name : String) (ty : Ty)
  /-- A constant of a file. -/
  | fileConstant (name : String) (ty : Ty)
  | event (name : String)
  | error (name : String)
  | struct (name : String)
  | enum (name : String)
deriving DecidableEq, Repr

/-- A contract definition as registered. -/
structure ContractDefinition where
  id : ContractId
  file : String
  /-- Ids of the linearization, most derived first. -/
  linearized : List Int
  stateVariables : List Node
  /-- Ids of function and modifier definitions in order of declaration. -/
  definitions : List Int
  /-- The inheritance list. -/
  inheritance : List Node
deriving Repr

/-- A function definition outside every contract. -/
structure FreeFunction where
  scope : ScopeId
  file : String
  definition : Int
deriving DecidableEq, Repr

/-- The seat of a function instance: the contract that sees a definition, and the definition. -/
structure Seat where
  context : Option ContractId
  definition : Int
deriving DecidableEq, Repr

/-- What the ids of the registered trees refer to. -/
structure Index where
  declarations : Table Int DeclRef
  definitions : Table Int Node
  contracts : List ContractDefinition
  freeFunctions : List FreeFunction
  /-- Variable declarations outside every contract. -/
  fileConstants : List (ScopeId × Node)
  instances : Table Seat FunctionId
deriving Repr

namespace Index

/-- Nothing is registered. -/
def empty : Index := ⟨.empty, .empty, [], [], [], .empty⟩

/-- What an optional id refers to. -/
def declaration? (i : Index) (id : Option Int) : Option DeclRef :=
  id.bind i.declarations.get?

/-- The instance of a definition in a context. -/
def instance? (i : Index) (context : Option ContractId) (definition : Int) : Option FunctionId :=
  i.instances.get? ⟨context, definition⟩

/-- The registered definition of a contract. -/
def contract? (i : Index) (id : ContractId) : Option ContractDefinition :=
  i.contracts.find? (·.id == id)

/-- The contract an id refers to. -/
def contractOf? (i : Index) (id : Int) : Option ContractId :=
  match i.declarations.get? id with
  | some (.contract contract) => some contract
  | _ => none

/-- All instances in order of their function ids. -/
def orderedInstances (i : Index) : List (Seat × FunctionId) :=
  Ordered.sort (Ordered.comparing fun entry => entry.2.index) i.instances.entries

def setDeclaration (i : Index) (id : Int) (ref : DeclRef) : Index :=
  { i with declarations := i.declarations.insert id ref }

def setDefinition (i : Index) (id : Int) (node : Node) : Index :=
  { i with definitions := i.definitions.insert id node }

def setInstance (i : Index) (seat : Seat) (id : FunctionId) : Index :=
  { i with instances := i.instances.insert seat id }

end Index

/-! ## Dispatch -/

/-- The function of a full name that a call in a context runs: the most derived one. -/
def dispatch? (u : Compilation) (context : ContractId) (fullName : String) : Option FunctionId := do
  let functions := u.functionsOf (← u.contract? context)
  let fits := fun (f : Function) => !f.isModifier && f.fullName == fullName
  let found ← (functions.find? fun f => fits f && !f.isShadowed).or (functions.find? fits)
  return found.id

/-- The modifier of a name that applies in a context: the most derived one. -/
def dispatchModifier? (u : Compilation) (context : ContractId) (name : String) :
    Option FunctionId := do
  let functions := u.functionsOf (← u.contract? context)
  let found ← functions.find? fun f => f.isModifier && !f.isShadowed && f.name == name
  return found.id

end ContractCalls.Solidity
