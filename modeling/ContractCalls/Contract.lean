/-
Contracts, their state variables, and the names a file declares.
-/
import ContractCalls.Function
import ContractCalls.Json.Basic

namespace ContractCalls

/-- Position of a contract in its compilation. -/
structure ContractId where
  index : Nat
deriving DecidableEq, Repr, Inhabited, Ord

/-- Text of a contract id. -/
def ContractId.render (id : ContractId) : String := "contract" ++ toString id.index

/-- Position of a file scope in its compilation. -/
structure ScopeId where
  index : Nat
deriving DecidableEq, Repr, Inhabited

/-- Position of a declaration in its compilation. -/
structure DeclId where
  index : Nat
deriving DecidableEq, Repr, Inhabited

/-- Text of a declaration id. -/
def DeclId.render (id : DeclId) : String := "decl" ++ toString id.index

/-- What a contract is in its language. -/
inductive ContractKind where
  | contract
  | interface
  | library
  /-- A source file that is one contract. -/
  | module
deriving DecidableEq, Repr

namespace ContractKind

/-- The kind of a keyword; what is neither an interface nor a library is a contract. -/
def parse : String → ContractKind
  | "interface" => .interface
  | "library" => .library
  | _ => .contract

/-- The keyword of a kind. -/
def render : ContractKind → String
  | .contract => "contract"
  | .interface => "interface"
  | .library => "library"
  | .module => "module"

end ContractKind

/-- A variable in storage, or a constant of a file. -/
structure StateVariable where
  name : String
  ty : Ty
  visibility : Visibility
  declarer : String
  isConstant : Bool
  isImmutable : Bool
  astId : Option Int
deriving DecidableEq, Repr

/-- An internal variable. -/
def StateVariable.new (name : String) (ty : Ty) (declarer : String) : StateVariable :=
  ⟨name, ty, .internal, declarer, false, false, none⟩

/-- A contract. -/
structure Contract where
  id : ContractId
  name : String
  kind : ContractKind
  isAbstract : Bool
  scope : ScopeId
  /-- The contract and its bases, most derived first. -/
  linearization : List ContractId
  /-- The functions callable in the contract, inherited ones included. -/
  functions : List FunctionId
  functionsDeclared : List FunctionId
  stateVariables : List StateVariable
  declarations : List DeclId
  source : Option Span
  astId : Option Int
deriving Repr

namespace Contract

/-- A contract without members. -/
def new (id : ContractId) (name : String) (kind : ContractKind) (scope : ScopeId) : Contract :=
  ⟨id, name, kind, false, scope, [id], [], [], [], [], none, none⟩

/-- The state variable of a name. -/
def stateVariable? (c : Contract) (name : String) : Option StateVariable :=
  c.stateVariables.find? (·.name == name)

def isLibrary (c : Contract) : Bool := c.kind == .library

def isInterface (c : Contract) : Bool := c.kind == .interface

/-- The bases in order of the linearization. -/
def bases (c : Contract) : List ContractId := c.linearization.filter (· != c.id)

end Contract

/-! ## Declarations -/

/-- A parameter of an event. -/
structure EventParameter where
  name : String
  ty : Ty
  indexed : Bool
deriving DecidableEq, Repr

/-- An entry of a directive that attaches a library to a type. -/
structure UsingEntry where
  library : String
  /-- No type: every type. -/
  forType : Option Ty
deriving DecidableEq, Repr

/-- The content of a declaration. -/
inductive DeclKind where
  | error (parameters : List (String × Ty))
  | enum (values : List String)
  | event (parameters : List EventParameter) (isAnonymous : Bool)
  | struct (members : Table String Ty)
  | usingFor (entries : List UsingEntry)
deriving Repr

/-- The word for a kind of declaration. -/
def DeclKind.name : DeclKind → String
  | .error _ => "error"
  | .enum _ => "enum"
  | .event _ _ => "event"
  | .struct _ => "struct"
  | .usingFor _ => "using-for"

/-- A named declaration.  It is registered with the nodes that define it, and its content is read
from them once. -/
structure Declaration where
  id : DeclId
  scope : ScopeId
  owner : Option String
  name : String
  canonicalName : String
  kind : DeclKind
  /-- The defining nodes, until they are read. -/
  raw : List Json
deriving Repr

namespace Declaration

/-- The name with that of its owner. -/
def qualified (owner : Option String) (name : String) : String :=
  match owner with
  | some owner => owner ++ "." ++ name
  | none => name

/-- The content is still to be read. -/
def isPending (d : Declaration) : Bool := !d.raw.isEmpty

/-- Reads the content with `build`, once.  A failure keeps the content read up to it, and uses up
the nodes all the same. -/
def analyzeWith (d : Declaration)
    (build : DeclKind → List Json → DeclKind × Except FrontEndError Unit) :
    Declaration × Except FrontEndError Unit :=
  if d.raw.isEmpty then (d, .ok ())
  else
    let (kind, result) := build d.kind d.raw
    ({ d with kind, raw := [] }, result)

/-- The parameters of an event. -/
def eventParameters? (d : Declaration) : Option (List EventParameter) :=
  match d.kind with
  | .event parameters _ => some parameters
  | _ => none

/-- The members of a structure. -/
def structMembers? (d : Declaration) : Option (Table String Ty) :=
  match d.kind with
  | .struct members => some members
  | _ => none

end Declaration

/-! ## File scopes -/

/-- The names declared by a file. -/
structure FileScope where
  id : ScopeId
  filename : String
  declarations : Table String DeclId
  contracts : Table String ContractId
  functions : Table String FunctionId
  /-- Constants outside every contract. -/
  constants : Table String StateVariable
deriving Repr

/-- A scope without names. -/
def FileScope.new (id : ScopeId) (filename : String) : FileScope :=
  ⟨id, filename, .empty, .empty, .empty, .empty⟩

end ContractCalls
