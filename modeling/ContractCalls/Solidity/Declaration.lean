/-
Events, errors, structures, enums and `using` directives: how they are
registered, and how their content is read later.
-/
import ContractCalls.Contract
import ContractCalls.Solidity.Node

namespace ContractCalls.Solidity

/-- The kind of declaration a node defines, without content. -/
def pendingKind? (n : Node) : Option DeclKind :=
  match n.nodeType with
  | "EventDefinition" => some (.event [] false)
  | "StructDefinition" => some (.struct .empty)
  | "EnumDefinition" => some (.enum [])
  | "ErrorDefinition" => some (.error [])
  | "UsingForDirective" => some (.usingFor [])
  | _ => none

/-- The spelled name of a type or library. -/
def pathName? (n : Node) : Option String := n.name?.or (n.text? "namePath")

/-- The type a type-name node names: by its type text, or else as spelled. -/
def namedType (n : Node) : Ty := Ty.ofText? (n.typeText?.or (pathName? n))

/-- The library of a `using` directive, and the node of the type it is for. -/
def usingParts (n : Node) : Option String × Option Node :=
  match n.dialect with
  | .compact => ((n.child? "libraryName").bind pathName?, n.child? "typeName")
  | .legacy => (n.children[0]?.bind pathName?, n.children[1]?)

/-- The entries of a `using` directive: its library and the functions it lists. -/
def usingEntries (n : Node) : List UsingEntry :=
  let (library, typeNode) := usingParts n
  let listed := (n.nodes "functionList").filterMap fun item =>
    (item.child? "function").bind pathName?
  (library.toList ++ listed).map fun name => ⟨name, typeNode.map namedType⟩

/-- The text that names a `using` directive. -/
def usingName (entries : List UsingEntry) : String :=
  let target := match entries.head?.bind (·.forType) with
    | some ty => ty.render
    | none => "*"
  "using " ++ ",".intercalate (entries.map (·.library)) ++ " for " ++ target

/-- The name a declaration is registered under. -/
def declarationName? (n : Node) : Option String :=
  if n.is "UsingForDirective" then some (usingName (usingEntries n)) else n.name?

/-! ## Content -/

/-- The parameters of an event. -/
def eventParameters (n : Node) : List EventParameter :=
  (n.parameterList "parameters" 0).map fun p => ⟨p.name?.getD "", p.ty, p.flag "indexed"⟩

/-- The parameters of an error. -/
def errorParameters (n : Node) : List (String × Ty) :=
  (n.parameterList "parameters" 0).map fun p => (p.name?.getD "", p.ty)

/-- The values of an enum. -/
def enumValues (n : Node) : List String :=
  let members := match n.dialect with
    | .compact => n.nodes "members"
    | .legacy => n.children
  members.filterMap (·.name?)

/-- The member nodes of a structure. -/
def structMembers (n : Node) : List Node :=
  match n.dialect with
  | .compact => n.nodes "members"
  | .legacy => n.children.filter (·.is "VariableDeclaration")

/-- Adds members to a structure up to the first one without a name. -/
def addMembers (members : Table String Ty) : List Node → Table String Ty × Except FrontEndError Unit
  | [] => (members, .ok ())
  | n :: rest =>
      match n.name? with
      | some name => addMembers (members.insert name n.ty) rest
      | none => (members, .error (.missingField "name" n.nodeType))

/-- Reads the content of a declaration from its node. -/
def readContent (kind : DeclKind) (n : Node) : DeclKind × Except FrontEndError Unit :=
  match kind with
  | .event _ _ => (.event (eventParameters n) (n.flag "anonymous"), .ok ())
  | .struct members =>
      let (members, result) := addMembers members (structMembers n)
      (.struct members, result)
  | .enum _ => (.enum (enumValues n), .ok ())
  | .error _ => (.error (errorParameters n), .ok ())
  | .usingFor _ => (.usingFor (usingEntries n), .ok ())

/-- Reads the content of a declaration, once. -/
def analyzeDeclaration (dialect : Dialect) (d : Declaration) :
    Declaration × Except FrontEndError Unit :=
  d.analyzeWith fun kind raw =>
    match raw with
    | json :: _ => readContent kind ⟨dialect, json⟩
    | [] => (kind, .error (.missingField "node" d.canonicalName))

end ContractCalls.Solidity
