/-
Registration of contracts, declarations and definitions.

A registration that fails keeps what was registered before the failure.
-/
import ContractCalls.Solidity.Declaration
import ContractCalls.Solidity.Index

namespace ContractCalls.Solidity

/-- What is registered. -/
structure Registry where
  unit : Compilation
  index : Index

/-- A registration; a failure keeps the registry it was met in. -/
abbrev Register := ExceptT FrontEndError (StateM Registry)

namespace Register

def modifyUnit (f : Compilation → Compilation) : Register Unit :=
  modify fun r => { r with unit := f r.unit }

def modifyIndex (f : Index → Index) : Register Unit :=
  modify fun r => { r with index := f r.index }

/-- The id of a node that has to have one. -/
def requiredId (n : Node) : Register Int :=
  match n.id? with
  | some id => pure id
  | none => throw (.missingField "id" n.nodeType)

/-- What the id of a declaration refers to. -/
def declarationRef? (n : Node) (canonicalName : String) : Option DeclRef :=
  match n.nodeType with
  | "EventDefinition" => some (.event canonicalName)
  | "ErrorDefinition" => some (.error canonicalName)
  | "StructDefinition" => some (.struct canonicalName)
  | "EnumDefinition" => some (.enum canonicalName)
  | _ => none

/-- Registers a declaration; nodes of other kinds or without a name are passed over. -/
def declaration (scope : ScopeId) (owner : Option String) (n : Node) : Register Unit := do
  match pendingKind? n, declarationName? n with
  | some kind, some name =>
      modifyUnit fun u => (u.addDeclaration scope owner name kind [n.json]).2
      match n.id?, declarationRef? n (Declaration.qualified owner name) with
      | some id, some ref => modifyIndex (·.setDeclaration id ref)
      | _, _ => pure ()
  | _, _ => pure ()

/-- Registers a function outside every contract. -/
def freeFunction (scope : ScopeId) (file : String) (n : Node) : Register Unit := do
  let id ← requiredId n
  modifyIndex fun i =>
    { (i.setDeclaration id (.function none)).setDefinition id n with
      freeFunctions := i.freeFunctions ++ [⟨scope, file, id⟩] }

/-- Registers a variable outside every contract. -/
def fileConstant (scope : ScopeId) (n : Node) : Register Unit := do
  let id ← requiredId n
  modifyIndex fun i =>
    { i.setDeclaration id (.fileConstant (n.name?.getD "") n.ty) with
      fileConstants := i.fileConstants ++ [(scope, n)] }

/-- The contract is abstract: it says so, or it is not fully implemented. -/
def isAbstract (n : Node) (kind : ContractKind) : Bool :=
  n.flag "abstract" ||
    (kind == .contract &&
      (n.attribute? "fullyImplemented").bind Json.asBool? == some false)

/-- Registers the definition of a function or modifier. -/
def definition (contract : ContractDefinition) (n : Node) : Register ContractDefinition := do
  let id ← requiredId n
  let ref : DeclRef :=
    if n.is "ModifierDefinition" then .modifier contract.id else .function (some contract.id)
  modifyIndex fun i => (i.setDeclaration id ref).setDefinition id n
  return { contract with definitions := contract.definitions ++ [id] }

/-- Registers a state variable. -/
def stateVariable (contract : ContractDefinition) (n : Node) : Register ContractDefinition := do
  if let some id := n.id? then
    modifyIndex (·.setDeclaration id (.stateVariable contract.id (n.name?.getD "") n.ty))
  return { contract with stateVariables := contract.stateVariables ++ [n] }

/-- Registers a member of a contract. -/
def member (scope : ScopeId) (owner : String) (contract : ContractDefinition) (n : Node) :
    Register ContractDefinition :=
  match n.nodeType with
  | "InheritanceSpecifier" =>
      return { contract with inheritance := contract.inheritance ++ [n] }
  | "VariableDeclaration" => stateVariable contract n
  | "FunctionDefinition" | "ModifierDefinition" => definition contract n
  | _ => do
      declaration scope (some owner) n
      return contract

/-- Registers a contract with its members. -/
def contract (scope : ScopeId) (file : String) (n : Node) : Register Unit := do
  match n.text? "name" with
  | none => throw (.missingField "name" n.nodeType)
  | some name =>
      let kind := ((n.text? "contractKind").map ContractKind.parse).getD .contract
      let (id, unit) := (← get).unit.addContract name kind scope
      modifyUnit fun _ => unit.modifyContract id fun c =>
        { c with
          isAbstract := isAbstract n kind
          astId := n.id?
          source := n.span? unit.sourceList file }
      if let some astId := n.id? then modifyIndex (·.setDeclaration astId (.contract id))
      let bare : ContractDefinition :=
        { id, file
          linearized :=
            (((n.attribute? "linearizedBaseContracts").bind Json.asArray?).getD []).filterMap
              Json.asInt?
          stateVariables := []
          definitions := []
          inheritance := if n.isCompact then n.nodes "baseContracts" else [] }
      let complete ← n.members.foldlM (member scope name) bare
      modifyIndex fun i => { i with contracts := i.contracts ++ [complete] }

/-- Registers a member of a source unit. -/
def topLevel (scope : ScopeId) (file : String) (n : Node) : Register Unit :=
  match n.nodeType with
  | "ContractDefinition" => contract scope file n
  | "FunctionDefinition" => freeFunction scope file n
  | "VariableDeclaration" => fileConstant scope n
  | _ => declaration scope none n

end Register

end ContractCalls.Solidity
