/-
A compilation: everything known about the contracts of one target.
-/
import ContractCalls.Body.Dependency
import ContractCalls.Contract

namespace ContractCalls

/-- The language of a compilation. -/
inductive Language where
  | solidity
  | vyper
deriving DecidableEq, Repr

/-- The name of a language. -/
def Language.render : Language → String
  | .solidity => "Solidity"
  | .vyper => "Vyper"

/-- A failure that did not end the analysis. -/
structure ErrorRecord where
  target : String
  stage : String
  error : String
deriving DecidableEq, Repr

/-- Dependencies between variables, by function and aggregated by contract. -/
structure DataDependency where
  /-- By the uid of the function. -/
  functions : Table String DependencyMap
  /-- By the name of the contract; state variables only. -/
  contracts : Table String DependencyMap
deriving Repr

namespace DataDependency

/-- Nothing known. -/
def empty : DataDependency := ⟨.empty, .empty⟩

/-- A table of dependencies has `source` in the set of `name`. -/
def holds (table : Table String DependencyMap) (key name source : String) : Bool :=
  match (table.get? key).bind (·.get? name) with
  | some sources => sources.contains source
  | none => false

/-- In a function, a variable depends on another. -/
def isDependent (d : DataDependency) (uid name source : String) : Bool :=
  holds d.functions uid name source

/-- In a contract, a state variable depends on another variable. -/
def isStateDependent (d : DataDependency) (contract name source : String) : Bool :=
  holds d.contracts contract name source

end DataDependency

/-- The contracts, declarations and functions of one target. -/
structure Compilation where
  target : String
  language : Language
  scopes : Array FileScope
  declarations : Array Declaration
  contracts : Array Contract
  functions : Array Function
  sources : SourceFiles
  /-- File names by the index that compilers use for them. -/
  sourceList : List String
  counters : Counters
  dataDependency : DataDependency
  errors : List ErrorRecord
  warning : Option String
  isParsed : Bool
  isAnalyzed : Bool

namespace Compilation

/-- A compilation of which nothing is known. -/
def new (target : String) (language : Language) : Compilation :=
  { target, language
    scopes := #[], declarations := #[], contracts := #[], functions := #[]
    sources := .empty, sourceList := [], counters := .start
    dataDependency := .empty, errors := [], warning := none
    isParsed := false, isAnalyzed := false }

/-- Marks the compilation as parsed. -/
def markParsed (u : Compilation) : Compilation := { u with isParsed := true }

/-- Marks a parsed compilation as analysed. -/
def markAnalyzed (u : Compilation) : Except ModelError Compilation :=
  if u.isParsed then .ok { u with isAnalyzed := true }
  else .error (.sequencing "analyze before parse")

/-! ## Scopes -/

def scope? (u : Compilation) (id : ScopeId) : Option FileScope := u.scopes[id.index]?

def modifyScope (u : Compilation) (id : ScopeId) (f : FileScope → FileScope) : Compilation :=
  { u with scopes := u.scopes.modify id.index f }

/-- The scope of a file, made on first use. -/
def addScope (u : Compilation) (filename : String) : ScopeId × Compilation :=
  match u.scopes.find? (·.filename == filename) with
  | some scope => (scope.id, u)
  | none =>
      let id : ScopeId := ⟨u.scopes.size⟩
      (id, { u with scopes := u.scopes.push (.new id filename) })

/-! ## Contracts -/

def contract? (u : Compilation) (id : ContractId) : Option Contract := u.contracts[id.index]?

def modifyContract (u : Compilation) (id : ContractId) (f : Contract → Contract) : Compilation :=
  { u with contracts := u.contracts.modify id.index f }

/-- Adds a contract to a scope. -/
def addContract (u : Compilation) (name : String) (kind : ContractKind) (scope : ScopeId) :
    ContractId × Compilation :=
  let id : ContractId := ⟨u.contracts.size⟩
  let u := { u with contracts := u.contracts.push (.new id name kind scope) }
  (id, u.modifyScope scope fun s => { s with contracts := s.contracts.insert name id })

/-- The first contract of a name. -/
def contractByName? (u : Compilation) (name : String) : Option Contract :=
  u.contracts.find? (·.name == name)

/-! ## Declarations -/

def declaration? (u : Compilation) (id : DeclId) : Option Declaration := u.declarations[id.index]?

/-- Adds a declaration to its scope, under its qualified name, and to the contract that owns it. -/
def addDeclaration (u : Compilation) (scope : ScopeId) (owner : Option String) (name : String)
    (kind : DeclKind) (raw : List Json) : DeclId × Compilation :=
  let id : DeclId := ⟨u.declarations.size⟩
  let canonicalName := Declaration.qualified owner name
  let u := { u with
    declarations := u.declarations.push ⟨id, scope, owner, name, canonicalName, kind, raw⟩ }
  let u := u.modifyScope scope fun s =>
    { s with declarations := s.declarations.insert canonicalName id }
  let u := match owner.bind u.contractByName? with
    | some contract =>
        u.modifyContract contract.id fun c => { c with declarations := c.declarations ++ [id] }
    | none => u
  (id, u)

/-! ## Functions -/

def function? (u : Compilation) (id : FunctionId) : Option Function := u.functions[id.index]?

def modifyFunction (u : Compilation) (id : FunctionId) (f : Function → Function) : Compilation :=
  { u with functions := u.functions.modify id.index f }

/-- The id the next function gets. -/
def nextFunctionId (u : Compilation) : FunctionId := ⟨u.functions.size⟩

/-- Adds a function under the next id. -/
def addFunction (u : Compilation) (function : Function) : FunctionId × Compilation :=
  let id := u.nextFunctionId
  (id, { u with functions := u.functions.push { function with id } })

/-- The first function of a uid. -/
def functionByUid? (u : Compilation) (uid : String) : Option Function :=
  u.functions.find? (·.uid == uid)

/-- The functions of a contract, in its order. -/
def functionsOf (u : Compilation) (contract : Contract) : List Function :=
  contract.functions.filterMap u.function?

/-- The name of a function for readers, or its id if there is none. -/
def functionLabel (u : Compilation) (id : FunctionId) : String :=
  match u.function? id with
  | some function => function.displayName
  | none => id.render

/-- Records a failure. -/
def recordError (u : Compilation) (record : ErrorRecord) : Compilation :=
  { u with errors := u.errors ++ [record] }

end Compilation

end ContractCalls
