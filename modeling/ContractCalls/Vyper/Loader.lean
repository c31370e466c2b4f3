/-
From the tree of a module to an analysed compilation.

Parsing registers state variables, declarations and function headers;
analysing reads the declarations, lowers the bodies and runs the passes.
Once either has succeeded, doing it again changes nothing; one that failed is
done again in full, on top of what it left.
-/
import ContractCalls.Pipeline
import ContractCalls.Vyper.Declaration
import ContractCalls.Vyper.Lowering

namespace ContractCalls.Vyper

/-- A module being loaded. -/
structure Loader where
  unit : Compilation
  contract : ContractId
  file : String
  tree : Node
  layout : Layout
  policy : FailurePolicy

/-- A step of loading; a failure keeps the loader it was met in. -/
abbrev Load := ExceptT FrontEndError (StateM Loader)

namespace Loader

/-- A loader of the tree of a module. -/
def new (target contractName file source : String) (tree : Json) (policy : FailurePolicy) :
    Loader :=
  let (contract, unit) := moduleUnit target contractName file source
  { unit, contract, file, tree := ⟨tree⟩, layout := .new contractName, policy }

/-- Changes the compilation. -/
def modifyUnit (f : Compilation → Compilation) : Load Unit :=
  modify fun l => { l with unit := f l.unit }

/-- Runs a step on the compilation. -/
def onUnit {α : Type} (step : OnCompilation α) : Load α := fun l =>
  let (result, unit) := step l.unit
  (result, { l with unit })

/-- The source position of a node of the module. -/
def locate (l : Loader) (n : Node) : Option Span := n.span? l.file (l.unit.sources.get? l.file)

/-- The top-level nodes of the module. -/
def members (l : Loader) : List Node := l.tree.nodes "body"

/-! ## Parsing -/

/-- The names of the members of a kind. -/
def namesOf (kind : String) (members : List Node) : List String :=
  (members.filter (·.is kind)).filterMap Node.name?

/-- Registers a state variable. -/
def registerVariable (n : Node) : Load Unit := do
  let l ← get
  match stateVariable l.layout n with
  | .error e => throw e
  | .ok declared =>
      set { l with
        layout := { l.layout with states := l.layout.states.insert declared.name declared.ty }
        unit := l.unit.modifyContract l.contract fun c =>
          { c with stateVariables := c.stateVariables ++ [declared] } }

/-- Registers a declaration of the contract. -/
def registerDeclaration (kind : DeclKind) (n : Node) : Load Unit := do
  let l ← get
  match n.name?, l.unit.contract? l.contract with
  | some name, some contract =>
      modifyUnit fun u =>
        (u.addDeclaration contract.scope (some l.layout.contractName) name kind [n.json]).2
  | some _, none => return ()
  | none, _ => throw (.missingField "name" n.astType)

/-- Registers a function; of two with one name the later one is meant by it. -/
def registerFunction (n : Node) : Load Unit :=
  modify fun l =>
    let f := functionHeader l.layout l.locate n
    let (id, unit) := addModuleFunction l.unit l.contract f
    { l with
      unit
      layout := { l.layout with
        functions := l.layout.functions.insert f.name id
        returns := l.layout.returns.insert f.name (f.returns.map (·.ty)) } }

/-- Registers a member of the module. -/
def registerMember (n : Node) : Load Unit :=
  match n.astType, pendingKind? n with
  | _, some kind => registerDeclaration kind n
  | "VariableDecl", none => registerVariable n
  | "FunctionDef", none => registerFunction n
  | _, none => return ()

/-- Registers state variables, declarations and function headers. -/
def parse : Load Unit := do
  let l ← get
  if l.unit.isParsed then return
  if !l.tree.is "Module" then
    throw (.parsing ("expected a Module AST, found " ++ l.tree.astType))
  let types : UserTypes :=
    { structs := l.layout.types.structs ++ namesOf "StructDef" l.members
      interfaces := l.layout.types.interfaces ++ namesOf "InterfaceDef" l.members }
  set { l with layout := { l.layout with types } }
  l.members.forM registerMember
  modifyUnit (·.markParsed)

/-! ## Analysis -/

/-- Reads the content of the declaration at a position. -/
def readDeclaration (position : Nat) : Load Unit := do
  let l ← get
  match l.unit.declarations[position]? with
  | none => return ()
  | some d =>
      let (d, result) := analyzeDeclaration l.layout.types d
      modifyUnit fun u => { u with declarations := u.declarations.modify position fun _ => d }
      match result with
      | .ok () => return ()
      | .error e => onUnit (Compilation.recover l.policy d.canonicalName "declaration" e)

/-- The bodies lowered so far, and the failures met on the way. -/
structure Lowered where
  bodies : List (FunctionId × Body)
  failures : List ErrorRecord

/-- Lowers the body of a function; the counters go on whatever the outcome. -/
def lowerFunction (done : Lowered) (n : Node) : Load Lowered := do
  let l ← get
  match (n.text? "name").bind l.layout.functions.get? with
  | none => return done
  | some id =>
      let definition := Definition.ofNode l.layout.types l.locate n
      let (result, counters) := Build.runBody (definition.lower l.layout) l.unit.counters
      modifyUnit fun u => { u with counters }
      match result with
      | .ok body => return { done with bodies := done.bodies ++ [(id, body)] }
      | .error e =>
          if l.policy.tolerates e then
            let uid := ((l.unit.function? id).map Function.uid).getD ""
            return { done with failures := done.failures ++ [⟨uid, "lower", e.message⟩] }
          else throw e

/-- Stores the body of a function. -/
def storeBody (u : Compilation) (entry : FunctionId × Body) : Compilation :=
  u.modifyFunction entry.1 fun f => { f with body := some entry.2 }

/-- Stores the bodies and records the failures. -/
def Lowered.store (done : Lowered) (u : Compilation) : Compilation :=
  done.failures.foldl Compilation.recordError (done.bodies.foldl storeBody u)

/-- Lowers all bodies, then stores them. -/
def lowerBodies : Load Unit := do
  let definitions := (← get).members.filter (·.is "FunctionDef")
  let done ← definitions.foldlM lowerFunction ⟨[], []⟩
  modifyUnit done.store

/-- Reads the declarations and lowers the bodies. -/
def lower : Load Unit := do
  let l ← get
  (List.range l.unit.declarations.size).forM readDeclaration
  lowerBodies

/-- Reads the declarations, lowers the bodies and runs the passes. -/
def analyze : Load Unit := do
  let l ← get
  if !l.unit.isParsed then throw (.sequencing "analyze before parse")
  if l.unit.isAnalyzed then return
  lower
  onUnit (Compilation.runPasses l.policy Pass.default)
  onUnit Compilation.finishAnalysis

/-- Parses and analyses. -/
def load : Load Unit := do
  parse
  analyze

end Loader

end ContractCalls.Vyper
