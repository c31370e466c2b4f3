/-
From the output of the compiler to an analysed compilation.

Parsing registers everything there is; analysing resolves it in the order of
its dependencies, lowers the bodies and runs the passes.  Once either has
succeeded, doing it again changes nothing; one that failed is done again in
full, on top of what it left.
-/
import ContractCalls.Pipeline
import ContractCalls.Solidity.Decode
import ContractCalls.Solidity.Header
import ContractCalls.Solidity.Lowering
import ContractCalls.Solidity.Registration
import ContractCalls.Solidity.SourceUnit

namespace ContractCalls.Solidity

/-- A compilation being loaded. -/
structure Loader where
  unit : Compilation
  index : Index
  sources : List SourceUnit
  dialect : Dialect
  policy : FailurePolicy

/-- A step of loading; a failure keeps the loader it was met in. -/
abbrev Load := ExceptT FrontEndError (StateM Loader)

namespace Loader

/-- A loader of source units; the first one decides the dialect. -/
def new (target : String) (sources : List SourceUnit) (policy : FailurePolicy) : Loader :=
  { unit := .new target .solidity
    index := .empty
    sources
    dialect := (sources.head?.bind fun s => Node.detect? s.ast).getD .compact
    policy }

/-- A loader of compiler output. -/
def ofJson (target : String) (output : Json) (policy : FailurePolicy) :
    Except FrontEndError Loader :=
  (SourceUnit.extract output).map fun sources => new target sources policy

/-! ## Steps on parts of the loader -/

/-- Runs a step on the registered part. -/
def registering {α : Type} (step : Register α) : Load α := fun l =>
  let (result, r) := step ⟨l.unit, l.index⟩
  (result, { l with unit := r.unit, index := r.index })

/-- Runs a step on the compilation. -/
def onUnit {α : Type} (step : OnCompilation α) : Load α := fun l =>
  let (result, unit) := step l.unit
  (result, { l with unit })

/-- Changes the compilation. -/
def modifyUnit (f : Compilation → Compilation) : Load Unit :=
  modify fun l => { l with unit := f l.unit }

/-! ## Parsing -/

/-- Registers a source unit. -/
def registerSource (source : SourceUnit) : Load Unit := do
  let dialect := (← get).dialect
  if Node.detect? source.ast != some dialect then
    throw (.parsing (source.path ++ " does not use the " ++ dialect.render ++ " AST dialect"))
  let (scope, unit) := (← get).unit.addScope source.path
  modifyUnit fun _ => unit
  (Node.mk dialect source.ast).members.forM fun n =>
    registering (Register.topLevel scope source.path n)

/-- Registers every contract, declaration and definition. -/
def parse : Load Unit := do
  if (← get).unit.isParsed then return
  modify fun l => { l with unit := { l.unit with sourceList := SourceUnit.fileNames l.sources } }
  (← get).sources.forM registerSource
  modifyUnit (·.markParsed)

/-! ## Analysis -/

/-- Reads the content of the declaration at a position. -/
def readDeclaration (position : Nat) : Load Unit := do
  let l ← get
  match l.unit.declarations[position]? with
  | none => return ()
  | some d =>
      let (d, result) := analyzeDeclaration l.dialect d
      modifyUnit fun u => { u with declarations := u.declarations.modify position fun _ => d }
      match result with
      | .ok () => return ()
      | .error e => onUnit (Compilation.recover l.policy d.canonicalName "declaration" e)

/-- Builds the function headers. -/
def buildFunctions : Load Unit := do
  modify fun l =>
    let h := buildHeaders ⟨l.unit, l.index⟩
    { l with unit := h.unit, index := h.index }
  modify fun l => { l with unit := resolveHeaderCalls l.index l.unit }

/-- The bodies lowered so far, and the failures met on the way. -/
structure Lowered where
  bodies : List (FunctionId × Option Body)
  failures : List ErrorRecord

/-- Lowers the body of a definition; the counters go on whatever the outcome. -/
def lowerDefinition (l : Loader) (context : Option ContractId) (file : String) (n : Node)
    (counters : Counters) : Except FrontEndError (Option Body) × Counters :=
  match Definition.ofNode? (·.span? l.unit.sourceList file) n with
  | none => (.ok none, counters)
  | some definition =>
      let (result, counters) :=
        Build.runBody (definition.lower ⟨l.unit, l.index, context⟩) counters
      (result.map some, counters)

/-- Lowers the body of an implemented instance. -/
def lowerInstance (done : Lowered) (entry : Seat × FunctionId) : Load Lowered := do
  let l ← get
  match l.unit.function? entry.2, l.index.definitions.get? entry.1.definition with
  | some f, some n =>
      if !f.isImplemented then return done
      let file := (f.source.map (·.file)).getD ""
      let (result, counters) := lowerDefinition l entry.1.context file n l.unit.counters
      modifyUnit fun u => { u with counters }
      match result with
      | .ok body => return { done with bodies := done.bodies ++ [(entry.2, body)] }
      | .error e =>
          if l.policy.tolerates e then
            return { done with failures := done.failures ++ [⟨f.uid, "lower", e.message⟩] }
          else throw e
  | _, _ => return done

/-- Lowers all bodies, then stores them. -/
def lowerBodies : Load Unit := do
  let done ← (← get).index.orderedInstances.foldlM lowerInstance ⟨[], []⟩
  modifyUnit fun u =>
    done.failures.foldl Compilation.recordError
      (done.bodies.foldl
        (fun u (id, body) => u.modifyFunction id fun f => { f with body }) u)

/-- Resolves what was registered: variables, declarations and function headers. -/
def resolve : Load Unit := do
  let l ← get
  modifyUnit (resolveVariables l.index)
  (List.range l.unit.declarations.size).forM readDeclaration
  buildFunctions

/-- Resolves what was registered, lowers the bodies and runs the passes. -/
def analyze : Load Unit := do
  let l ← get
  if !l.unit.isParsed then throw (.sequencing "analyze before parse")
  if l.unit.isAnalyzed then return
  resolve
  lowerBodies
  onUnit (Compilation.runPasses l.policy Pass.default)
  onUnit Compilation.finishAnalysis

/-- Parses and analyses. -/
def load : Load Unit := do
  parse
  analyze

end Loader

end ContractCalls.Solidity
