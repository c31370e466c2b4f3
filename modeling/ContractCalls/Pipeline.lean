/-
The passes over the bodies of a parsed compilation: call sites, conversion to
single-assignment form, data dependencies.
-/
import ContractCalls.Body.SingleAssignment
import ContractCalls.Compilation

namespace ContractCalls

/-- A computation on a compilation; a failure keeps the compilation it was met in. -/
abbrev OnCompilation := ExceptT FrontEndError (StateM Compilation)

/-- A pass over a compilation. -/
inductive Pass where
  | callSites
  | ssa
  | dataDependency
deriving DecidableEq, Repr

namespace Pass

/-- The name of a pass. -/
def name : Pass → String
  | .callSites => "call-sites"
  | .ssa => "ssa"
  | .dataDependency => "data-dependency"

/-- The passes of an analysis, in order. -/
def default : List Pass := [.callSites, .ssa, .dataDependency]

end Pass

namespace Compilation

/-- Refills the call sites of every function from its body. -/
def collectCalls (u : Compilation) : Compilation :=
  { u with functions := u.functions.map Function.collectCalls }

/-- Converts the body of a function.  A failure that the policy tolerates drops the body and is
returned as a record. -/
def convertBody (policy : FailurePolicy) (f : Function) :
    Function × Except ModelError (Option ErrorRecord) :=
  match f.body with
  | none => (f, .ok none)
  | some body =>
      match body.toSsa with
      | (.ok (), body) => ({ f with body := some body }, .ok none)
      | (.error e, body) =>
          if policy.tolerates (.model e) then
            ({ f with body := none }, .ok (some ⟨f.uid, "ssa", e.message⟩))
          else ({ f with body := some body }, .error e)

/-- Converts the bodies of the functions from a position on. -/
def convertFrom (policy : FailurePolicy) : (count position : Nat) → (failures : List ErrorRecord) →
    OnCompilation Unit
  | 0, _, failures => modify fun u => failures.foldl recordError u
  | count + 1, position, failures => do
      match (← get).functions[position]? with
      | none => convertFrom policy count (position + 1) failures
      | some f =>
          let (f, result) := convertBody policy f
          modify (·.modifyFunction ⟨position⟩ fun _ => f)
          match result with
          | .ok none => convertFrom policy count (position + 1) failures
          | .ok (some record) => convertFrom policy count (position + 1) (failures ++ [record])
          | .error e => throw (.model e)

/-- Converts every body to single-assignment form. -/
def convertBodies (policy : FailurePolicy) : OnCompilation Unit := do
  convertFrom policy (← get).functions.size 0 []

/-- The dependencies of every function with a body, by uid. -/
def functionDependencies (u : Compilation) : Except ModelError (Table String DependencyMap) :=
  u.functions.toList.foldlM
    (fun table f =>
      match f.body with
      | none => .ok table
      | some body => do return table.insert f.uid (← body.dependencies))
    .empty

/-- The dependencies of state variables that a function adds to those of its contract. -/
def addStateDependencies (functions : Table String DependencyMap) (deps : DependencyMap)
    (f : Function) : DependencyMap :=
  match f.body, functions.get? f.uid with
  | some body, some found =>
      let names := body.stateNames
      found.entries.foldl
        (fun deps (name, sources) =>
          if names.contains name then addSources deps name sources else deps)
        deps
  | _, _ => deps

/-- The data dependencies of a compilation. -/
def dependencies (u : Compilation) : Except ModelError DataDependency := do
  let functions ← u.functionDependencies
  let contracts := u.contracts.toList.foldl
    (fun (table : Table String DependencyMap) contract =>
      table.insert contract.name
        ((u.functionsOf contract).foldl (addStateDependencies functions) .empty))
    .empty
  return ⟨functions, contracts⟩

/-- Computes the data dependencies. -/
def computeDependencies : OnCompilation Unit := do
  let u ← get
  match u.dependencies with
  | .ok dataDependency => set { u with dataDependency }
  | .error e => throw (.model e)

/-- Runs a pass on a parsed compilation. -/
def runPass (policy : FailurePolicy) (pass : Pass) : OnCompilation Unit := do
  if !(← get).isParsed then throw (.sequencing (pass.name ++ " before parse"))
  match pass with
  | .callSites => modify collectCalls
  | .ssa => convertBodies policy
  | .dataDependency => computeDependencies

/-- Runs passes in order. -/
def runPasses (policy : FailurePolicy) (passes : List Pass) : OnCompilation Unit :=
  passes.forM (runPass policy)

/-- Marks the compilation as analysed. -/
def finishAnalysis : OnCompilation Unit := do
  match (← get).markAnalyzed with
  | .ok u => set u
  | .error e => throw (.model e)

/-- Records a failure that the policy tolerates and fails with any other. -/
def recover (policy : FailurePolicy) (target stage : String) (error : FrontEndError) :
    OnCompilation Unit := do
  if policy.tolerates error then modify (·.recordError ⟨target, stage, error.message⟩)
  else throw error

end Compilation

end ContractCalls
