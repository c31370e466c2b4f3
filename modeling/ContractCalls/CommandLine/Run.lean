/-
A run of the tool: from arguments to a report and the files beside it.

Targets are loaded one after the other.  A failure ends the run, unless the
arguments ask to go on; then it becomes part of the report.
-/
import ContractCalls.CommandLine.Arguments
import ContractCalls.CommandLine.Failure
import ContractCalls.CommandLine.Host
import ContractCalls.Output.Dot
import ContractCalls.Output.Listing
import ContractCalls.Solidity.Loader
import ContractCalls.Vyper.Source

namespace ContractCalls.CommandLine

open Text

namespace Arguments

/-! ## What the arguments ask for -/

/-- The calls to report. -/
def filters (a : Arguments) : CallFilters :=
  { external := !a.has .noExternalCalls
    library := !a.has .noLibraryCalls
    solidity := a.has .includeSolidityCalls
    modifiers := !a.has .noModifiers
    baseConstructors := !a.has .noBaseConstructors }

/-- The visibility of a name. -/
def visibility (name : String) : Except Failure Visibility :=
  match Visibility.parse? name with
  | some visibility => .ok visibility
  | none => .error (.of ("unknown visibility `" ++ name ++ "`"))

/-- The names of visibilities in a value, empty ones left out. -/
def visibilityNames (value : String) : List String :=
  (((splitAtChar ',' value.toList).map trim).filter (!·.isEmpty)).map String.ofList

/-- The functions to report. -/
def query (a : Arguments) : Except Failure VisibilityQuery := do
  let visibilities ← match a.valuesOf .onlyVisibility with
    | [] => pure none
    | values => some <$> (values.flatMap visibilityNames).mapM visibility
  return { includeInherited := !a.has .declaredOnly
           includeShadowed := a.has .includeShadowed
           visibilities }

/-- How Vyper sources are compiled. -/
def vyperOptions (a : Arguments) : Vyper.Options :=
  { version := a.value? .compilerVersion
    externalCalls := !a.has .noExternalCalls
    builtinCalls := a.has .includeSolidityCalls }

/-- The compiler of Vyper sources. -/
def vyperCompiler (a : Arguments) : String := (a.value? .compilerBinary).getD "vyper"

/-- What failures do to an analysis. -/
def policy (a : Arguments) : FailurePolicy :=
  if a.has .noFail then .collectAndContinue else .stopOnFirst

end Arguments

/-! ## Targets -/

/-- The target is a Vyper source. -/
def isVyper (target : String) : Bool := FileName.extension? target == some "vy"

/-- The stage that loads a target. -/
def stageOf (target : String) : String := if isVyper target then "vyper" else "contract_preprocess"

/-- The targets in the text of a targets file: its lines without blanks around them, but for
empty lines and comments. -/
def listedTargets (text : String) : List String :=
  ((lines text.toList).map trim |>.filter fun line =>
    !line.isEmpty && !startsWith ['#'] line).map String.ofList

/-- The list without what it has earlier. -/
def distinct : List String → List String
  | [] => []
  | x :: xs => x :: (distinct xs).filter (· != x)

/-- What a run has so far. -/
structure Progress where
  report : Report
  units : List (String × Compilation)

namespace Progress

/-- Nothing but the targets. -/
def start (targets : List String) : Progress := ⟨⟨targets, [], []⟩, []⟩

/-- Adds failures to the report. -/
def addErrors (p : Progress) (errors : List ErrorRecord) : Progress :=
  { p with report := { p.report with errors := p.report.errors ++ errors } }

/-- Adds a compilation to the report. -/
def addCompilation (p : Progress) (compilation : CompilationReport) : Progress :=
  { p with report := { p.report with compilations := p.report.compilations ++ [compilation] } }

/-- Keeps a loaded compilation. -/
def addUnit (p : Progress) (target : String) (unit : Compilation) : Progress :=
  { p with units := p.units ++ [(target, unit)] }

/-- Records a failure if the arguments ask for that, and fails with it otherwise. -/
def recordFailure (p : Progress) (a : Arguments) (target stage : String) (failure : Failure) :
    Except Failure Progress :=
  if a.has .noFail then .ok (p.addErrors [⟨target, stage, failure.inline⟩])
  else .error (failure.within (stage ++ " failed for " ++ target))

end Progress

/-! ## Steps of a run -/

section Steps

variable {m : Type → Type} [Monad m]

/-- The outcome of a request to the system, in a context if there is one. -/
def request {α : Type} (context : Option String) (outcome : m (Except SystemError α)) :
    ExceptT Failure m α := do
  match ← outcome with
  | .ok a => return a
  | .error e =>
      let failure := Failure.of e.message
      match context with
      | some context => throw (failure.within context)
      | none => throw failure

/-- The outcome of a step of a front end. -/
def frontEnd {α : Type} (result : Except FrontEndError α) : ExceptT Failure m α :=
  match result with
  | .ok a => return a
  | .error e => throw (.ofFrontEnd e)

/-- The targets of a run: those of the targets file, then those among the arguments. -/
def loadTargets (host : Host m) (a : Arguments) : ExceptT Failure m (List String) := do
  let listed ← match a.value? .targetsFile with
    | some file => do
        let text ← request (some ("reading targets file " ++ file)) (host.read file)
        pure (listedTargets text)
    | none => pure []
  return distinct (listed ++ a.targets)

/-- The text of the file of a target. -/
def readTarget (host : Host m) (path : String) : ExceptT Failure m String := do
  match ← host.read path with
  | .ok text => return text
  | .error e => frontEnd (.error (.io e.message))

/-- What a compiler says to a source. -/
def askCompiler (host : Host m) (a : Arguments) (source : Vyper.Source) :
    m (Except FrontEndError Json) := do
  let text := source.compilerText a.vyperOptions
  match ← host.compile a.vyperCompiler (Vyper.Compiler.request source.file text).compact with
  | .ok output => return Vyper.Compiler.outcome output.stdout output.stderr
  | .error e => return .error (Vyper.Compiler.notFound a.vyperCompiler e.message)

/-- Loads a Vyper source. -/
def loadVyper (host : Host m) (a : Arguments) (path : String) : ExceptT Failure m Compilation := do
  let source : Vyper.Source := ⟨path, ← readTarget host path⟩
  let answer ← ExceptT.lift (askCompiler host a source)
  frontEnd (source.build a.vyperOptions a.policy answer)

/-- The texts of files beside a path, those that can be read. -/
def readBeside (host : Host m) (path : String) : List String → m (List (String × String))
  | [] => return []
  | file :: rest => do
      let base := (FileName.parent? path).getD "."
      let found ← host.read (FileName.join base file)
      let others ← readBeside host path rest
      match found with
      | .ok text => return (file, text) :: others
      | .error _ => return others

/-- Loads compiler output, with the sources found beside it. -/
def loadSolidity (host : Host m) (a : Arguments) (path : String) :
    ExceptT Failure m Compilation := do
  let text ← readTarget host path
  match Json.parse? text with
  | none => frontEnd (.error .json)
  | some output =>
      let loader ← frontEnd (Solidity.Loader.ofJson path output a.policy)
      let sources ← ExceptT.lift (readBeside host path (loader.sources.map (·.path)))
      let unit := sources.foldl
        (fun (u : Compilation) (file, text) => { u with sources := u.sources.insert file text })
        loader.unit
      match Solidity.Loader.load.run { loader with unit } with
      | (.ok (), loader) => return loader.unit
      | (.error e, _) => frontEnd (.error e)

/-- Loads a target. -/
def loadTarget (host : Host m) (a : Arguments) (target : String) :
    ExceptT Failure m Compilation := do
  if !(← host.isFile target) then throw (.of (target ++ " is not a file"))
  if isVyper target then loadVyper host a target else loadSolidity host a target

/-! ## Files beside the report -/

/-- Writes a file. -/
def writeFile (host : Host m) (path text : String) : ExceptT Failure m Unit :=
  request (some ("writing " ++ path)) (host.write path text)

/-- Writes the bundle of a function: the path of its file. -/
def writeBundle (host : Host m) (directory : String) (filters : CallFilters) (u : Compilation)
    (entry : FunctionId) : ExceptT Failure m String := do
  match u.function? entry, u.bundleText entry filters with
  | some f, .ok text =>
      let path := f.bundlePath directory
      if let some parent := FileName.parent? path then
        request (some ("creating " ++ parent)) (host.makeDirectories parent)
      writeFile host path text
      return path
  | _, _ => throw (.of (UnknownEntry.mk entry).message)

/-- Writes the bundles of the external functions of a compilation: the paths of their files. -/
def writeBundles (host : Host m) (directory : String) (options : ReportOptions)
    (u : Compilation) : ExceptT Failure m (List String) :=
  (u.externalEntries options.query).mapM (writeBundle host directory options.filters u)

/-- The directory for the bundles of a target; several targets have one each. -/
def bundleDirectory (base : String) (targets : List String) (target : String) : String :=
  if targets.length > 1 then FileName.join base (FileName.safe target) else base

/-- A number with at least three digits. -/
def threeDigits (n : Nat) : String :=
  let digits := toString n
  String.ofList (List.replicate (3 - digits.length) '0') ++ digits

/-- The file for one of several call graphs. -/
def callGraphPath (directory : String) (position : Nat) (target : String) : String :=
  FileName.join directory (threeDigits position ++ "." ++ FileName.safe target ++ ".dot")

/-- Writes call graphs, from a position on. -/
def writeCallGraphsFrom (host : Host m) (directory : String) : (position : Nat) →
    List CompilationReport → ExceptT Failure m Unit
  | _, [] => return ()
  | position, report :: rest => do
      writeFile host (callGraphPath directory position report.target) (Dot.ofReport report)
      writeCallGraphsFrom host directory (position + 1) rest

/-- Writes the call graphs beside the report: a file for one, a directory for several. -/
def writeCallGraphs (host : Host m) (report : Report) (output : String) :
    ExceptT Failure m Unit := do
  match report.compilations with
  | [] => return ()
  | [only] => writeFile host (FileName.withExtension output "callgraph.dot") (Dot.ofReport only)
  | several =>
      let stem := (FileName.stem? output).getD "report"
      let directory :=
        FileName.join ((FileName.parent? output).getD ".") (stem ++ ".callgraph")
      request none (host.makeDirectories directory)
      writeCallGraphsFrom host directory 0 several

/-- The listings of compilations. -/
def listings (units : List (String × Compilation)) : String :=
  String.join (units.map fun (target, unit) =>
    "// target: " ++ target ++ "\n" ++ unit.listing false)

/-- Writes the listings beside the report. -/
def writeListings (host : Host m) (units : List (String × Compilation)) (output : String) :
    ExceptT Failure m Unit :=
  writeFile host (FileName.withExtension output "ir") (listings units)

/-! ## The run -/

/-- The outcome of a step, as a value. -/
def attempt {α : Type} (step : ExceptT Failure m α) : ExceptT Failure m (Except Failure α) :=
  ExceptT.lift step.run

/-- Writes the bundles of a loaded target, if the arguments ask for them. -/
def dumpTarget (host : Host m) (a : Arguments) (options : ReportOptions) (p : Progress)
    (target : String) (unit : Compilation) : ExceptT Failure m Progress := do
  match a.value? .bundleDirectory with
  | none => return p
  | some base =>
      let directory := bundleDirectory base p.report.targets target
      match ← attempt (writeBundles host directory options unit) with
      | .ok _ => return p
      | .error failure => ExceptT.mk (pure (p.recordFailure a target "dump-external" failure))

/-- Loads a target and adds it to the report. -/
def runTarget (host : Host m) (a : Arguments) (options : ReportOptions) (p : Progress)
    (target : String) : ExceptT Failure m Progress := do
  match ← attempt (loadTarget host a target) with
  | .error failure => ExceptT.mk (pure (p.recordFailure a target (stageOf target) failure))
  | .ok unit =>
      match unit.report target options with
      | .error e => throw (.of e.message)
      | .ok compilation =>
          let p := (p.addErrors unit.errors).addCompilation compilation
          return (← dumpTarget host a options p target unit).addUnit target unit

/-- The line that says that all is done. -/
def successLine (report : Report) (output : String) : String :=
  " SUCCESS: " ++ toString report.compilations.length ++ " compilation(s), " ++
    toString report.errors.length ++ " error(s) -> " ++ output ++ "\n"

/-- Writes the report, and what the arguments want beside it. -/
def finish (host : Host m) (a : Arguments) (p : Progress) : ExceptT Failure m Unit := do
  match a.value? .output with
  | none => host.print p.report.render
  | some output =>
      writeFile host output p.report.render
      if a.has .emitCallGraph then writeCallGraphs host p.report output
      if a.has .emitListing then writeListings host p.units output
      if a.has .verbose then host.note (successLine p.report output)

/-- Runs the tool on arguments that were read. -/
def runArguments (host : Host m) (a : Arguments) : ExceptT Failure m Unit := do
  let targets ← loadTargets host a
  if targets.isEmpty then
    throw (.of "No targets provided. Pass targets as arguments or via --targets-file.")
  let options : ReportOptions := ⟨a.filters, ← ExceptT.mk (pure a.query)⟩
  let p ← targets.foldlM (runTarget host a options) (.start targets)
  finish host a p

/-- Runs the tool on a command line: the exit code. -/
def run (host : Host m) (texts : List String) : m Nat := do
  match Arguments.read texts with
  | .error .information =>
      host.print Arguments.usage
      return 0
  | .error .misuse =>
      host.note Arguments.usage
      return 2
  | .ok a =>
      match ← (runArguments host a).run with
      | .ok () => return 0
      | .error failure =>
          host.note failure.render
          return 1

end Steps

end ContractCalls.CommandLine
