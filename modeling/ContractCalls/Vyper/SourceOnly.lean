/-
A compilation from source text alone.

It has the contract, functions and calls that a compiled module would have,
and no bodies.
-/
import ContractCalls.Pipeline
import ContractCalls.Vyper.Layout
import ContractCalls.Vyper.Module
import ContractCalls.Vyper.Outline

namespace ContractCalls.Vyper

open Text

namespace OutlinedFunction

/-- The source position of a function: its lines as a whole.  Line numbers are 32-bit words. -/
def span (f : OutlinedFunction) (file : String) (source : List Char) : Span :=
  let first := f.firstLine % Nat.pow 2 32
  let last := f.lastLine % Nat.pow 2 32
  let start := lineOffset source first
  { Span.bytes file start (lineOffset source (nextLine last) - start) with
    lines := some (first, last) }

/-- The header of a function. -/
def header (f : OutlinedFunction) (contractName file : String) (source : List Char) : Function :=
  moduleFunction contractName f.name f.visibility [] [] (some (f.span file source)) none

/-- The callees in a line, what follows a comment sign left out. -/
def lineCallees (layout : Layout) (line : List Char) : List Callee :=
  let code := line.takeWhile (· != '#')
  (CallText.ownCalls code).map layout.ownCallee ++
    (CallText.memberCalls code).map (fun (object, name) => outsideCallee (object ++ "." ++ name)) ++
    (CallText.bareCalls code).map .builtin

/-- The calls of a function. -/
def calls (f : OutlinedFunction) (layout : Layout) : CallSites :=
  (f.body.flatMap (lineCallees layout)).foldl Function.recordCallee .none

end OutlinedFunction

/-- Adds the headers of functions: the compilation, the functions by name and their ids. -/
def addOutlined (contract : ContractId) (contractName file : String) (source : List Char)
    (functions : List OutlinedFunction) (u : Compilation) :
    Compilation × Layout × List (OutlinedFunction × FunctionId) :=
  functions.foldl
    (fun (u, layout, added) f =>
      let (id, u) := addModuleFunction u contract (f.header contractName file source)
      (u, { layout with functions := layout.functions.insert f.name id }, added ++ [(f, id)]))
    (u, Layout.new contractName, [])

/-- The compilation of a source text that was not compiled. -/
def sourceUnit (target contractName file source : String) (policy : FailurePolicy) :
    Except FrontEndError Compilation :=
  let (contract, u) := moduleUnit target contractName file source
  let (u, layout, added) :=
    addOutlined contract contractName file source.toList (outline source) u
  let u := added.foldl
    (fun u (f, id) => u.modifyFunction id fun g => { g with calls := f.calls layout }) u
  let analysis : OnCompilation Unit := do
    Compilation.runPasses policy Pass.default
    Compilation.finishAnalysis
  match analysis.run u.markParsed with
  | (.ok (), u) => .ok u
  | (.error e, _) => .error e

end ContractCalls.Vyper
