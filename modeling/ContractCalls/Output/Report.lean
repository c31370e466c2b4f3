/-
The JSON report: call edges of every function, by contract and visibility.
-/
import ContractCalls.CallGraph.Edge
import ContractCalls.CallGraph.Grouping
import ContractCalls.Json.Printer

namespace ContractCalls

/-! ## JSON forms -/

/-- An optional text. -/
def Json.ofText? (text : Option String) : Json := Json.ofOption .string text

/-- The JSON form of a visibility. -/
def Visibility.toJson (v : Visibility) : Json := .string v.render

namespace CallEntry

/-- The JSON form of a call. -/
def toJson (entry : CallEntry) : Json :=
  let shared := [("kind", .string entry.kind.render), ("edge", .string entry.edge.render)]
  Json.ofFields <| shared ++
    match entry with
    | .function _ id name display visibility context declaredIn =>
        [("id", .string id), ("name", .string name), ("display", .string display),
          ("visibility", Json.ofOption Visibility.toJson visibility),
          ("contract_context", Json.ofText? context), ("declared_in", Json.ofText? declaredIn)]
    | .getter _ name display contract =>
        [("name", .string name), ("display", .string display),
          ("contract", Json.ofText? contract)]
    | .solidity _ name => [("name", .string name)]
    | .unknown _ display => [("display", .string display)]

end CallEntry

namespace FunctionNode

/-- The JSON form of a function; a defaulted visibility is said only when it is so. -/
def toJson (node : FunctionNode) : Json :=
  Json.ofFields <|
    [("kind", .string "function"), ("id", .string node.id), ("name", .string node.name),
      ("display", .string node.display),
      ("visibility", Json.ofOption Visibility.toJson node.visibility),
      ("contract_context", Json.ofText? node.context),
      ("declared_in", Json.ofText? node.declaredIn),
      ("is_constructor", .bool node.isConstructor), ("is_fallback", .bool node.isFallback),
      ("is_receive", .bool node.isReceive), ("is_shadowed", .bool node.isShadowed),
      ("calls", Json.ofList CallEntry.toJson node.calls)] ++
    (if node.visibilityDefaulted then [("visibility_defaulted", .bool true)] else [])

end FunctionNode

/-- The JSON form of a recorded failure. -/
def ErrorRecord.toJson (record : ErrorRecord) : Json :=
  Json.ofFields [("target", .string record.target), ("stage", .string record.stage),
    ("error", .string record.error)]

/-! ## Reports -/

/-- The reported functions of a contract. -/
structure ContractReport where
  name : String
  functions : List (Visibility × List FunctionNode)
deriving DecidableEq, Repr

namespace ContractReport

/-- No function is reported. -/
def isEmpty (r : ContractReport) : Bool := r.functions.all fun (_, nodes) => nodes.isEmpty

/-- The reported functions with their visibility. -/
def nodes (r : ContractReport) : List (Visibility × FunctionNode) :=
  r.functions.flatMap fun (visibility, nodes) => nodes.map (visibility, ·)

def toJson (r : ContractReport) : Json :=
  Json.ofFields [("name", .string r.name),
    ("functions", Json.ofFields
      (r.functions.map fun (visibility, nodes) =>
        (visibility.render, Json.ofList FunctionNode.toJson nodes)))]

end ContractReport

/-- The report on one compilation. -/
structure CompilationReport where
  target : String
  contracts : List ContractReport
deriving DecidableEq, Repr

def CompilationReport.toJson (r : CompilationReport) : Json :=
  Json.ofFields [("target", .string r.target),
    ("contracts", Json.ofList ContractReport.toJson r.contracts)]

/-- What a report includes. -/
structure ReportOptions where
  filters : CallFilters
  query : VisibilityQuery

namespace Compilation

/-- The order of contracts in a report: by name and file. -/
def contractOrder : Ordered.Comparison Contract :=
  Ordered.lexically (Ordered.comparing Contract.name)
    (Ordered.comparing fun c => ((c.source.map (·.file)).getD ""))

/-- The report on a contract. -/
def contractReport (u : Compilation) (options : ReportOptions) (contract : Contract) :
    Except ModelError ContractReport := do
  let functions ← (u.groups contract options.query).mapM fun (visibility, ids) => do
    return (visibility, ← ids.mapM fun id => u.callEdges id options.filters)
  return ⟨contract.name, functions⟩

/-- The report on a compilation.  A contract without reported functions is left out, unless the
whole compilation is one module. -/
def report (u : Compilation) (target : String) (options : ReportOptions) :
    Except ModelError CompilationReport := do
  let contracts := Ordered.sort contractOrder u.contracts.toList
  let entries ← contracts.mapM (u.contractReport options)
  return ⟨target, entries.filter fun entry => !entry.isEmpty || u.language == .vyper⟩

end Compilation

/-- The name this tool gives itself in reports. -/
def toolName : String := "callsight"

/-- The report on all targets. -/
structure Report where
  targets : List String
  compilations : List CompilationReport
  errors : List ErrorRecord

namespace Report

/-- The JSON form of a report; failures are listed only if there are any. -/
def toJson (r : Report) : Json :=
  Json.ofFields <|
    [("tool", .string toolName), ("targets", Json.ofStrings r.targets),
      ("compilations", Json.ofList CompilationReport.toJson r.compilations)] ++
    (if r.errors.isEmpty then [] else [("errors", Json.ofList ErrorRecord.toJson r.errors)])

/-- The text of a report: indented JSON with sorted keys, ended by a line feed. -/
def render (r : Report) : String := r.toJson.pretty ++ "\n"

end Report

end ContractCalls
