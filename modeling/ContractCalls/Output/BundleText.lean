/-
Bundles as texts: the source of an entry function, the targets without code,
and the source of every function reached from the entry.  Who reads a bundle
has read everything an external caller can make the contract execute.
-/
import ContractCalls.CallGraph.Bundle
import ContractCalls.CallGraph.Grouping
import ContractCalls.Output.FileName

namespace ContractCalls

open Text

/-- The entry asked for is no function of the compilation. -/
structure UnknownEntry where
  id : FunctionId
deriving DecidableEq, Repr

/-- Text of the failure. -/
def UnknownEntry.message (e : UnknownEntry) : String := "no function with id " ++ e.id.render

namespace Compilation

/-- Where a function stands in its source. -/
def sourceHint? (u : Compilation) (f : Function) : Option String :=
  f.source.map fun span =>
    match u.sources.lineRange? span with
    | some (first, last) =>
        span.file ++ ":L" ++ toString first ++ "-L" ++ toString last
    | none => span.file

/-- The source of a function without the line feeds around it, unless nothing is left. -/
def sourceText? (u : Compilation) (f : Function) : Option String := do
  let snippet ← u.sources.snippet? (← f.source)
  match dropBoth (· == '\n') snippet.toList with
  | [] => none
  | cs => some (String.ofList cs)

/-- The lines that show a function: where it stands, and its source. -/
def sourceSection (u : Compilation) (f : Function) : List String :=
  let hint := match u.sourceHint? f with
    | some hint => ["// source: " ++ hint]
    | none => []
  hint ++ [(u.sourceText? f).getD "// <no source mapping available>"]

/-- The lines on one leaf. -/
def leafLine (leaf : Leaf) : String :=
  "//   - (" ++ leaf.edge.render ++ ") [" ++ leaf.kind.render ++ "]: " ++ leaf.label

/-- The lines on the leaves, if there are any. -/
def leafSection : List Leaf → List String
  | [] => []
  | leaves => ["", "// leaf targets (no body):"] ++ leaves.map leafLine

/-- The lines on one reached function. -/
def reachedSection (u : Compilation) (reached : EdgeKind × FunctionId) : List String :=
  match u.function? reached.2 with
  | none => []
  | some callee =>
      ["", "// ---- reachable (" ++ reached.1.render ++ ") [" ++ callee.visibility.render ++ "]: " ++
        callee.displayName] ++ u.sourceSection callee

/-- The text of a bundle, which ends in exactly one line feed. -/
def renderBundle (u : Compilation) (entry : Function) (bundle : Bundle) : String :=
  let sections :=
    ["// entry (" ++ entry.visibility.render ++ "): " ++ entry.displayName] ++
      u.sourceSection entry ++ leafSection bundle.leaves ++
      bundle.reachable.flatMap u.reachedSection
  String.ofList (trimRight ("\n".intercalate sections).toList) ++ "\n"

/-- The text of the bundle of a function. -/
def bundleText (u : Compilation) (entry : FunctionId) (filters : CallFilters) :
    Except UnknownEntry String :=
  match u.function? entry, u.bundle entry filters with
  | some f, .ok bundle => .ok (u.renderBundle f bundle)
  | _, _ => .error ⟨entry⟩

end Compilation

namespace Function

/-- The extension of the file a function was written in, with its dot. -/
def sourceExtension (f : Function) : String :=
  match f.source.bind fun span => FileName.extension? span.file with
  | some extension => "." ++ extension
  | none => ".sol"

/-- The file for the bundle of a function: a directory per contract, a file per uid. -/
def bundlePath (f : Function) (directory : String) : String :=
  let contract := (f.context.or f.declarer).getD "UnknownContract"
  FileName.join (FileName.join directory (FileName.safe contract))
    (FileName.safe f.uid ++ f.sourceExtension)

end Function

/-- The external functions of every contract, in the order their bundles are written. -/
def Compilation.externalEntries (u : Compilation) (query : VisibilityQuery) : List FunctionId :=
  let query := { query with visibilities := some [.external] }
  u.contracts.toList.flatMap fun contract =>
    ((u.groups contract query).filter (·.1 == .external)).flatMap (·.2)

end ContractCalls
