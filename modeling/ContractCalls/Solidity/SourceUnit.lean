/-
The source units in the output of the compiler.

Accepted are a bare source unit, combined output and standard output; source
units come in the order of the indices the compiler gave their files.
-/
import ContractCalls.Error
import ContractCalls.Solidity.Node

namespace ContractCalls.Solidity

/-- The tree of one file. -/
structure SourceUnit where
  path : String
  /-- The index the compiler uses for the file. -/
  index : Option Nat
  ast : Json
deriving Repr

namespace SourceUnit

/-- A tree that stands alone. -/
def ofTree (dialect : Dialect) (ast : Json) : SourceUnit :=
  let root : Node := ⟨dialect, ast⟩
  ⟨(root.text? "absolutePath").getD "<input>", root.src?.bind Span.fileIndex?, ast⟩

/-- The tree of an entry of `sources`. -/
def tree? (entry : Json) : Option Json :=
  ["ast", "AST", "legacyAST"].findSome? fun key => (entry.get? key).filter Json.isObject

/-- The source unit of an entry of `sources`, if it has a tree. -/
def ofEntry? (sourceList : List String) (path : String) (entry : Json) : Option SourceUnit :=
  (tree? entry).map fun ast =>
    let given := (entry.get? "id").bind Json.asNat?
    let listed := sourceList.findIdx? (· == path)
    let written := ((ast.get? "src").bind Json.asString?).bind Span.fileIndex?
    ⟨path, given.or (listed.or written), ast⟩

/-- The order of source units: by index, those without one last. -/
def order : Ordered.Comparison SourceUnit :=
  Ordered.comparing fun s => s.index.getD Text.maxWord

/-- The source units of compiler output. -/
def extract (output : Json) : Except FrontEndError (List SourceUnit) :=
  match Node.detect? output with
  | some dialect => .ok [ofTree dialect output]
  | none =>
      match (output.get? "sources").bind Json.asObject? with
      | none => .error (.parsing "no SourceUnit or sources object found")
      | some sources =>
          let sourceList :=
            (((output.get? "sourceList").bind Json.asArray?).getD []).filterMap Json.asString?
          let units := sources.filterMap fun (path, entry) => ofEntry? sourceList path entry
          if units.isEmpty then .error (.parsing "sources carry no AST")
          else .ok (Ordered.sort order units)

/-- Sets an item of a list, which is first made long enough with empty texts. -/
def setAt (names : List String) (index : Nat) (name : String) : List String :=
  (names ++ List.replicate (index + 1 - names.length) "").set index name

/-- File names by index. -/
def fileNames (units : List SourceUnit) : List String :=
  units.foldl
    (fun names unit =>
      match unit.index with
      | some index => setAt names index unit.path
      | none => names)
    []

end SourceUnit

end ContractCalls.Solidity
