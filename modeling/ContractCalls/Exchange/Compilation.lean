/-
The JSON forms of a compilation and of what is derived from it.
-/
import ContractCalls.CallGraph.Bundle
import ContractCalls.Exchange.Body
import ContractCalls.Output.Report

namespace ContractCalls

def ContractId.toJson (id : ContractId) : Json := .ofNat id.index

def DeclId.toJson (id : DeclId) : Json := .ofNat id.index

/-- The entries of a table in order. -/
def Table.toJson {α : Type} (encode : α → Json) (t : Table String α) : Json :=
  Json.ofList (fun (key, value) => .pair (.string key) (encode value)) t.entries

/-- A name with a type. -/
def namedTyToJson (entry : String × Ty) : Json := .pair (.string entry.1) entry.2.toText

/-! ## Functions -/

namespace FunctionKind

/-- The name of a kind of function. -/
def render : FunctionKind → String
  | .function => "Function"
  | .constructor => "Constructor"
  | .fallback => "Fallback"
  | .receive => "Receive"
  | .modifier => "Modifier"
  | .free => "Free"

/-- The kind of a name; any other name is a plain function. -/
def parse : String → FunctionKind
  | "Constructor" => .constructor
  | "Fallback" => .fallback
  | "Receive" => .receive
  | "Modifier" => .modifier
  | "Free" => .free
  | _ => .function

end FunctionKind

def Parameter.toJson (p : Parameter) : Json := namedTyToJson (p.name, p.ty)

def Function.toJson (f : Function) : Json :=
  .ofFields [("id", .string f.id.render), ("name", .string f.name), ("uid", .string f.uid),
    ("display", .string f.displayName), ("full_name", .string f.fullName),
    ("canonical", .string f.canonicalName), ("declarer", Json.ofText? f.declarer),
    ("context", Json.ofText? f.context), ("kind", .string f.kind.render),
    ("visibility", f.visibility.toJson), ("defaulted", .bool f.visibilityDefaulted),
    ("implemented", .bool f.isImplemented), ("shadowed", .bool f.isShadowed),
    ("parameters", Json.ofList Parameter.toJson f.parameters),
    ("returns", Json.ofList Parameter.toJson f.returns), ("calls", f.calls.toJson),
    ("has_body", .bool f.body.isSome), ("source", Json.ofOption Span.toJson f.source),
    ("ast_id", Json.ofOption Json.ofInt f.astId)]

/-! ## Contracts and declarations -/

def StateVariable.toJson (v : StateVariable) : Json :=
  .ofFields [("name", .string v.name), ("ty", v.ty.toText), ("visibility", v.visibility.toJson),
    ("declarer", .string v.declarer), ("constant", .bool v.isConstant),
    ("immutable", .bool v.isImmutable), ("ast_id", Json.ofOption Json.ofInt v.astId)]

def Contract.toJson (c : Contract) : Json :=
  .ofFields [("id", .string c.id.render), ("name", .string c.name),
    ("kind", .string c.kind.render), ("abstract", .bool c.isAbstract),
    ("scope", .ofNat c.scope.index),
    ("linearization", Json.ofList ContractId.toJson c.linearization),
    ("bases", Json.ofList ContractId.toJson c.bases),
    ("functions", Json.ofList FunctionId.toJson c.functions),
    ("declared", Json.ofList FunctionId.toJson c.functionsDeclared),
    ("variables", Json.ofList StateVariable.toJson c.stateVariables),
    ("declarations", Json.ofList DeclId.toJson c.declarations),
    ("source", Json.ofOption Span.toJson c.source),
    ("ast_id", Json.ofOption Json.ofInt c.astId), ("library", .bool c.isLibrary),
    ("interface", .bool c.isInterface)]

/-- The content of a declaration. -/
def DeclKind.toJson : DeclKind → Json
  | .error parameters => Json.ofList namedTyToJson parameters
  | .struct members => Json.ofList namedTyToJson members.entries
  | .enum values => Json.ofStrings values
  | .event parameters isAnonymous =>
      .ofFields [("anonymous", .bool isAnonymous),
        ("elems", Json.ofList
          (fun p => .array [.string p.name, p.ty.toText, .bool p.indexed]) parameters)]
  | .usingFor entries =>
      Json.ofList (fun e => .pair (.string e.library) (Json.ofOption Ty.toText e.forType)) entries

/-- A kind of declaration without content, by its word. -/
def DeclKind.empty : String → DeclKind
  | "error" => .error []
  | "enum" => .enum []
  | "event" => .event [] false
  | "struct" => .struct .empty
  | _ => .usingFor []

def Declaration.toJson (d : Declaration) : Json :=
  .ofFields [("id", .string d.id.render), ("scope", .ofNat d.scope.index),
    ("owner", Json.ofText? d.owner), ("name", .string d.name),
    ("canonical", .string d.canonicalName), ("kind", .string d.kind.name),
    ("pending", .bool d.isPending), ("elems", d.kind.toJson),
    ("is_event", .bool d.eventParameters?.isSome), ("is_struct", .bool d.structMembers?.isSome)]

def FileScope.toJson (s : FileScope) : Json :=
  .ofFields [("filename", .string s.filename),
    ("declarations", s.declarations.toJson DeclId.toJson),
    ("contracts", s.contracts.toJson ContractId.toJson),
    ("functions", s.functions.toJson FunctionId.toJson),
    ("variables", Json.ofList StateVariable.toJson s.constants.values)]

/-! ## Call graph -/

def TargetRef.toJson : TargetRef → Json
  | .function id => .tagged "Function" id.toJson
  | .getter name => .tagged "Variable" (.string name)
  | .builtin name => .tagged "Builtin" (.string name)
  | .unknown => .string "Unknown"

def CallTarget.toJson (t : CallTarget) : Json :=
  .ofFields [("kind", .string t.kind.render), ("edge", .string t.edge.render),
    ("label", .string t.label), ("target", t.target.toJson),
    ("contract", Json.ofText? t.contract)]

def Leaf.toJson (l : Leaf) : Json :=
  .ofFields [("edge", .string l.edge.render), ("kind", .string l.kind.render),
    ("label", .string l.label)]

def Bundle.toJson (b : Bundle) : Json :=
  .ofFields [("entry", b.entry.toJson),
    ("reachable", Json.ofList (fun (edge, id) => .pair (.string edge.render) id.toJson)
      b.reachable),
    ("leaves", Json.ofList Leaf.toJson b.leaves)]

/-! ## Reading reports -/

/-- A visibility in a field. -/
def Json.visibilityAt? (j : Json) (key : String) : Option Visibility :=
  (j.textAt? key).bind Visibility.parse?

/-- The edge of a word. -/
def EdgeKind.parse (word : String) : EdgeKind :=
  (EdgeKind.all.find? (·.render == word)).getD .internal

/-- The call of a JSON form. -/
def CallEntry.ofJson (j : Json) : CallEntry :=
  let edge := EdgeKind.parse (j.textAt "edge" "")
  let name := j.textAt "name" ""
  let display := j.textAt "display" ""
  match j.textAt "kind" "" with
  | "function" =>
      .function edge (j.textAt "id" "") name display (j.visibilityAt? "visibility")
        (j.textAt? "contract_context") (j.textAt? "declared_in")
  | "variable" => .getter edge name display (j.textAt? "contract")
  | "solidity" => .solidity edge name
  | _ => .unknown edge display

/-- The function of a JSON form. -/
def FunctionNode.ofJson (j : Json) : FunctionNode :=
  { id := j.textAt "id" ""
    name := j.textAt "name" ""
    display := j.textAt "display" ""
    visibility := j.visibilityAt? "visibility"
    visibilityDefaulted := j.flagAt "visibility_defaulted" false
    context := j.textAt? "contract_context"
    declaredIn := j.textAt? "declared_in"
    isConstructor := j.flagAt "is_constructor" false
    isFallback := j.flagAt "is_fallback" false
    isReceive := j.flagAt "is_receive" false
    isShadowed := j.flagAt "is_shadowed" false
    calls := (j.itemsAt "calls").map CallEntry.ofJson }

/-- The contract of a JSON form. -/
def ContractReport.ofJson (j : Json) : ContractReport :=
  { name := j.textAt "name" ""
    functions := ((j.field "functions").asObject?.getD []).filterMap fun (word, nodes) =>
      (Visibility.parse? word).map fun visibility =>
        (visibility, (nodes.asArray?.getD []).map FunctionNode.ofJson) }

/-- The report of a JSON form. -/
def CompilationReport.ofJson (j : Json) : CompilationReport :=
  ⟨j.textAt "target" "", (j.itemsAt "contracts").map ContractReport.ofJson⟩

/-! ## The compilation itself -/

def DependencyMap.toJson (deps : DependencyMap) : Json := Table.toJson Json.ofStrings deps

def DataDependency.toJson (d : DataDependency) : Json :=
  .ofFields [("functions", d.functions.toJson DependencyMap.toJson),
    ("contracts", d.contracts.toJson DependencyMap.toJson)]

def Counters.toJson (c : Counters) : Json :=
  .ofFields [("temporary", .ofNat c.temporary), ("reference", .ofNat c.reference),
    ("tuple", .ofNat c.tuple)]

namespace Compilation

/-- What is known about a compilation as a whole. -/
def stateToJson (u : Compilation) : Json :=
  .ofFields [("target", .string u.target), ("language", .string u.language.render),
    ("source_list", Json.ofStrings u.sourceList), ("files", Json.ofStrings u.sources.files),
    ("warning", Json.ofText? u.warning), ("errors", Json.ofList ErrorRecord.toJson u.errors),
    ("parsed", .bool u.isParsed), ("analyzed", .bool u.isAnalyzed),
    ("counters", u.counters.toJson)]

/-- How much a compilation holds. -/
def countFields (u : Compilation) : List (String × Json) :=
  [("parsed", .bool u.isParsed), ("analyzed", .bool u.isAnalyzed),
    ("contracts", .ofNat u.contracts.size), ("declarations", .ofNat u.declarations.size),
    ("functions", .ofNat u.functions.size), ("errors", .ofNat u.errors.length)]

/-- A view of every function, under its uid. -/
def eachFunction (u : Compilation) (view : Function → Json) : Json :=
  Json.ofList (fun f => .pair (.string f.uid) (view f)) u.functions.toList

/-- The selected functions of every contract by visibility. -/
def groupsToJson (u : Compilation) (query : VisibilityQuery) : Json :=
  Json.ofList
    (fun c => .pair (.string c.name)
      (Json.ofList
        (fun (visibility, ids) => .pair visibility.toJson (Json.ofList FunctionId.toJson ids))
        (u.groups c query)))
    u.contracts.toList

end Compilation

/-- The filters of a JSON form; a missing flag has its default. -/
def CallFilters.ofJson (j : Json) : CallFilters :=
  { external := j.flagAt "external" default.external
    library := j.flagAt "library" default.library
    solidity := j.flagAt "solidity" default.solidity
    modifiers := j.flagAt "modifiers" default.modifiers
    baseConstructors := j.flagAt "base_constructors" default.baseConstructors }

/-- The query of a JSON form; a missing part has its default. -/
def VisibilityQuery.ofJson (j : Json) : VisibilityQuery :=
  { includeInherited := j.flagAt "inherited" default.includeInherited
    includeShadowed := j.flagAt "shadowed" default.includeShadowed
    visibilities :=
      if j.has "visibilities" then some ((j.textsAt "visibilities").filterMap Visibility.parse?)
      else none }

end ContractCalls
