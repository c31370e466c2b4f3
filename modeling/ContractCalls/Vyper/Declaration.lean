/-
State variables, structures, events, enums and function headers of a module.
-/
import ContractCalls.Vyper.Decode
import ContractCalls.Vyper.Layout
import ContractCalls.Vyper.Module

namespace ContractCalls.Vyper

/-- The visibility that decorators name; the first one that names any counts. -/
def decoratorVisibility? (decorators : List Node) : Option Visibility :=
  (decorators.filter (·.is "Name")).findSome? fun d =>
    match d.text? "id" with
    | some "external" => some .external
    | some "internal" => some .internal
    | _ => none

/-- A state variable. -/
def stateVariable (layout : Layout) (n : Node) : Except FrontEndError StateVariable :=
  match (n.child? "target").bind Node.name? with
  | none => .error (.missingField "target" "VariableDecl")
  | some name =>
      .ok { name
            ty := layout.types.typeOf? (n.child? "annotation")
            visibility := if n.flag "is_public" then .pub else .internal
            declarer := layout.contractName
            isConstant := n.flag "is_constant"
            isImmutable := n.flag "is_immutable"
            astId := n.nodeId? }

/-- The kind of declaration a node defines, without content. -/
def pendingKind? (n : Node) : Option DeclKind :=
  match n.astType with
  | "StructDef" => some (.struct .empty)
  | "EventDef" => some (.event [] false)
  | "EnumDef" | "FlagDef" => some (.enum [])
  | _ => none

/-- The return values of a function. -/
def returnParameters (layout : Layout) (n : Node) : List Parameter :=
  match n.child? "returns" with
  | some returns =>
      let types := if returns.is "Tuple" then returns.nodes "elements" else [returns]
      types.map fun t => ⟨"", layout.types.typeOf t⟩
  | none => []

/-- The header of a function. -/
def functionHeader (layout : Layout) (locate : Node → Option Span) (n : Node) : Function :=
  let parameters := (parameterNodes n).map fun p =>
    ⟨(p.text? "arg").getD "", layout.types.typeOf? (p.child? "annotation")⟩
  moduleFunction layout.contractName ((n.text? "name").getD "")
    (decoratorVisibility? (n.nodes "decorator_list")) parameters (returnParameters layout n)
    (locate n) n.nodeId?

/-! ## Content of declarations -/

/-- The annotated members of a structure or event. -/
def annotatedMembers (n : Node) : List Node := (n.nodes "body").filter (·.is "AnnAssign")

/-- The name of an annotated member. -/
def memberName? (n : Node) : Option String := (n.child? "target").bind Node.name?

/-- Adds members to a structure up to the first one without a name. -/
def addMembers (types : UserTypes) (members : Table String Ty) :
    List Node → Table String Ty × Except FrontEndError Unit
  | [] => (members, .ok ())
  | n :: rest =>
      match memberName? n with
      | some name =>
          addMembers types (members.insert name (types.typeOf? (n.child? "annotation"))) rest
      | none => (members, .error (.missingField "target" "AnnAssign"))

/-- The annotation marks an indexed parameter. -/
def isIndexed (mark : Option Node) : Bool :=
  match mark with
  | some a => a.is "Call" && (a.child? "func").bind (·.text? "id") == some "indexed"
  | none => false

/-- The parameters of an event. -/
def eventParameters (types : UserTypes) (n : Node) : List EventParameter :=
  (annotatedMembers n).map fun m =>
    let mark := m.child? "annotation"
    ⟨(memberName? m).getD "", types.typeOf? mark, isIndexed mark⟩

/-- The values of an enum. -/
def enumValues (n : Node) : List String :=
  (n.nodes "body").filterMap fun m => ((m.child? "value").bind Node.name?).or m.name?

/-- Reads the content of a declaration from its node. -/
def readContent (types : UserTypes) (kind : DeclKind) (n : Node) :
    DeclKind × Except FrontEndError Unit :=
  match kind with
  | .struct members =>
      let (members, result) := addMembers types members (annotatedMembers n)
      (.struct members, result)
  | .event _ isAnonymous => (.event (eventParameters types n) isAnonymous, .ok ())
  | .enum _ => (.enum (enumValues n), .ok ())
  | other => (other, .ok ())

/-- Reads the content of a declaration, once. -/
def analyzeDeclaration (types : UserTypes) (d : Declaration) :
    Declaration × Except FrontEndError Unit :=
  d.analyzeWith fun kind raw =>
    match raw.head?.bind Node.ofJson? with
    | some n => readContent types kind n
    | none => (kind, .error (.missingField "node" d.canonicalName))

end ContractCalls.Vyper
