/-
The JSON forms of callees, operations and bodies.
-/
import ContractCalls.Exchange.Ty
import ContractCalls.Function

namespace ContractCalls

/-! ## Ids and constants -/

def OperandId.toJson (id : OperandId) : Json := .ofNat id.index

def NodeId.toJson (id : NodeId) : Json := .ofNat id.index

def FunctionId.toJson (id : FunctionId) : Json := .ofNat id.index

/-- An operand id in a field. -/
def Json.operandAt (j : Json) (key : String) : OperandId := ⟨j.natAt key⟩

/-- Operand ids in a field. -/
def Json.operandsAt (j : Json) (key : String) : List OperandId := (j.natsAt key).map OperandId.mk

/-- Function ids in a field. -/
def Json.functionsAt (j : Json) (key : String) : List FunctionId :=
  (j.natsAt key).map FunctionId.mk

namespace Constant

/-- The name of a kind of constant. -/
def kindName : Constant → String
  | .bool _ => "Bool"
  | .uint _ => "Uint"
  | .int _ => "Int"
  | .address _ => "Address"
  | .string _ => "String"
  | .bytes _ => "Bytes"

/-- The kind, text and 64-bit value of a constant. -/
def toJson (c : Constant) : Json :=
  .ofFields [("kind", .string c.kindName), ("text", .string c.render),
    ("as_u64", Json.ofOption (fun n => .string (toString n)) c.asWord?)]

/-- A whole number as text. -/
def integer (text : String) : Int :=
  match text.toList with
  | '-' :: cs => -((Text.digits? 10 cs).getD 0 : Int)
  | cs => ((Text.digits? 10 cs).getD 0 : Int)

/-- The constant of a tagged form. -/
def ofJson (j : Json) : Constant :=
  let (name, content) := j.alternative
  let text := content.asString?.getD ""
  match name with
  | "Bool" => .bool (content.asBool?.getD false)
  | "Uint" => .uint (integer text).toNat
  | "Int" => .int (integer text)
  | "Address" => .address text
  | "Bytes" => .bytes (((content.asArray?.getD []).filterMap Json.asNat?).map UInt8.ofNat)
  | _ => .string text

end Constant

/-! ## Callees -/

namespace Intrinsic

def toJson : Intrinsic → Json
  | .binary operator => .tagged "Binary" (.string operator)
  | .index => .string "Index"
  | .member name => .tagged "Member" (.string name)
  | .conversion => .string "Conversion"
  | .emit event => .tagged "Emit" (.string event)
  | .lowLevel kind => .tagged "LowLevel" (.string kind)
  | .creation contract => .tagged "Creation" (.string contract)
  | .tupleComponent position => .tagged "TupleComponent" (.ofNat position)
  | .initializer => .string "Initializer"

def ofJson (j : Json) : Intrinsic :=
  let (name, content) := j.alternative
  let text := content.asString?.getD ""
  match name with
  | "Binary" => .binary text
  | "Index" => .index
  | "Member" => .member text
  | "Conversion" => .conversion
  | "Emit" => .emit text
  | "LowLevel" => .lowLevel text
  | "Creation" => .creation text
  | "TupleComponent" => .tupleComponent (content.asNat?.getD 0)
  | _ => .initializer

end Intrinsic

namespace HighLevelTarget

def toJson : HighLevelTarget → Json
  | .function id => .tagged "Function" id.toJson
  | .getter name => .tagged "Variable" (.string name)
  | .unresolved label => .tagged "Unresolved" (.string label)

def ofJson (j : Json) : HighLevelTarget :=
  let (name, content) := j.alternative
  match name with
  | "Function" => .function ⟨content.asNat?.getD 0⟩
  | "Variable" => .getter (content.asString?.getD "")
  | _ => .unresolved (content.asString?.getD "")

end HighLevelTarget

namespace Callee

def toJson : Callee → Json
  | .internal id => .tagged "Internal" id.toJson
  | .library id => .tagged "Library" id.toJson
  | .highLevel contract target =>
      .tagged "HighLevel"
        (.ofFields [("contract", Json.ofOption .string contract), ("target", target.toJson)])
  | .builtin name => .tagged "Builtin" (.string name)
  | .unresolved edge label =>
      .tagged "Unresolved"
        (.ofFields [("edge", .string (match edge with | .internal => "Internal" | .library => "Library")),
          ("label", .string label)])
  | .intrinsic form => .tagged "Intrinsic" form.toJson

def ofJson (j : Json) : Callee :=
  let (name, content) := j.alternative
  match name with
  | "Internal" => .internal ⟨content.asNat?.getD 0⟩
  | "Library" => .library ⟨content.asNat?.getD 0⟩
  | "HighLevel" => .highLevel (content.textAt? "contract") (.ofJson (content.field "target"))
  | "Builtin" => .builtin (content.asString?.getD "")
  | "Unresolved" =>
      .unresolved (if content.textAt "edge" "" = "Library" then .library else .internal)
        (content.textAt "label" "")
  | _ => .intrinsic (.ofJson content)

end Callee

namespace CallSites

def toJson (c : CallSites) : Json :=
  .ofFields [("modifiers", Json.ofList FunctionId.toJson c.modifiers),
    ("base_constructors", Json.ofList FunctionId.toJson c.baseConstructors),
    ("internal", Json.ofList Callee.toJson c.internal),
    ("library", Json.ofList Callee.toJson c.library),
    ("high_level", Json.ofList Callee.toJson c.highLevel)]

/-- The call sites of an object; a missing list is empty. -/
def ofJson (j : Json) : CallSites :=
  { modifiers := j.functionsAt "modifiers"
    baseConstructors := j.functionsAt "base_constructors"
    internal := (j.itemsAt "internal").map Callee.ofJson
    library := (j.itemsAt "library").map Callee.ofJson
    highLevel := (j.itemsAt "high_level").map Callee.ofJson }

end CallSites

/-! ## Operations and terminators -/

namespace CallArgs

def toJson (a : CallArgs) : Json :=
  .ofFields [("names", Json.ofOption Json.ofStrings a.names),
    ("arguments", Json.ofList OperandId.toJson a.arguments)]

/-- The arguments of a request; without names they are by position. -/
def ofJson (j : Json) : CallArgs :=
  let arguments := j.operandsAt "args"
  if j.has "names" then named (j.textsAt "names") arguments else positional arguments

end CallArgs

/-- The tagged form of an operation. -/
def Operation.toJson : Operation → Json
  | .assignment lvalue rvalue declared =>
      .tagged "Assignment" (.ofFields [("lvalue", lvalue.toJson), ("rvalue", rvalue.toJson),
        ("declared_type", declared.toJson)])
  | .call args lvalue callee =>
      .tagged "Call" (.ofFields [("args", args.toJson),
        ("lvalue", Json.ofOption OperandId.toJson lvalue), ("callee", callee.toJson)])
  | .newElementary args ty lvalue =>
      .tagged "NewElementaryType" (.ofFields [("args", args.toJson), ("ty", ty.toJson),
        ("lvalue", lvalue.toJson)])
  | .newStructure args name lvalue =>
      .tagged "NewStructure" (.ofFields [("args", args.toJson), ("structure", .string name),
        ("lvalue", lvalue.toJson)])
  | .delete lvalue operand =>
      .tagged "Delete" (.ofFields [("lvalue", lvalue.toJson), ("operand", operand.toJson)])
  | .unary lvalue operand op =>
      .tagged "Unary" (.ofFields [("lvalue", lvalue.toJson), ("operand", operand.toJson),
        ("op", .string (match op with | .not => "Not" | .bitNot => "BitNot"))])
  | .nop => .string "Nop"

namespace Terminator

def toJson : Terminator → Json
  | .goto target => .tagged "Goto" target.toJson
  | .branch condition thenNode elseNode =>
      .tagged "Branch" (.ofFields [("condition", condition.toJson),
        ("then_node", thenNode.toJson), ("else_node", elseNode.toJson)])
  | .ret values => .tagged "Return" (Json.ofList OperandId.toJson values)
  | .revert => .string "Revert"
  | .open_ => .string "Open"

def ofJson (j : Json) : Terminator :=
  let (name, content) := j.alternative
  match name with
  | "Goto" => .goto ⟨content.asNat?.getD 0⟩
  | "Branch" =>
      .branch (content.operandAt "condition") ⟨content.natAt "then_node"⟩
        ⟨content.natAt "else_node"⟩
  | "Return" => .ret (((content.asArray?.getD []).filterMap Json.asNat?).map OperandId.mk)
  | "Revert" => .revert
  | _ => .open_

end Terminator

/-! ## Bodies -/

/-- First and last line. -/
def lineRangeToJson (range : Nat × Nat) : Json := .pair (.ofNat range.1) (.ofNat range.2)

namespace Span

def toJson (s : Span) : Json :=
  .ofFields [("file", .string s.file), ("start", .ofNat s.start), ("len", .ofNat s.length),
    ("lines", Json.ofOption lineRangeToJson s.lines)]

def ofJson (j : Json) : Span :=
  { file := j.textAt "file" ""
    start := j.natAt "start"
    length := j.natAt "len"
    lines :=
      match j.natsAt "lines" with
      | [first, last] => some (first, last)
      | _ => none }

end Span

def Phi.toJson (p : Phi) : Json :=
  .ofFields [("lvalue", p.lvalue.toJson), ("base", p.base.toJson),
    ("incoming", Json.ofList (fun (node, value) => .pair node.toJson value.toJson) p.incoming)]

def SsaLink.toJson : SsaLink → Json
  | .variant of => .tagged "Variant" (.ofFields [("non_ssa_version", of.toJson)])
  | .version base number =>
      .tagged "Version" (.ofFields [("base", base.toJson), ("index", .ofNat number)])

/-- An operand, shown under an id. -/
def Operand.toJson (id : Nat) (o : Operand) : Json :=
  .ofFields <|
    [("id", .ofNat id), ("kind", .string o.kind.name), ("text", .string o.render),
      ("ty", o.ty.toText), ("ssa", Json.ofOption SsaLink.toJson o.ssa),
      ("lvalue", .bool o.isLvalue), ("name", Json.ofOption .string o.name?)] ++
    match o.kind with
    | .reference _ target => [("points_to", Json.ofOption OperandId.toJson target)]
    | .constant value => [("constant", value.toJson)]
    | _ => []

/-- An operation with its text and what it reads and writes. -/
def Operation.inspect (arena : Arena) (label : FunctionId → String) (op : Operation) : Json :=
  .ofFields [("text", .string (op.render arena label)), ("raw", op.toJson),
    ("read", Json.ofList OperandId.toJson op.reads),
    ("lvalue", Json.ofOption OperandId.toJson op.lvalue?),
    ("intrinsic", Json.ofOption (fun c => .bool c.isIntrinsic) op.callee?)]

def Node.inspect (arena : Arena) (label : FunctionId → String) (n : Node) : Json :=
  .ofFields [("id", .string n.id.render), ("phis", Json.ofList Phi.toJson n.phis),
    ("ops", Json.ofList (Operation.inspect arena label) n.operations),
    ("terminator", n.terminator.toJson), ("source", Json.ofOption Span.toJson n.source)]

namespace Body

/-- The predecessors of every node. -/
def predecessorsToJson (b : Body) : Json := Json.ofList (Json.ofList NodeId.toJson) b.predecessors

/-- The nodes in reverse postorder. -/
def orderToJson (b : Body) : Json := Json.ofList NodeId.toJson b.reversePostorder

/-- Everything in a body, with function ids written by `label` in texts. -/
def inspect (label : FunctionId → String) (b : Body) : Json :=
  .ofFields [
    ("operands", .array (b.arena.slots.toList.zipIdx.map fun (slot, id) => slot.operand.toJson id)),
    ("references", .ofNat b.arena.references),
    ("nodes", Json.ofList (Node.inspect b.arena label) b.nodes.toList),
    ("entry", Json.ofOption NodeId.toJson b.entry),
    ("parameters", Json.ofList OperandId.toJson b.parameters),
    ("returns", Json.ofList OperandId.toJson b.returns), ("is_ssa", .bool b.isSsa),
    ("predecessors", b.predecessorsToJson), ("rpo", b.orderToJson)]

/-- The text of a merge on one line. -/
def outlinePhi (arena : Arena) (p : Phi) : String :=
  let incoming := p.incoming.map fun (node, value) => node.render ++ ":" ++ arena.display value
  arena.display p.lvalue ++ "<-[" ++ ",".intercalate incoming ++ "]"

/-- The texts in a body, node by node. -/
def outline (label : FunctionId → String) (b : Body) : Json :=
  .array (b.nodes.toList.map fun n =>
    .ofFields [("node", n.id.toJson), ("phis", Json.ofStrings (n.phis.map (outlinePhi b.arena))),
      ("ops", Json.ofStrings (n.operations.map (·.render b.arena label))),
      ("reads", Json.ofStrings (n.terminator.reads.map b.arena.display))])

end Body

end ContractCalls
