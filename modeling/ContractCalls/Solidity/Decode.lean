/-
Reading syntax from the nodes of either dialect.

Nothing fails here: what is not understood is kept as such, and fails when it
is lowered.
-/
import ContractCalls.Solidity.Node
import ContractCalls.Solidity.Syntax

namespace ContractCalls.Solidity

open Text

namespace Literal

/-- The factor of a unit behind a number. -/
def unitFactor : String → Nat
  | "gwei" => Nat.pow 10 9
  | "szabo" => Nat.pow 10 12
  | "finney" => Nat.pow 10 15
  | "ether" => Nat.pow 10 18
  | "minutes" => 60
  | "hours" => 3600
  | "days" => 86400
  | "weeks" => 604800
  | "years" => 31536000
  | _ => 1

/-- The value of a number literal with a unit; what is no number stays a text. -/
def number (value : String) (unit : Option String) : Constant :=
  match Constant.parseNumber? value with
  | some (.uint n) => .uint (n * (unit.map unitFactor).getD 1)
  | some other => other
  | none => .string value

/-- The value of a literal node. -/
def value (n : Node) : Constant :=
  let text := (n.text? "value").getD ""
  match ((n.text? "kind").or (n.text? "token")).getD "number" with
  | "bool" => .bool (text == "true")
  | "string" | "unicodeString" => .string text
  | "hexString" =>
      .bytes (hexBytes (((n.text? "hexValue").or (n.text? "hexvalue")).getD "").toList)
  | _ =>
      if n.ty.isAddress then .address text else number text (n.text? "subdenomination")

end Literal

/-! ## Leaves of the syntax -/

/-- The declaration of a variable. -/
def VarDecl.ofNode (n : Node) : VarDecl := ⟨n.name?.getD "", n.ty, n.id?⟩

/-- What a unary operator does. -/
def UnaryForm.ofNode (n : Node) : UnaryForm :=
  match (n.text? "operator").getD "" with
  | "!" => .direct "!"
  | "~" => .direct "~"
  | "-" => .negate
  | "++" => .step "+" (!n.flag "prefix")
  | "--" => .step "-" (!n.flag "prefix")
  | "delete" => .delete
  | _ => .plain

/-- The unary operator writes to its operand. -/
def UnaryForm.writes : UnaryForm → Bool
  | .step _ _ | .delete => true
  | _ => false

/-- What the node of a call says about it. -/
def CallForm.ofNode (n : Node) : CallForm :=
  match n.callKind with
  | "typeConversion" => .conversion
  | "structConstructorCall" => .construction
  | _ => .ordinary

/-- The binary operator in front of the `=` of an assignment operator. -/
def compoundOperator? (operator : String) : Option String :=
  match stripEnd? ['='] operator.toList with
  | some [] | none => none
  | some cs => some (String.ofList cs)

/-- The name of an elementary type expression. -/
def typeExpressionName? (n : Node) : Option String :=
  ((n.field? "typeName").bind (·.name?)).or ((n.text? "typeName").or (n.text? "value"))

/-- The parameter names of a call by name. -/
def argumentNames (n : Node) : List String :=
  (((n.attribute? "names").bind Json.asArray?).getD []).filterMap Json.asString?

/-- An expression the lowering does not know. -/
def Expr.unknown (n : Node) : Expr :=
  let label :=
    if n.is "IdentifierPath" then n.identifierName?.getD ""
    else n.typeText?.getD n.nodeType
  .unsupported n.typeText? n.nodeType label

/-! ## Expressions -/

mutual

/-- The expression of a node. -/
def Expr.ofNode (n : Node) : Expr :=
  let required := fun (key : String) (part : Option Expr) => part.getD (.absent key n.nodeType)
  let text := n.typeText?
  match n.nodeType with
  | "Literal" => .literal text (Literal.value n)
  | "Identifier" =>
      .identifier text (n.identifierName?.getD "") n.referencedDeclaration?
  | "MemberAccess" =>
      -- the name of an elementary type counts in front of a member only
      .member text
        (required "expression" (n.mapField "expression" fun c _ =>
          if c.is "ElementaryTypeNameExpression" then .typeName c.typeText? (typeExpressionName? c)
          else Expr.ofNode c))
        (n.memberName?.getD "") n.referencedDeclaration?
  | "IndexAccess" =>
      let base := required "baseExpression" (n.mapField "baseExpression" fun c _ => Expr.ofNode c)
      match n.mapField "indexExpression" fun c _ => Expr.ofNode c with
      | some key => .index text base key
      | none => .arrayType text base
  | "IndexRangeAccess" =>
      .range text
        (required "baseExpression" (n.mapField "baseExpression" fun c _ => Expr.ofNode c))
        ((n.mapField "startExpression" fun c _ => Expr.ofNode c).toList ++
          (n.mapField "endExpression" fun c _ => Expr.ofNode c).toList)
  | "BinaryOperation" =>
      .binary text ((n.text? "operator").getD "?")
        (required "leftExpression" (n.mapField "leftExpression" fun c _ => Expr.ofNode c))
        (required "rightExpression" (n.mapField "rightExpression" fun c _ => Expr.ofNode c))
  | "UnaryOperation" =>
      let form := UnaryForm.ofNode n
      .unary text form
        (required "subExpression"
          (if form.writes then n.mapField "subExpression" fun c _ => Expr.placeOfNode c
          else n.mapField "subExpression" fun c _ => Expr.ofNode c))
  | "Assignment" =>
      let value :=
        required "rightHandSide" (n.mapField "rightHandSide" fun c _ => Expr.ofNode c)
      let operator := compoundOperator? ((n.text? "operator").getD "=")
      let assignment := n.mapField "leftHandSide" fun c h =>
        if c.is "TupleExpression" && (c.optionalFields "components").length > 1 then
          .assignAll text
            (c.mapOptionalFields "components" fun d g =>
              have : Node.IsPart d n := Nat.lt_trans g h
              Expr.placeOfNode d)
            value
        else .assign text operator c.typeText? (Expr.placeOfNode c) value
      assignment.getD
        (.assign text operator none (.absent "leftHandSide" n.nodeType) value)
  | "Conditional" =>
      .conditional text
        (required "condition" (n.mapField "condition" fun c _ => Expr.ofNode c))
        (required "trueExpression" (n.mapField "trueExpression" fun c _ => Expr.ofNode c))
        (required "falseExpression" (n.mapField "falseExpression" fun c _ => Expr.ofNode c))
  | "TupleExpression" =>
      .tuple text (n.flag "isInlineArray")
        (n.mapOptionalFields "components" fun c _ => Expr.ofNode c)
  | "FunctionCall" =>
      let (options, callee) :=
        (n.mapField "expression" fun c _ => Expr.calleeOfNode c).getD
          ([], .absent "expression" n.nodeType)
      .call text (CallForm.ofNode n) options callee
        (n.mapFields "arguments" fun c _ => Expr.ofNode c) (argumentNames n)
  | "FunctionCallOptions" =>
      .withOptions text (required "expression" (n.mapField "expression" fun c _ => Expr.ofNode c))
  | "ElementaryTypeNameExpression" => .typeName text none
  | "NewExpression" => .creation text ((n.field? "typeName").map (·.ty))
  | _ => .unknown n
termination_by 2 * sizeOf n.json
decreasing_by all_goals omega

/-- The expression of a node that is written to, without the parentheses around it. -/
def Expr.placeOfNode (n : Node) : Expr :=
  match h : n.parenthesized? with
  | some inner =>
      have : Node.IsPart inner n := Node.isPart_of_parenthesized? h
      Expr.placeOfNode inner
  | none => Expr.ofNode n
termination_by 2 * sizeOf n.json + 1
decreasing_by all_goals omega

/-- The options around a callee, outermost first, and the callee. -/
def Expr.calleeOfNode (n : Node) : List Expr × Expr :=
  if n.is "FunctionCallOptions" then
    let options := n.mapFields "options" fun c _ => Expr.ofNode c
    let (inner, callee) :=
      (n.mapField "expression" fun c _ => Expr.calleeOfNode c).getD
        ([], .absent "expression" n.nodeType)
    (options ++ inner, callee)
  else ([], Expr.ofNode n)
termination_by 2 * sizeOf n.json + 1
decreasing_by all_goals omega

end

/-! ## Statements -/

/-- A part of a node that is an expression, or its absence. -/
def Expr.required (n : Node) (key : String) : Expr :=
  match n.field? key with
  | some c => .ofNode c
  | none => .absent key n.nodeType

/-- A part of a node that is an expression, if it is there. -/
def Expr.part? (n : Node) (key : String) : Option Expr := (n.field? key).map .ofNode

/-- The expression of a statement, if it is there. -/
def Stmt.ofPart (n : Node) (key : String) : Stmt :=
  match Expr.part? n key with
  | some e => .expression e
  | none => .skip

/-- The values of a return statement. -/
def returnValues? (n : Node) : Option (List Expr) :=
  (n.field? "expression").map fun e =>
    if e.is "TupleExpression" then (e.fields "components").map .ofNode else [.ofNode e]

/-- The parameters of a clause. -/
def clauseParameters (n : Node) : List VarDecl :=
  ((n.field? "parameters").map fun list => (list.fields "parameters").map .ofNode).getD []

/-- The statement of a node; `locate` reads source positions. -/
def Stmt.ofNode (locate : Node → Option Span) (n : Node) : Stmt :=
  let required := fun (key : String) => Expr.required n key
  .located (locate n) <|
    match n.nodeType with
    | "Block" | "UncheckedBlock" =>
        .block (n.mapFields "statements" fun c _ => Stmt.ofNode locate c)
    | "ExpressionStatement" => .ofPart n "expression"
    | "VariableDeclarationStatement" =>
        .declare ((n.optionalFields "declarations").map fun d => d.map .ofNode)
          (Expr.part? n "initialValue")
    | "IfStatement" =>
        let yes := (n.mapField "trueBody" fun c _ => Stmt.ofNode locate c).getD .skip
        match n.mapField "falseBody" fun c _ => Stmt.ofNode locate c with
        | some no => .ifElse (required "condition") yes no
        | none => .ifThen (required "condition") yes
    | "WhileStatement" =>
        .whileLoop (required "condition")
          ((n.mapField "body" fun c _ => Stmt.ofNode locate c).getD .skip)
    | "DoWhileStatement" =>
        .doWhile ((n.mapField "body" fun c _ => Stmt.ofNode locate c).getD .skip)
          (required "condition")
    | "ForStatement" =>
        .forLoop
          ((n.mapField "initializationExpression" fun c _ => Stmt.ofNode locate c).getD .skip)
          (Expr.part? n "condition")
          ((n.mapField "loopExpression" fun c _ => Stmt.ofNode locate c).getD .skip)
          ((n.mapField "body" fun c _ => Stmt.ofNode locate c).getD .skip)
    | "Continue" => .continueLoop
    | "Break" => .breakLoop
    | "Return" => .ret (returnValues? n)
    | "EmitStatement" => .ofPart n "eventCall"
    | "RevertStatement" => .revert (Expr.part? n "errorCall")
    | "Throw" => .revert none
    | "TryStatement" =>
        .tryCatch (required "externalCall")
          (n.mapFields "clauses" fun c h =>
            .clause (clauseParameters c)
              ((c.mapField "block" fun b g =>
                have : Node.IsPart b n := Nat.lt_trans g h
                Stmt.ofNode locate b).getD .skip))
    | "PlaceholderStatement" | "InlineAssembly" => .nop
    | other => .unsupported other
termination_by sizeOf n.json
decreasing_by all_goals omega

/-- The definition of a node, if it has a body. -/
def Definition.ofNode? (locate : Node → Option Span) (n : Node) : Option Definition :=
  (n.field? "body").map fun body =>
    { parameters := (n.parameterList "parameters" 0).map .ofNode
      returns := (n.parameterList "returnParameters" 1).map .ofNode
      body := .ofNode locate body }

end ContractCalls.Solidity
