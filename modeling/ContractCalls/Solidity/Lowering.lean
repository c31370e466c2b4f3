/-
Lowering of Solidity function bodies.

Both lowerings follow the syntax: expressions emit the operations that compute
them and give the operand with the result, statements lay out the nodes.
-/
import ContractCalls.Body.Draft
import ContractCalls.Solidity.Resolution

namespace ContractCalls.Solidity

open Build

/-- Fails if the expression is not there. -/
def Expr.ensure : Expr → Build Unit
  | .absent field nodeType => throw (.missingField field nodeType)
  | _ => pure ()

/-- The result of an expression that has to have one. -/
def Expr.result (e : Expr) : Option OperandId → Build OperandId
  | some operand => pure operand
  | none => throw (.unsupported (e.nodeType ++ " used as a value has no result"))

/-- The operand of an identifier. -/
def Env.identifier (env : Env) (text : TypeText) (name : String) (declaration : Option Int) :
    Build OperandId := do
  let draft ← get
  match declaration.bind draft.declared.get? with
  | some operand => return operand
  | none =>
      match env.index.declaration? declaration with
      | some (.stateVariable _ stored ty) | some (.fileConstant stored ty) => state stored ty
      | some _ => builtin name (Ty.ofText? text)
      | none =>
          if Expr.isPredeclared declaration then builtin name (Ty.ofText? text)
          else
            match draft.lookup? name with
            | some operand => return operand
            | none => throw (.variableNotFound name)

/-- Adds or takes one and writes the result back. -/
def stepBy (operator : String) (givesOld : Bool) (ty : Ty) (target : OperandId) :
    Build OperandId := do
  let old ← if givesOld then do
      let copy ← temporary ty
      assign copy target ty
      pure (some copy)
    else pure none
  let one ← constant (.uint 1) ty
  let updated ← intrinsic (.binary operator) [target, one] ty
  assign target updated ty
  return old.getD updated

/-- A unary operation on an operand. -/
def applyUnary (form : UnaryForm) (ty : Ty) (operand : OperandId) : Build OperandId :=
  match form with
  | .direct token => unary token operand ty
  | .negate => do
      let zero ← constant (.uint 0) ty
      intrinsic (.binary "-") [zero, operand] ty
  | .step operator givesOld => stepBy operator givesOld ty operand
  | .delete => do
      delete operand
      return operand
  | .plain => pure operand

/-- The list that a tuple or inline array stands for. -/
def collect (isArray : Bool) (ty : Ty) (values : List OperandId) : Build OperandId := do
  let result ← if isArray then temporary ty else step (·.tuple ty)
  intrinsicInto .initializer values result
  return result

/-- Arguments by position, or by name if there are names. -/
def callArgs (names : List String) (arguments : List OperandId) : CallArgs :=
  if names.isEmpty then .positional arguments else .named names arguments

/-- The arguments with the receiver in front; arguments by name stay as they are. -/
def attachReceiver (receiver : OperandId) (args : CallArgs) : CallArgs :=
  match args.names with
  | some _ => args
  | none => { args with arguments := receiver :: args.arguments }

/-- The arguments of a call once its receiver is dealt with. -/
def receive (use : ReceiverUse) (receiver : Expr) (value : Build (Option OperandId))
    (args : CallArgs) : Build CallArgs := do
  receiver.ensure
  match use with
  | .unused => return args
  | .evaluated =>
      let _ ← value
      return args
  | .attached => return attachReceiver (← receiver.result (← value)) args

/-- The callee ends the execution. -/
def isRevert : Callee → Bool
  | .builtin name => Text.stringStartsWith "revert" name
  | _ => false

/-- Emits a call; one that ends the execution ends the node. -/
def emitCall (callee : Callee) (args : CallArgs) (ty : Ty) : Build (Option OperandId) := do
  let result ← step (·.resultFor ty)
  call callee args result
  if isRevert callee then terminate .revert
  return result

/-- Emits the creation of a contract or of a value of another type. -/
def emitCreation (created ty : Ty) (arguments : List OperandId) : Build OperandId :=
  match created with
  | .contract name => intrinsic (.creation name) arguments ty
  | other => newElementary other arguments

mutual

/-- Lowers an expression; a call that returns nothing has no result. -/
def value (env : Env) : Expr → Build (Option OperandId)
  | .absent field nodeType => throw (.missingField field nodeType)
  | .literal text constant => some <$> Build.constant constant (Ty.ofText? text)
  | .identifier text name declaration => some <$> env.identifier text name declaration
  | .member text base name _ => do
      base.ensure
      if base.isNamespace then
        some <$> builtin (base.namespaceLabel ++ "." ++ name) (Ty.ofText? text)
      else
        let object ← base.result (← value env base)
        some <$> refer (.member name) (Ty.ofText? text) object [object]
  | .index text base key => do
      let object ← base.result (← value env base)
      let position ← key.result (← value env key)
      some <$> refer .index (Ty.ofText? text) object [object, position]
  | .arrayType text _ | .typeName text _ | .creation text _ =>
      some <$> builtin (text.getD "type") (Ty.ofText? text)
  | .range text base bounds => do
      let object ← base.result (← value env base)
      let limits ← values env bounds
      some <$> intrinsic .index (object :: limits) (Ty.ofText? text)
  | .binary text operator left right => do
      left.ensure
      right.ensure
      let first ← left.result (← value env left)
      let second ← right.result (← value env right)
      some <$> intrinsic (.binary operator) [first, second] (Ty.ofText? text)
  | .unary text form operand => do
      some <$> applyUnary form (Ty.ofText? text) (← operand.result (← value env operand))
  | .assign _ operator targetText target source => do
      target.ensure
      let computed ← source.result (← value env source)
      let place ← target.result (← value env target)
      let ty := Ty.ofText? targetText
      let stored ← match operator with
        | some operator => intrinsic (.binary operator) [place, computed] ty
        | none => pure computed
      assign place stored ty
      return some place
  | .assignAll _ targets source => do
      let computed ← source.result (← value env source)
      assignComponents env computed 0 targets
      return some computed
  | .conditional text condition yes no => do
      let test ← condition.result (← value env condition)
      let first ← yes.result (← value env yes)
      let second ← no.result (← value env no)
      some <$> intrinsic (.binary "?:") [test, first, second] (Ty.ofText? text)
  | .tuple _ false [some inner] => value env inner
  | .tuple text isArray components => do
      some <$> collect isArray (Ty.ofText? text) (← present env components)
  | .call text form options callee arguments names => do
      effects env options
      callee.ensure
      let ty := Ty.ofText? text
      let operands ← values env arguments
      match form with
      | .conversion => some <$> intrinsic .conversion operands ty
      | .construction => some <$> newStructure callee.label (callArgs names operands) ty
      | .ordinary =>
          let args := callArgs names operands
          let (target, use) := env.resolve callee
          match callee with
          | .creation _ created => some <$> emitCreation (created.getD ty) ty operands
          | .member _ base _ _ => emitCall target (← receive use base (value env base) args) ty
          | other => emitCall target (← receive use other (value env other) args) ty
  | .withOptions _ function => value env function
  | .unsupported _ nodeType _ => throw (.unsupported ("expression " ++ nodeType))

/-- Lowers expressions that have to have results. -/
def values (env : Env) : List Expr → Build (List OperandId)
  | [] => return []
  | e :: rest => do
      let first ← e.result (← value env e)
      return first :: (← values env rest)

/-- Lowers the components of a tuple that are there. -/
def present (env : Env) : List (Option Expr) → Build (List OperandId)
  | [] => return []
  | none :: rest => present env rest
  | some e :: rest => do
      let first ← e.result (← value env e)
      return first :: (← present env rest)

/-- Lowers expressions for their effects. -/
def effects (env : Env) : List Expr → Build Unit
  | [] => return ()
  | e :: rest => do
      let _ ← value env e
      effects env rest

/-- Assigns the components of a tuple, from a position on, to places. -/
def assignComponents (env : Env) (source : OperandId) : (position : Nat) →
    List (Option Expr) → Build Unit
  | _, [] => return ()
  | position, none :: rest => assignComponents env source (position + 1) rest
  | position, some e :: rest => do
      let place ← e.result (← value env e)
      intrinsicInto (.tupleComponent position) [source] place
      assignComponents env source (position + 1) rest

end

/-- Lowers an expression that has to have a result. -/
def expression (env : Env) (e : Expr) : Build OperandId := do
  e.result (← value env e)

/-! ## Declarations -/

/-- Declares a variable, unless it has no name. -/
def declare (decl : VarDecl) : Build (Option OperandId) := do
  if decl.name.isEmpty then return none
  let operand ← declareLocal decl.name decl.ty
  if let some id := decl.id then
    modify fun d => { d with declared := d.declared.insert id operand }
  return some operand

/-- Declares variables; those without a name get no operand. -/
def declareAll : List VarDecl → Build (List OperandId)
  | [] => return []
  | decl :: rest => do
      let first ← declare decl
      return first.toList ++ (← declareAll rest)

/-- Declares variables for the components of a tuple, from a position on; those of `source`, if it
is there, become their values. -/
def declareComponents (source : Option OperandId) : (position : Nat) → List (Option VarDecl) →
    Build Unit
  | _, [] => return ()
  | position, none :: rest => declareComponents source (position + 1) rest
  | position, some decl :: rest => do
      match ← declare decl, source with
      | some place, some tuple => intrinsicInto (.tupleComponent position) [tuple] place
      | _, _ => pure ()
      declareComponents source (position + 1) rest

/-- Declares variables with an optional initial value. -/
def declareVariables (declarations : List (Option VarDecl)) (initial : Option OperandId) :
    Build Unit :=
  match declarations with
  | [some decl] => do
      match ← declare decl, initial with
      | some place, some computed => assign place computed decl.ty
      | _, _ => pure ()
  | declarations => declareComponents initial 0 declarations

/-! ## Statements -/

/-- Lowers an optional expression. -/
def expression? (env : Env) : Option Expr → Build (Option OperandId)
  | some e => some <$> expression env e
  | none => pure none

/-- The values a return statement returns. -/
def returned (env : Env) : Option (List Expr) → Build (List OperandId)
  | some es => values env es
  | none => return (← get).body.returns

mutual

/-- Lowers a statement. -/
def statement (env : Env) : Stmt → Build Unit
  | .located span inner => do
      annotate span
      statement env inner
  | .skip => pure ()
  | .block body => inScope (statements env body)
  | .expression e => do
      let _ ← value env e
  | .declare declarations initial => do
      declareVariables declarations (← expression? env initial)
  | .ifThen condition yes => do
      let test ← expression env condition
      let yesNode ← newNode
      let join ← newNode
      branch test yesNode join
      switchTo yesNode
      statement env yes
      goto join
      switchTo join
  | .ifElse condition yes no => do
      let test ← expression env condition
      let yesNode ← newNode
      let join ← newNode
      let noNode ← newNode
      branch test yesNode noNode
      switchTo yesNode
      statement env yes
      goto join
      switchTo noNode
      statement env no
      goto join
      switchTo join
  | .whileLoop condition body => do
      let header ← newNode
      goto header
      switchTo header
      let test ← expression env condition
      let bodyNode ← newNode
      let exit ← newNode
      branch test bodyNode exit
      inLoop header exit do
        switchTo bodyNode
        statement env body
        goto header
      switchTo exit
  | .doWhile body condition => do
      let bodyNode ← newNode
      let check ← newNode
      let exit ← newNode
      goto bodyNode
      inLoop check exit do
        switchTo bodyNode
        statement env body
        goto check
      switchTo check
      let test ← expression env condition
      branch test bodyNode exit
      switchTo exit
  | .forLoop start condition next body => inScope do
      statement env start
      let header ← newNode
      goto header
      switchTo header
      let bodyNode ← newNode
      let nextNode ← newNode
      let exit ← newNode
      match ← expression? env condition with
      | some test => branch test bodyNode exit
      | none => goto bodyNode
      inLoop nextNode exit do
        switchTo bodyNode
        statement env body
        goto nextNode
      switchTo nextNode
      statement env next
      goto header
      switchTo exit
  | .continueLoop => leaveTo LoopTargets.continueTo
  | .breakLoop => leaveTo LoopTargets.breakTo
  | .ret es => do terminate (.ret (← returned env es))
  | .revert none => terminate .revert
  | .revert (some e) => do
      let _ ← value env e
      terminate .revert
  | .tryCatch call cases => do
      let result ← value env call
      let join ← newNode
      let success ← builtin "try.success" .bool
      clauses env success join result cases
      switchTo join
  | .nop => emit .nop
  | .unsupported nodeType => throw (.unsupported ("statement " ++ nodeType))

/-- Lowers statements in order. -/
def statements (env : Env) : List Stmt → Build Unit
  | [] => return ()
  | s :: rest => do
      statement env s
      statements env rest

/-- Lowers the clauses of a `try` statement as a chain of branches on one flag nothing is known
about.  The variables of the first clause are the components of the result of the call. -/
def clauses (env : Env) (success : OperandId) (join : NodeId) (result : Option OperandId) :
    List Clause → Build Unit
  | [] => return ()
  | .clause parameters body :: rest => do
      let node ← newNode
      let next ← if rest.isEmpty then pure join else newNode
      branch success node next
      switchTo node
      inScope do
        declareComponents result 0 (parameters.map some)
        statement env body
      goto join
      switchTo next
      clauses env success join none rest

end

/-- Lowers a definition. -/
def Definition.lower (env : Env) (definition : Definition) : Build Unit := do
  let parameters ← declareAll definition.parameters
  let returns ← declareAll definition.returns
  modify (·.setSignature parameters returns)
  statement env definition.body

end ContractCalls.Solidity
