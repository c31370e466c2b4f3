/-
Lowering of Vyper function bodies.

A call on `self` calls a function of the module, a call of any other attribute
or of a computed callee leaves the module, and a call of a bare name is a
builtin.  Storage is reached through `self`; what hangs off `msg`, `block`,
`tx` and `chain` is a builtin.
-/
import ContractCalls.Body.Draft
import ContractCalls.Vyper.Layout
import ContractCalls.Vyper.Syntax

namespace ContractCalls.Vyper

open Build

/-- The names whose members are part of the environment. -/
def environmentNames : List String := ["self", "msg", "block", "tx", "chain"]

/-- The builtins that end the execution. -/
def revertingBuiltins : List String := ["raw_revert", "selfdestruct"]

/-- The result of an expression that has to have one. -/
def Expr.result (e : Expr) : Option OperandId → Build OperandId
  | some operand => pure operand
  | none => throw (.unsupported (e.callType ++ " used as a value has no result"))

/-! ## Names -/

/-- The variable a name stands for, if it is one. -/
def variableNamed? (layout : Layout) (name : String) : Build (Option OperandId) := do
  match (← get).lookup? name, layout.states.get? name with
  | some operand, _ => return some operand
  | none, some ty => some <$> state name ty
  | none, none => return none

/-- The operand of a name. -/
def nameValue (layout : Layout) (name : String) : Build OperandId := do
  match ← variableNamed? layout name with
  | some operand => return operand
  | none => builtin name (if name == "self" then .elementary "address" else .unknown)

/-- The operand of a member of the environment, if the base is part of it; storage comes first. -/
def environmentValue? (layout : Layout) (base : Expr) (name : String) : Option (Build OperandId) :=
  match base with
  | .name id =>
      match id == "self", layout.states.get? name with
      | true, some ty => some (state name ty)
      | _, _ =>
          if environmentNames.contains id then some (builtin (id ++ "." ++ name) .unknown)
          else none
  | _ => none

/-! ## Operations -/

/-- The type of what a key selects from an object. -/
def elementType : Ty → Ty
  | .mapping _ value => value
  | .array element _ => element
  | _ => .unknown

/-- A unary operation on an operand. -/
def applyUnary (form : UnaryForm) (operand : OperandId) : Build OperandId := do
  let ty ← tyOf operand
  match form with
  | .not => unary "!" operand .bool
  | .invert => unary "~" operand ty
  | .negate =>
      let zero ← constant (.uint 0) ty
      intrinsic (.binary "-") [zero, operand] ty

/-- The types of operands. -/
def typesOf (operands : List OperandId) : Build (List Ty) := do
  let arena ← arena
  return operands.map arena.tyOf

/-- The array that a list stands for. -/
def listType (types : List Ty) : Ty := .array (types.head?.getD .unknown) (some types.length)

/-- The operand for the result of a call; only functions of the module have known return types. -/
def callResult (layout : Layout) (callee : Callee) (name : String) : Build (Option OperandId) :=
  match callee with
  | .internal _ => step (·.resultFor (.tuple (layout.returnTypes name)))
  | _ => some <$> temporary .unknown

/-- The callee ends the execution. -/
def isRevert : Callee → Bool
  | .builtin name => revertingBuiltins.contains name
  | _ => false

/-- Emits a call; one that ends the execution ends the node. -/
def emitCall (layout : Layout) (callee : Callee) (name : String) (arguments : List OperandId) :
    Build (Option OperandId) := do
  let result ← callResult layout callee name
  call callee (.positional arguments) result
  if isRevert callee then terminate .revert
  return result

mutual

/-- Lowers an expression; a call that returns nothing has no result. -/
def value (layout : Layout) : Expr → Build (Option OperandId)
  | .absent field nodeType => throw (.missingField field nodeType)
  | .literal constant ty => some <$> Build.constant constant ty
  | .name id => some <$> nameValue layout id
  | .member base name => do
      match environmentValue? layout base name with
      | some operand => some <$> operand
      | none =>
          let object ← base.result (← value layout base)
          some <$> refer (.member name) .unknown object [object]
  | .subscript base key => do
      let object ← base.result (← value layout base)
      let position ← key.result (← value layout key)
      some <$> refer .index (elementType (← tyOf object)) object [object, position]
  | .call callee label arguments => do
      match callee with
      | .absent field nodeType => throw (.missingField field nodeType)
      | .name id => emitCall layout (.builtin id) id (← values layout arguments)
      | .member base name =>
          if base.isSelf then
            emitCall layout (layout.ownCallee name) name (← values layout arguments)
          else
            let _ ← value layout base
            emitCall layout (outsideCallee label) name (← values layout arguments)
      | other =>
          let _ ← value layout other
          emitCall layout (outsideCallee label) "" (← values layout arguments)
  | .construct typeName names members => do
      let operands ← values layout members
      some <$> newStructure typeName (.named names operands) (.struct typeName)
  | .marked _ inner => value layout inner
  | .binary operator left right => do
      let first ← left.result (← value layout left)
      let second ← right.result (← value layout right)
      some <$> intrinsic (.binary operator) [first, second] (← tyOf first)
  | .compare operator left right => do
      let first ← left.result (← value layout left)
      let second ← right.result (← value layout right)
      some <$> intrinsic (.binary operator) [first, second] .bool
  | .logical _ [] => throw (.missingField "values" "BoolOp")
  | .logical operator (first :: rest) => do
      let start ← first.result (← value layout first)
      some <$> combine layout operator start rest
  | .unary form operand => do
      some <$> applyUnary form (← operand.result (← value layout operand))
  | .tuple elements => do
      let operands ← values layout elements
      some <$> intrinsic .initializer operands (.tuple (← typesOf operands))
  | .list elements => do
      let operands ← values layout elements
      some <$> intrinsic .initializer operands (listType (← typesOf operands))
  | .conditional test yes no => do
      let condition ← test.result (← value layout test)
      let first ← yes.result (← value layout yes)
      let second ← no.result (← value layout no)
      some <$> intrinsic (.binary "?:") [condition, first, second] (← tyOf first)
  | .dict members => do
      some <$> intrinsic .initializer (← values layout members) .unknown
  | .unlisted nodeType children => do
      effects layout children
      some <$> builtin nodeType .unknown

/-- Lowers expressions that have to have results. -/
def values (layout : Layout) : List Expr → Build (List OperandId)
  | [] => return []
  | e :: rest => do
      let first ← e.result (← value layout e)
      return first :: (← values layout rest)

/-- Lowers expressions for their effects. -/
def effects (layout : Layout) : List Expr → Build Unit
  | [] => return ()
  | e :: rest => do
      let _ ← value layout e
      effects layout rest

/-- Combines operands from the left by a logical operator. -/
def combine (layout : Layout) (operator : String) (start : OperandId) :
    List Expr → Build OperandId
  | [] => return start
  | e :: rest => do
      let next ← e.result (← value layout e)
      combine layout operator (← intrinsic (.binary operator) [start, next] .bool) rest

end

/-- Lowers an expression that has to have a result. -/
def expression (layout : Layout) (e : Expr) : Build OperandId := do
  e.result (← value layout e)

/-- Lowers an optional expression for its effects. -/
def effect? (layout : Layout) : Option Expr → Build Unit
  | some e => do
      let _ ← value layout e
  | none => return ()

/-! ## Statements -/

/-- The operand that an assignment writes to; a bare name has to be a variable. -/
def place (layout : Layout) : Expr → Build OperandId
  | .name id => do
      match ← variableNamed? layout id with
      | some operand => return operand
      | none => throw (.variableNotFound id)
  | e => expression layout e

/-- Assigns the components of a value, from a position on, to places. -/
def assignComponents (layout : Layout) (source : OperandId) : (position : Nat) → List Expr →
    Build Unit
  | _, [] => return ()
  | position, e :: rest => do
      let slot ← place layout e
      intrinsicInto (.tupleComponent position) [source] slot
      assignComponents layout source (position + 1) rest

/-- Declares a variable with an optional initial value, which is computed first. -/
def declare (layout : Layout) (binding : Binding) : Option Expr → Build Unit
  | some initial => do
      let computed ← expression layout initial
      let declared ← declareLocal binding.name binding.ty
      assign declared computed binding.ty
  | none => do
      let _ ← declareLocal binding.name binding.ty

/-- A declaration that could be read. -/
def readable (binding : Except FrontEndError Binding) : Build Binding :=
  match binding with
  | .ok binding => pure binding
  | .error e => throw e

mutual

/-- Lowers a statement. -/
def statement (layout : Layout) : Stmt → Build Unit
  | .located span inner => do
      annotate span
      statement layout inner
  | .skip => pure ()
  | .expression e => do
      let _ ← value layout e
  | .declare binding initial => do
      declare layout (← readable binding) initial
  | .assign target source => do
      let computed ← expression layout source
      let slot ← place layout target
      assign slot computed (← tyOf slot)
  | .assignAll targets source => do
      let computed ← expression layout source
      assignComponents layout computed 0 targets
  | .update operator target source => do
      let right ← expression layout source
      let slot ← place layout target
      let ty ← tyOf slot
      assign slot (← intrinsic (.binary operator) [slot, right] ty) ty
  | .ret es => do terminate (.ret (← values layout es))
  | .ifElse test yes no => do
      let condition ← expression layout test
      let yesNode ← newNode
      let join ← newNode
      let noNode ← if no.isEmpty then pure join else newNode
      branch condition yesNode noNode
      switchTo yesNode
      inScope (statements layout yes)
      goto join
      if !no.isEmpty then
        switchTo noNode
        inScope (statements layout no)
        goto join
      switchTo join
  | .forEach binding iterable body => do
      let source ← expression layout iterable
      let binding ← readable binding
      inScope do
        let declared ← declareLocal binding.name binding.ty
        let header ← newNode
        goto header
        switchTo header
        let hasNext ← builtin "for.has_next" .bool
        let bodyNode ← newNode
        let exit ← newNode
        branch hasNext bodyNode exit
        inLoop header exit do
          switchTo bodyNode
          assign declared (← refer .index binding.ty source [source]) binding.ty
          statements layout body
          goto header
        switchTo exit
  | .assert test message => do
      let condition ← expression layout test
      let pass ← newNode
      let fail ← newNode
      branch condition pass fail
      switchTo fail
      effect? layout message
      terminate .revert
      switchTo pass
  | .raise exception => do
      effect? layout exception
      terminate .revert
  | .breakLoop => leaveTo LoopTargets.breakTo
  | .continueLoop => leaveTo LoopTargets.continueTo
  | .nop => emit .nop

/-- Lowers statements in order. -/
def statements (layout : Layout) : List Stmt → Build Unit
  | [] => return ()
  | s :: rest => do
      statement layout s
      statements layout rest

end

/-- Declares variables in order. -/
def declareAll : List Binding → Build (List OperandId)
  | [] => return []
  | binding :: rest => do
      let first ← declareLocal binding.name binding.ty
      return first :: (← declareAll rest)

/-- Lowers a definition. -/
def Definition.lower (layout : Layout) (definition : Definition) : Build Unit := do
  match definition.parameters with
  | .error e => throw e
  | .ok bindings =>
      let parameters ← declareAll bindings
      modify (·.setSignature parameters [])
      statements layout definition.body

end ContractCalls.Vyper
