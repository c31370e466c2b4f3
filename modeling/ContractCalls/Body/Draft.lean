/-
Bodies under construction.

A draft has a current node, lexical scopes, the targets of the enclosing
loops, and one operand per state variable and builtin.  A node is terminated
once; what is emitted behind a terminator goes to a fresh node, so code that
no path reaches is kept without touching the nodes that are reached.
-/
import ContractCalls.Body.Basic
import ContractCalls.Error

namespace ContractCalls

/-- Where `continue` and `break` go. -/
structure LoopTargets where
  continueTo : NodeId
  breakTo : NodeId
deriving DecidableEq, Repr

/-- A body under construction. -/
structure Draft where
  body : Body
  counters : Counters
  current : NodeId
  /-- Names in scope, innermost scope first. -/
  scopes : List (Table String OperandId)
  /-- Enclosing loops, innermost first. -/
  loops : List LoopTargets
  states : Table String OperandId
  builtins : Table String OperandId
  /-- Local variables by the id of their declaration. -/
  declared : Table Int OperandId

namespace Draft

/-- A draft with an empty entry node. -/
def start (counters : Counters) : Draft :=
  let (entry, body) := Body.empty.addNode
  { body, counters, current := entry, scopes := [.empty], loops := [], states := .empty
    builtins := .empty, declared := .empty }

/-! ## Nodes -/

/-- Adds a node without moving to it. -/
def newNode (d : Draft) : NodeId × Draft :=
  let (id, body) := d.body.addNode
  (id, { d with body })

/-- Makes a node the current one. -/
def switchTo (d : Draft) (node : NodeId) : Draft := { d with current := node }

/-- The current node is terminated, or there is none. -/
def isTerminated (d : Draft) : Bool :=
  match d.body.node? d.current with
  | some node => node.isTerminated
  | none => true

/-- Terminates the current node unless it is terminated. -/
def terminate (d : Draft) (terminator : Terminator) : Draft :=
  { d with
    body := d.body.modifyNode d.current fun node =>
      if node.isTerminated then node else { node with terminator } }

/-- Gives the current node a source position unless it has one. -/
def annotate (d : Draft) (span : Option Span) : Draft :=
  { d with
    body := d.body.modifyNode d.current fun node => { node with source := node.source.or span } }

/-- Moves to a fresh node if the current one is terminated. -/
def reopen (d : Draft) : Draft :=
  if d.isTerminated then
    let (id, d) := d.newNode
    d.switchTo id
  else d

/-- Appends an operation, in a fresh node if the current one is terminated. -/
def emit (d : Draft) (op : Operation) : Draft :=
  let d := d.reopen
  { d with
    body := d.body.modifyNode d.current fun node =>
      { node with operations := node.operations ++ [op] } }

/-! ## Scopes and loops -/

def pushScope (d : Draft) : Draft := { d with scopes := .empty :: d.scopes }

/-- Leaves the innermost scope; the outermost one stays. -/
def popScope (d : Draft) : Draft :=
  match d.scopes with
  | _ :: outer :: rest => { d with scopes := outer :: rest }
  | _ => d

/-- The variable a name stands for. -/
def lookup? (d : Draft) (name : String) : Option OperandId :=
  d.scopes.findSome? (·.get? name)

def pushLoop (d : Draft) (targets : LoopTargets) : Draft := { d with loops := targets :: d.loops }

def popLoop (d : Draft) : Draft := { d with loops := d.loops.tail }

/-! ## Operands -/

/-- Adds an operand. -/
def addOperand (d : Draft) (kind : OperandKind) (ty : Ty) : OperandId × Draft :=
  let (id, arena) := d.body.arena.addKind kind ty
  (id, { d with body := { d.body with arena } })

/-- Sets a name of the innermost scope. -/
def bindName (name : String) (id : OperandId) :
    List (Table String OperandId) → List (Table String OperandId)
  | scope :: outer => scope.insert name id :: outer
  | [] => []

/-- Declares a variable in the innermost scope. -/
def declareLocal (d : Draft) (name : String) (ty : Ty) : OperandId × Draft :=
  let (id, d) := d.addOperand (.localVar name) ty
  (id, { d with scopes := bindName name id d.scopes })

/-- The operand of a state variable, added on first use. -/
def state (d : Draft) (name : String) (ty : Ty) : OperandId × Draft :=
  match d.states.get? name with
  | some id => (id, d)
  | none =>
      let (id, d) := d.addOperand (.stateVar name) ty
      (id, { d with states := d.states.insert name id })

/-- The operand of a builtin, added on first use. -/
def builtin (d : Draft) (name : String) (ty : Ty) : OperandId × Draft :=
  match d.builtins.get? name with
  | some id => (id, d)
  | none =>
      let (id, d) := d.addOperand (.builtin name) ty
      (id, { d with builtins := d.builtins.insert name id })

/-- Adds a constant. -/
def constant (d : Draft) (value : Constant) (ty : Ty) : OperandId × Draft :=
  d.addOperand (.constant value) ty

/-- Adds a temporary. -/
def temporary (d : Draft) (ty : Ty) : OperandId × Draft :=
  let (id, arena, counters) := d.body.arena.temporary d.counters ty
  (id, { d with body := { d.body with arena }, counters })

/-- Adds an unbound reference. -/
def unboundReference (d : Draft) (ty : Ty) : OperandId × Draft :=
  let (id, arena, counters) := d.body.arena.reference d.counters ty
  (id, { d with body := { d.body with arena }, counters })

/-- Adds a tuple. -/
def tuple (d : Draft) (ty : Ty) : OperandId × Draft :=
  let (id, arena, counters) := d.body.arena.tuple d.counters ty
  (id, { d with body := { d.body with arena }, counters })

/-- The operand for the result of a call: none for no value, a tuple for several. -/
def resultFor (d : Draft) : Ty → Option OperandId × Draft
  | .tuple [] => (none, d)
  | .tuple [item] => (d.temporary item).map some id
  | .tuple items => (d.tuple (.tuple items)).map some id
  | ty => (d.temporary ty).map some id

/-- Sets parameters and return variables. -/
def setSignature (d : Draft) (parameters returns : List OperandId) : Draft :=
  { d with body := { d.body with parameters, returns } }

/-- The body, with every open node returning the return variables. -/
def finish (d : Draft) : Body :=
  { d.body with
    nodes := d.body.nodes.map fun node =>
      if node.isTerminated then node else { node with terminator := .ret d.body.returns } }

end Draft

/-- A step of a construction; a failure keeps the draft it was met in, so its counters stay. -/
abbrev Build := ExceptT FrontEndError (StateM Draft)

namespace Build

/-- A step that cannot fail and gives a value. -/
def step {α : Type} (f : Draft → α × Draft) : Build α := modifyGet f

/-- The result of a check of the model. -/
def check {α : Type} (result : Except ModelError α) : Build α :=
  match result with
  | .ok a => pure a
  | .error e => throw (.model e)

/-- The operands so far. -/
def arena : Build Arena := return (← get).body.arena

/-- The type of an operand. -/
def tyOf (id : OperandId) : Build Ty := return (← arena).tyOf id

def newNode : Build NodeId := step (·.newNode)

def switchTo (node : NodeId) : Build Unit := modify (·.switchTo node)

def terminate (terminator : Terminator) : Build Unit := modify (·.terminate terminator)

def goto (target : NodeId) : Build Unit := terminate (.goto target)

def branch (condition : OperandId) (thenNode elseNode : NodeId) : Build Unit :=
  terminate (.branch condition thenNode elseNode)

def emit (op : Operation) : Build Unit := modify (·.emit op)

def declareLocal (name : String) (ty : Ty) : Build OperandId := step (·.declareLocal name ty)

def state (name : String) (ty : Ty) : Build OperandId := step (·.state name ty)

def builtin (name : String) (ty : Ty) : Build OperandId := step (·.builtin name ty)

def constant (value : Constant) (ty : Ty) : Build OperandId := step (·.constant value ty)

def temporary (ty : Ty) : Build OperandId := step (·.temporary ty)

/-- Adds a reference bound to an operand. -/
def reference (ty : Ty) (target : OperandId) : Build OperandId := do
  let id ← step (·.unboundReference ty)
  let arena ← check ((← arena).bindReference id target)
  modify fun d => { d with body := { d.body with arena } }
  return id

/-- Emits an assignment. -/
def assign (lvalue rvalue : OperandId) (declared : Ty) : Build Unit := do
  emit (← check (Operation.mkAssignment (← arena) lvalue rvalue declared))

/-- Emits a call. -/
def call (callee : Callee) (args : CallArgs) (lvalue : Option OperandId) : Build Unit := do
  emit (← check (Operation.mkCall (← arena) callee args lvalue))

/-- Emits an intrinsic that writes an operand. -/
def intrinsicInto (form : Intrinsic) (arguments : List OperandId) (lvalue : OperandId) :
    Build Unit :=
  call (.intrinsic form) (.positional arguments) (some lvalue)

/-- Emits an intrinsic into a fresh temporary. -/
def intrinsic (form : Intrinsic) (arguments : List OperandId) (ty : Ty) : Build OperandId := do
  let result ← temporary ty
  intrinsicInto form arguments result
  return result

/-- Emits a unary operation into a fresh temporary. -/
def unary (token : String) (operand : OperandId) (ty : Ty) : Build OperandId := do
  let result ← temporary ty
  emit (← check (Operation.mkUnary (← arena) result operand token))
  return result

/-- Emits the deletion of an operand. -/
def delete (lvalue : OperandId) : Build Unit := do
  emit (← check (Operation.mkDelete (← arena) lvalue lvalue))

/-- Emits the creation of a value into a fresh temporary. -/
def newElementary (ty : Ty) (arguments : List OperandId) : Build OperandId := do
  let result ← temporary ty
  emit (← check (Operation.mkNewElementary (← arena) ty (.positional arguments) result))
  return result

/-- Emits the creation of a structure into a fresh temporary. -/
def newStructure (name : String) (args : CallArgs) (ty : Ty) : Build OperandId := do
  let result ← temporary ty
  emit (← check (Operation.mkNewStructure (← arena) name args result))
  return result

/-- A reference into an object, computed by an intrinsic. -/
def refer (form : Intrinsic) (ty : Ty) (object : OperandId) (arguments : List OperandId) :
    Build OperandId := do
  let result ← reference ty object
  intrinsicInto form arguments result
  return result

/-- Gives the current node a source position. -/
def annotate (span : Option Span) : Build Unit := modify (·.annotate span)

/-- Runs a step in a scope of its own. -/
def inScope (body : Build Unit) : Build Unit := do
  modify (·.pushScope)
  body
  modify (·.popScope)

/-- Runs a step inside a loop. -/
def inLoop (continueTo breakTo : NodeId) (body : Build Unit) : Build Unit := do
  modify (·.pushLoop ⟨continueTo, breakTo⟩)
  body
  modify (·.popLoop)

/-- Goes to a target of the innermost loop, if there is one. -/
def leaveTo (target : LoopTargets → NodeId) : Build Unit := do
  match (← get).loops with
  | targets :: _ => goto (target targets)
  | [] => pure ()

/-- Runs a construction from an empty draft: the outcome and the counters afterwards. -/
def runBody (build : Build Unit) (counters : Counters) : Except FrontEndError Body × Counters :=
  match ExceptT.run build (.start counters) with
  | (.ok (), draft) => (.ok draft.finish, draft.counters)
  | (.error e, draft) => (.error e, draft.counters)

end Build

end ContractCalls
