/-
Conversion of a body to single-assignment form.

Nodes are renamed in reverse postorder.  A node is sealed once all its
reachable predecessors are filled; reading a variable in a node that is not
sealed leaves a phi whose incoming values are added when it is.  A failure
part of the way leaves the body as far as it was converted.
-/
import ContractCalls.Body.Basic

namespace ContractCalls.Body

/-- A conversion under way. -/
structure Renaming where
  body : Body
  /-- Reachable predecessors by node. -/
  preds : List (List NodeId)
  /-- The value of a variable at the end of a node. -/
  defs : List ((NodeId × OperandId) × OperandId)
  sealed_ : List NodeId
  filled : List NodeId
  /-- Phis waiting for their node to be sealed, as variable and position. -/
  incomplete : List (NodeId × OperandId × Nat)

/-- A step of the conversion: a failure keeps the state it was met in. -/
abbrev Rename := ExceptT ModelError (StateM Renaming)

namespace Renaming

/-- The recorded value of a variable at the end of a node. -/
def valueAt? (r : Renaming) (node : NodeId) (var : OperandId) : Option OperandId :=
  r.defs.lookup (node, var)

/-- Records the value of a variable at the end of a node. -/
def define (r : Renaming) (node : NodeId) (var value : OperandId) : Renaming :=
  { r with defs := ((node, var), value) :: r.defs }

/-- The reachable predecessors of a node. -/
def predsOf (r : Renaming) (node : NodeId) : List NodeId := (r.preds[node.index]?).getD []

/-- Adds an incoming value to a phi. -/
def addIncoming (r : Renaming) (node : NodeId) (phi : Nat) (pred : NodeId) (value : OperandId) :
    Renaming :=
  { r with
    body := r.body.modifyNode node fun n =>
      { n with phis := n.phis.modify phi fun p => { p with incoming := p.incoming ++ [(pred, value)] } } }

/-- Every reachable predecessor of the node is filled. -/
def isReady (r : Renaming) (node : NodeId) : Bool :=
  (r.predsOf node).all r.filled.contains

end Renaming

open Renaming

/-- Runs an operation of the arena on the body under conversion. -/
def onArena {α : Type} (f : Arena → Except ModelError (α × Arena)) : Rename α := do
  let r ← get
  match f r.body.arena with
  | .ok (a, arena) =>
      set { r with body := { r.body with arena := arena } }
      return a
  | .error e => throw e

/-- Adds a phi for a variable to a node: its value and its position. -/
def pushPhi (var : OperandId) (node : NodeId) : Rename (OperandId × Nat) := do
  let value ← onArena (·.freshVersionOf var)
  match (← get).body.node? node with
  | none => return (value, 0)
  | some n =>
      modify fun r => { r with
        body := r.body.modifyNode node fun n => { n with phis := n.phis ++ [⟨value, var, []⟩] } }
      return (value, n.phis.length)

/-- The value of a variable at the end of a node.  The fuel exceeds the depth of every walk that
ends; one that goes round a circle of single predecessors runs out of it and fails. -/
def readVariable (var : OperandId) : (fuel : Nat) → NodeId → Rename OperandId
  | 0, node => throw (.resolution ("no value of " ++ var.render ++ " reaches " ++ node.render))
  | fuel + 1, node => do
      let r ← get
      match r.valueAt? node var with
      | some value => return value
      | none =>
          let value ←
            if !r.sealed_.contains node then do
              let (value, phi) ← pushPhi var node
              modify fun r => { r with incomplete := r.incomplete ++ [(node, var, phi)] }
              pure value
            else
              match r.predsOf node with
              | [] => onArena (·.entryVersionOf var)
              | [pred] => readVariable var fuel pred
              | preds => do
                  let (value, phi) ← pushPhi var node
                  modify (·.define node var value)
                  preds.forM fun pred => do
                    let incoming ← readVariable var fuel pred
                    modify (·.addIncoming node phi pred incoming)
                  pure value
          modify (·.define node var value)
          return value

/-- Fuel for reading a variable. -/
def readFuel (r : Renaming) : Nat := (r.body.nodes.size + 1) * (r.body.nodes.size + 1)

/-- The value of a variable at the end of a node. -/
def readAt (var : OperandId) (node : NodeId) : Rename OperandId := do
  readVariable var (readFuel (← get)) node

/-- Fills in the incoming values of a phi. -/
def completePhi (var : OperandId) (node : NodeId) (phi : Nat) : Rename Unit := do
  ((← get).predsOf node).forM fun pred => do
    let value ← readAt var pred
    modify (·.addIncoming node phi pred value)

/-- Seals a node and completes the phis that waited for it. -/
def sealNode (node : NodeId) : Rename Unit := do
  let r ← get
  let waiting := r.incomplete.filter (·.1 == node)
  set { r with
    sealed_ := node :: r.sealed_
    incomplete := r.incomplete.filter (·.1 != node) }
  waiting.forM fun (_, var, phi) => completePhi var node phi

/-- Seals every node that is ready. -/
def sealReady (order : List NodeId) : Rename Unit :=
  order.forM fun node => do
    let r ← get
    if !r.sealed_.contains node && r.isReady node then sealNode node

/-- The operand to read in place of an operand. -/
def renameRead (node : NodeId) (id : OperandId) : Rename OperandId := do
  let operand ← onArena fun a => (a.get id).map (·, a)
  if operand.ssa.isSome then return id
  else if operand.kind.isVariable then readAt id node
  else if operand.kind.isIntroduced then onArena (·.variantOf id)
  else return id

/-- The replacement of each operand of a list, renaming each once from left to right. -/
def renameReads (node : NodeId) : (done : List (OperandId × OperandId)) → List OperandId →
    Rename (List (OperandId × OperandId))
  | done, [] => return done
  | done, id :: ids => do
      if (done.lookup id).isSome then renameReads node done ids
      else
        let renamed ← renameRead node id
        renameReads node ((id, renamed) :: done) ids

/-- The operand to write in place of an operand.  The form of a bound reference is bound, on its
first write, to the form of what the reference aliases. -/
def renameWrite (node : NodeId) (id : OperandId) : Rename OperandId := do
  let operand ← onArena fun a => (a.get id).map (·, a)
  if operand.ssa.isSome then return id
  else
    match operand.kind with
    | .stateVar _ | .localVar _ => do
        let version ← onArena (·.freshVersionOf id)
        modify (·.define node id version)
        return version
    | .reference _ pointsTo => do
        let variant ← onArena (·.variantOf id)
        let form ← onArena fun a => (a.get variant).map (·, a)
        match pointsTo, form.kind with
        | some target, .reference _ none => do
            let renamed ← renameRead node target
            onArena fun a => (a.bindReference variant renamed).map ((), ·)
        | _, _ => pure ()
        return variant
    | .temporary _ | .tuple _ => onArena (·.variantOf id)
    | _ => return id

/-- The replacement of an operand by a list of renamings. -/
def replace (renamed : List (OperandId × OperandId)) (id : OperandId) : OperandId :=
  (renamed.lookup id).getD id

/-- The renamed form of an operation: its reads first, then its write. -/
def renameOperation (node : NodeId) (op : Operation) : Rename Operation := do
  let renamed ← renameReads node [] op.reads
  let op := op.mapReads (replace renamed)
  match op.lvalue? with
  | some lvalue => do
      let written ← renameWrite node lvalue
      return op.mapLvalue fun _ => written
  | none => return op

/-- Renames the operations and the terminator of a node.  The node is empty meanwhile, and stays
so if a renaming fails. -/
def renameNode (id : NodeId) : Rename Unit := do
  match (← get).body.node? id with
  | none => return ()
  | some node =>
      modify fun r => { r with
        body := r.body.modifyNode id fun n => { n with operations := [], terminator := .open_ } }
      let operations ← node.operations.mapM (renameOperation id)
      let renamed ← renameReads id [] node.terminator.reads
      let terminator := node.terminator.mapReads (replace renamed)
      modify fun r => { r with
        body := r.body.modifyNode id fun n =>
          { n with operations := operations, terminator := terminator } }

/-- Converts the nodes in order. -/
def renameAll (order : List NodeId) : Rename Unit := do
  order.forM fun node => do
    sealReady order
    renameNode node
    modify fun r => { r with filled := node :: r.filled }
  sealReady order

/-- The start of a conversion. -/
def startRenaming (b : Body) (order : List NodeId) : Renaming :=
  { body := b
    preds := b.predecessors.map fun preds => preds.filter order.contains
    defs := []
    sealed_ := []
    filled := []
    incomplete := [] }

/-- Converts a body to single-assignment form; a converted body stays as it is. -/
def toSsa (b : Body) : Except ModelError Unit × Body :=
  if b.isSsa then (.ok (), b)
  else
    let order := b.reversePostorder
    match (renameAll order).run (b.startRenaming order) with
    | (.ok (), r) => (.ok (), { r.body with isSsa := true })
    | (.error e, r) => (.error e, r.body)

end ContractCalls.Body
