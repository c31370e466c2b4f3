/-
Bodies of functions: nodes of operations joined by terminators.
-/
import ContractCalls.Operation
import ContractCalls.Source

namespace ContractCalls

/-- Position of a node in its body. -/
structure NodeId where
  index : Nat
deriving DecidableEq, Repr, Inhabited, Ord

/-- Text of a node id. -/
def NodeId.render (id : NodeId) : String := "node" ++ toString id.index

/-- The merge of one variable where paths join. -/
structure Phi where
  lvalue : OperandId
  /-- The variable that is merged. -/
  base : OperandId
  /-- The value coming from each predecessor. -/
  incoming : List (NodeId × OperandId)
deriving DecidableEq, Repr

/-- How control leaves a node. -/
inductive Terminator where
  | goto (target : NodeId)
  | branch (condition : OperandId) (thenNode elseNode : NodeId)
  | ret (values : List OperandId)
  | revert
  /-- Not decided yet. -/
  | open_
deriving DecidableEq, Repr

namespace Terminator

/-- The nodes control may go to, each once. -/
def successors : Terminator → List NodeId
  | .goto target => [target]
  | .branch _ thenNode elseNode =>
      if thenNode = elseNode then [thenNode] else [thenNode, elseNode]
  | _ => []

/-- The operands a terminator reads. -/
def reads : Terminator → List OperandId
  | .branch condition _ _ => [condition]
  | .ret values => values
  | _ => []

/-- The terminator with every operand it reads replaced. -/
def mapReads (f : OperandId → OperandId) : Terminator → Terminator
  | .branch condition thenNode elseNode => .branch (f condition) thenNode elseNode
  | .ret values => .ret (values.map f)
  | t => t

/-- Text of a terminator. -/
def render (arena : Arena) : Terminator → String
  | .goto target => "goto " ++ target.render
  | .branch condition thenNode elseNode =>
      "branch " ++ arena.display condition ++ " ? " ++ thenNode.render ++ " : " ++ elseNode.render
  | .ret [] => "return"
  | .ret values => "return " ++ ", ".intercalate (values.map arena.display)
  | .revert => "revert"
  | .open_ => "open"

end Terminator

/-- A straight run of operations. -/
structure Node where
  id : NodeId
  phis : List Phi
  operations : List Operation
  terminator : Terminator
  source : Option Span
deriving DecidableEq, Repr

namespace Node

/-- A node without operations that is still open. -/
def new (id : NodeId) : Node := ⟨id, [], [], .open_, none⟩

/-- The way out of the node is decided. -/
def isTerminated (n : Node) : Bool := n.terminator != .open_

/-- The nodes control may go to. -/
def successors (n : Node) : List NodeId := n.terminator.successors

end Node

/-- The body of an implemented function. -/
structure Body where
  arena : Arena
  nodes : Array Node
  entry : Option NodeId
  parameters : List OperandId
  returns : List OperandId
  isSsa : Bool
deriving DecidableEq, Repr

namespace Body

/-- A body without nodes. -/
def empty : Body := ⟨.empty, #[], none, [], [], false⟩

instance : Inhabited Body := ⟨empty⟩

/-- Adds a node; the first one becomes the entry. -/
def addNode (b : Body) : NodeId × Body :=
  let id : NodeId := ⟨b.nodes.size⟩
  (id, { b with nodes := b.nodes.push (.new id), entry := some (b.entry.getD id) })

/-- A node. -/
def node? (b : Body) (id : NodeId) : Option Node := b.nodes[id.index]?

/-- Changes a node. -/
def modifyNode (b : Body) (id : NodeId) (f : Node → Node) : Body :=
  { b with nodes := b.nodes.modify id.index f }

/-- The nodes control may go to from a node; none from a node that does not exist. -/
def successors (b : Body) (id : NodeId) : List NodeId :=
  match b.node? id with
  | some node => node.successors
  | none => []

/-- All operations in order of their nodes. -/
def operations (b : Body) : List Operation := b.nodes.toList.flatMap (·.operations)

/-- The nodes that may lead to a node, in order of position, each once. -/
def predecessorsOf (b : Body) (id : NodeId) : List NodeId :=
  ((b.nodes.toList.filter fun node => node.successors.contains id).map (·.id)).foldl
    (fun ids p => if ids.contains p then ids else ids ++ [p]) []

/-- The predecessors of every node. -/
def predecessors (b : Body) : List (List NodeId) :=
  (List.range b.nodes.size).map fun index => b.predecessorsOf ⟨index⟩

/-! ## Reverse postorder -/

/-- A depth-first search under way. -/
structure Search where
  visited : List NodeId
  /-- Nodes with everything below them finished, last first. -/
  finished : List NodeId
  /-- The path from the entry, innermost first, each with the successors still to try. -/
  path : List (NodeId × List NodeId)

/-- One step: try the next successor of the innermost node, or finish it. -/
def Search.step (b : Body) (s : Search) : Search :=
  match s.path with
  | [] => s
  | (node, []) :: path => { s with finished := node :: s.finished, path := path }
  | (node, next :: rest) :: path =>
      if s.visited.contains next then { s with path := (node, rest) :: path }
      else
        { s with
          visited := next :: s.visited
          path := (next, b.successors next) :: (node, rest) :: path }

/-- Runs a search until its path is empty. -/
def Search.run (b : Body) : (fuel : Nat) → Search → Search
  | 0, s => s
  | fuel + 1, s => if s.path.isEmpty then s else run b fuel (s.step b)

/-- More steps than a search of the body can take: a node has at most two successors, so at most
`2n + 1` nodes are visited with three steps each. -/
def searchFuel (b : Body) : Nat := 3 * (2 * b.nodes.size + 1) + 1

/-- The nodes reachable from the entry, in reverse postorder. -/
def reversePostorder (b : Body) : List NodeId :=
  match b.entry with
  | none => []
  | some entry =>
      (Search.run b b.searchFuel ⟨[entry], [], [(entry, b.successors entry)]⟩).finished

end Body

end ContractCalls
