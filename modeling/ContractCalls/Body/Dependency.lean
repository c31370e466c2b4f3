/-
Which variables a variable of a body depends on.

An operation makes what it writes depend on what it reads, and a phi on its
incoming values.  A write through a bound reference also makes the aliased
operand depend on the reads; index and member accesses only bind a reference
and do not write through it.  The result is the transitive closure, by name.
-/
import ContractCalls.Body.Basic
import ContractCalls.Ordered

namespace ContractCalls

/-- The names a variable depends on, ascending, by variable. -/
abbrev DependencyMap := Table String (List String)

/-- Adds names to the set of a variable. -/
def addSources (deps : DependencyMap) (name : String) (sources : List String) : DependencyMap :=
  let old := (deps.get? name).getD []
  deps.insert name (sources.foldl (fun set s => Ordered.insert compare s set) old)

namespace Body

/-- Direct dependencies between operands. -/
structure Flow where
  /-- Operands that are written, with or without reads. -/
  written : List OperandId
  /-- From what is written to what is read. -/
  edges : List (OperandId × OperandId)

namespace Flow

/-- Records that `target` is written from `reads`. -/
def write (flow : Flow) (target : OperandId) (reads : List OperandId) : Flow :=
  { written := flow.written ++ [target]
    edges := flow.edges ++ reads.map (target, ·) }

/-- What an operand directly depends on. -/
def next (flow : Flow) (id : OperandId) : List OperandId :=
  (flow.edges.filter (·.1 == id)).map (·.2)

/-- The operands found from a stack of operands, beyond those seen. -/
def explore (flow : Flow) : (fuel : Nat) → (seen stack : List OperandId) → List OperandId
  | 0, seen, _ => seen
  | _ + 1, seen, [] => seen
  | fuel + 1, seen, id :: stack =>
      if seen.contains id then explore flow fuel seen stack
      else explore flow fuel (id :: seen) (flow.next id ++ stack)

/-- The operands an operand depends on, directly or not. -/
def reach (flow : Flow) (id : OperandId) : List OperandId :=
  flow.explore (2 * flow.edges.length + 1) [] (flow.next id)

end Flow

/-- The operation binds the reference it writes and does not write through it. -/
def bindsReference (op : Operation) : Bool :=
  match op.callee? with
  | some (.intrinsic .index) | some (.intrinsic (.member _)) => true
  | _ => false

/-- The direct dependencies of an operation, added to those known. -/
def flowOfOperation (arena : Arena) (flow : Flow) (op : Operation) : Except ModelError Flow := do
  match op.lvalue? with
  | none => return flow
  | some lvalue =>
      let flow := flow.write lvalue op.reads
      if (← arena.get lvalue).isReference && !bindsReference op then
        let target ← arena.resolve lvalue
        return if target = lvalue then flow else flow.write target op.reads
      else return flow

/-- The direct dependencies of a node, added to those known. -/
def flowOfNode (arena : Arena) (flow : Flow) (node : Node) : Except ModelError Flow :=
  node.operations.foldlM (flowOfOperation arena)
    (node.phis.foldl (fun flow phi => flow.write phi.lvalue (phi.incoming.map (·.2))) flow)

/-- The direct dependencies of a body. -/
def flow (b : Body) : Except ModelError Flow :=
  b.nodes.toList.foldlM (flowOfNode b.arena) ⟨[], []⟩

/-- Name of the variable that an operand is or renames. -/
def variableName? (b : Body) (id : OperandId) : Option String :=
  (b.arena.get? (b.arena.nonSsa id)).bind (·.kind.variableName?)

/-- The names other than `name` among the operands that `id` depends on. -/
def sourcesOf (b : Body) (flow : Flow) (name : String) (id : OperandId) : List String :=
  ((flow.reach id).filterMap b.variableName?).filter (· != name)

/-- The dependencies of every variable that is written, in order of the written operands. -/
def dependencies (b : Body) : Except ModelError DependencyMap := do
  let flow ← b.flow
  let written := Ordered.ofList (Ordered.comparing OperandId.index) flow.written
  return written.foldl
    (fun deps id =>
      match b.variableName? id with
      | some name => addSources deps name (b.sourcesOf flow name id)
      | none => deps)
    .empty

/-- Names of the state variables among the operands. -/
def stateNames (b : Body) : List String :=
  b.arena.slots.toList.filterMap fun slot =>
    match slot.operand.kind with
    | .stateVar name => some name
    | _ => none

end Body

end ContractCalls
