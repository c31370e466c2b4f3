/-
# What a body does along a path

Operands are cells that hold a value or nothing yet.  An operation reads its
cells and puts what it computes from them into the cell it writes; which
function that is is left open, a `Meaning` gives one for every operation
without its operands.  Control enters a node by doing all its phis at once,
each with the value that comes from the node just left, and leaves it by the
reads of its terminator.

`trace` runs a body along a list of nodes and collects everything that is
read.  It gives nothing as soon as a cell is read that holds nothing, so a
trace that is there says that every read was of a defined operand.
-/
import ContractCalls.Proofs.Body.Graph
import Mathlib.Logic.Function.Basic

namespace ContractCalls

namespace Operation

/-- The operation without its operands. -/
def shape (op : Operation) : Operation := (op.mapReads fun _ => ⟨0⟩).mapLvalue fun _ => ⟨0⟩

@[simp] theorem reads_mapReads (f : OperandId → OperandId) (op : Operation) :
    (op.mapReads f).reads = op.reads.map f := by cases op <;> rfl

@[simp] theorem lvalue?_mapReads (f : OperandId → OperandId) (op : Operation) :
    (op.mapReads f).lvalue? = op.lvalue? := by cases op <;> rfl

@[simp] theorem reads_mapLvalue (f : OperandId → OperandId) (op : Operation) :
    (op.mapLvalue f).reads = op.reads := by cases op <;> rfl

@[simp] theorem lvalue?_mapLvalue (f : OperandId → OperandId) (op : Operation) :
    (op.mapLvalue f).lvalue? = op.lvalue?.map f := by cases op <;> rfl

@[simp] theorem shape_mapReads (f : OperandId → OperandId) (op : Operation) :
    (op.mapReads f).shape = op.shape := by
  cases op <;> simp [shape, mapReads, mapLvalue, Function.comp_def]

@[simp] theorem shape_mapLvalue (f : OperandId → OperandId) (op : Operation) :
    (op.mapLvalue f).shape = op.shape := by
  cases op <;> simp [shape, mapReads, mapLvalue, Function.comp_def]

end Operation

namespace Terminator

@[simp] theorem reads_mapReads (f : OperandId → OperandId) (t : Terminator) :
    (t.mapReads f).reads = t.reads.map f := by cases t <;> rfl

@[simp] theorem successors_mapReads (f : OperandId → OperandId) (t : Terminator) :
    (t.mapReads f).successors = t.successors := by cases t <;> rfl

end Terminator

namespace Body

/-- The nodes of a walk that starts at the entry and follows edges. -/
def IsPath (b : Body) (path : List NodeId) : Prop :=
  ∃ entry rest, b.entry = some entry ∧ path = entry :: rest ∧ path.IsChain b.Edge

/-- The value each operand holds, if it holds one. -/
abbrev Cells (V : Type) := OperandId → Option V

/-- What operations compute from the values they read; operations come without operands. -/
abbrev Meaning (V : Type) := Operation → List V → V

section Execution

variable {V : Type} (meaning : Meaning V)

/-- Does an operation: what it read, and the cells afterwards. -/
def execOperation (cells : Cells V) (op : Operation) : Option (List V × Cells V) := do
  let values ← op.reads.mapM cells
  match op.lvalue? with
  | some lvalue => some (values, Function.update cells lvalue (some (meaning op.shape values)))
  | none => some (values, cells)

/-- Does operations in order. -/
def execOperations : Cells V → List Operation → Option (List (List V) × Cells V)
  | cells, [] => some ([], cells)
  | cells, op :: ops => do
      let (values, cells) ← execOperation meaning cells op
      let (rest, cells) ← execOperations cells ops
      return (values :: rest, cells)

/-- The value a phi takes over from the node just left. -/
def phiValue (left : Option NodeId) (cells : Cells V) (φ : Phi) : Option V := do
  cells (← φ.incoming.lookup (← left))

/-- Puts a value into the cell of each phi. -/
def assignPhis (cells : Cells V) : List Phi → List V → Cells V
  | φ :: phis, value :: values =>
      assignPhis (Function.update cells φ.lvalue (some value)) phis values
  | _, _ => cells

/-- Enters a node: all its phis read, then all of them write. -/
def enterNode (left : Option NodeId) (cells : Cells V) (phis : List Phi) : Option (Cells V) := do
  return assignPhis cells phis (← phis.mapM (phiValue left cells))

/-- Goes through a node: what its operations and its terminator read, and the cells afterwards. -/
def execNode (left : Option NodeId) (cells : Cells V) (node : Node) :
    Option (List (List V) × Cells V) := do
  let cells ← enterNode left cells node.phis
  let (reads, cells) ← execOperations meaning cells node.operations
  return (reads ++ [← node.terminator.reads.mapM cells], cells)

/-- Everything read along a path, node by node; a node that does not exist reads nothing. -/
def trace (b : Body) : (left : Option NodeId) → Cells V → List NodeId →
    Option (List (List (List V)))
  | _, _, [] => some []
  | left, cells, n :: path => do
      let (reads, cells) ← match b.node? n with
        | some node => execNode meaning left cells node
        | none => some ([], cells)
      return reads :: (← trace b (some n) cells path)

/-- What is read depends on the nodes only. -/
theorem trace_congr {b b' : Body} (h : b'.nodes = b.nodes) (path : List NodeId) :
    ∀ (left : Option NodeId) (cells : Cells V),
      b'.trace meaning left cells path = b.trace meaning left cells path := by
  induction path with
  | nil => intro left cells; rfl
  | cons n path ih =>
      intro left cells
      have hnode : b'.node? n = b.node? n := by rw [node?, h, node?]
      simp only [trace, hnode, ih]

end Execution

/-- The cells a body starts with, by the values on entry of what it is about: a form starts as
what it renames, version 0 of a variable as the variable, and a later version holds nothing. -/
def entryCells {V : Type} (a : Arena) (start : OperandId → V) : Cells V := fun id =>
  match (a.get? id).bind (·.ssa) with
  | none => some (start id)
  | some (.variant of) => some (start of)
  | some (.version base 0) => some (start base)
  | some (.version _ (_ + 1)) => none

end Body

end ContractCalls
