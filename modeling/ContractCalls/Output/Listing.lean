/-
The listing of a compilation: every body, node by node.
-/
import ContractCalls.Compilation
import ContractCalls.Output.Indented

namespace ContractCalls

/-- Text of a merge. -/
def Phi.render (arena : Arena) (phi : Phi) : String :=
  let incoming := phi.incoming.map fun (node, value) => node.render ++ ": " ++ arena.display value
  arena.display phi.lvalue ++ " := phi(" ++ ", ".intercalate incoming ++ ")"

namespace Listing

/-- Adds an operation; calls have a tone of their own. -/
def addOperation (arena : Arena) (label : FunctionId → String) (w : Indented) (op : Operation) :
    Indented :=
  let text := op.render arena label
  if op.callee?.isSome then w.toned text .call else w.line text

/-- Adds a node: its label, and below it merges, operations and terminator. -/
def addNode (arena : Arena) (label : FunctionId → String) (w : Indented) (node : Node) :
    Indented :=
  let w := (w.toned (node.id.render ++ ":") .label).indent
  let w := node.phis.foldl (fun w phi => w.line (phi.render arena)) w
  let w := node.operations.foldl (addOperation arena label) w
  (w.toned (node.terminator.render arena) .terminator).dedent

/-- Adds a function: a block with its nodes, or a comment if it has no body. -/
def addFunction (u : Compilation) (w : Indented) (f : Function) : Indented :=
  let header := "function " ++ f.displayName ++ " " ++ f.visibility.render
  match f.body with
  | none => w.comment (header ++ ": no body")
  | some body =>
      w.block header fun w => body.nodes.toList.foldl (addNode body.arena u.functionLabel) w

/-- Adds a contract with its functions. -/
def addContract (u : Compilation) (w : Indented) (contract : Contract) : Indented :=
  w.block (contract.kind.render ++ " " ++ contract.name) fun w =>
    (u.functionsOf contract).foldl (addFunction u) w

end Listing

/-- The listing of every function of every contract. -/
def Compilation.listing (u : Compilation) (colors : Bool) : String :=
  (u.contracts.toList.foldl (Listing.addContract u) (.start colors)).text

end ContractCalls
