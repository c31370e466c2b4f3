/-
# Lowered bodies are well formed

Whatever tree either front end is given: if its lowering gives a body, the body
is well formed.  Nothing is asked of the tree, of the names that are known when
it is lowered, or of the numbers that operands start with.

Both lowerings keep the invariant of drafts, so a body that a run of one of
them finishes is well formed.  The trees at the end hold a statement behind a
`return`, which ends up in a node that no path reaches.
-/
import ContractCalls.Proofs.Solidity.Lowering
import ContractCalls.Proofs.Solidity.Node
import ContractCalls.Proofs.Vyper.Lowering
import ContractCalls.Solidity.Loader
import ContractCalls.Vyper.Decode
import Mathlib

namespace ContractCalls

theorem Solidity.wellFormed_of_lowerDefinition {l : Solidity.Loader}
    {context : Option ContractId} {file : String} {n : Solidity.Node} {counters after : Counters}
    {body : Body} (h : l.lowerDefinition context file n counters = (.ok (some body), after)) :
    body.WellFormed := by
  unfold Solidity.Loader.lowerDefinition at h
  split at h
  · cases h
  · next definition _ =>
      cases hrun : Build.runBody (definition.lower ⟨l.unit, l.index, context⟩) counters with
      | mk result rest =>
          rw [hrun] at h
          cases result with
          | error e => cases h
          | ok lowered =>
              cases h
              exact Build.runBody_wellFormed (fun d inv => definition.builds_lower _ inv) hrun

/-- Every body that a lowering gives is well formed. -/
theorem lowered_wellFormed :
    (∀ (l : Solidity.Loader) (context : Option ContractId) (file : String) (n : Solidity.Node)
        (counters after : Counters) (body : Body),
      l.lowerDefinition context file n counters = (.ok (some body), after) → body.WellFormed) ∧
    (∀ (layout : Vyper.Layout) (types : Vyper.UserTypes) (locate : Vyper.Node → Option Span)
        (n : Vyper.Node) (counters after : Counters) (body : Body),
      Build.runBody ((Vyper.Definition.ofNode types locate n).lower layout) counters =
        (.ok body, after) → body.WellFormed) := by
  constructor
  · intro l context file n counters after body h
    exact Solidity.wellFormed_of_lowerDefinition h
  · intro layout types locate n counters after body h
    exact Build.runBody_wellFormed (fun d inv => Vyper.Definition.builds_lower layout _ inv) h

/-! ## A statement behind a return -/

namespace Solidity

/-- The tree of `return true;`. -/
def returningNode : Json :=
  .object [("expression", .object [("kind", .string "bool"), ("nodeType", .string "Literal"),
    ("value", .string "true")]), ("nodeType", .string "Return")]

/-- The tree of `_;`. -/
def placeholderNode : Json := .object [("nodeType", .string "PlaceholderStatement")]

/-- The tree of `{ return true; _; }`. -/
def earlyReturnBlock : Json :=
  .object [("nodeType", .string "Block"), ("statements", .array [returningNode, placeholderNode])]

/-- A definition with that block as its body. -/
def earlyReturn : Node := ⟨.compact, .object [("body", earlyReturnBlock)]⟩

theorem returnValues?_returningNode :
    returnValues? ⟨.compact, returningNode⟩ = some [.literal none (.bool true)] := by
  show some [Expr.ofNode _] = _
  rw [Expr.ofNode]
  rfl

theorem ofNode?_earlyReturn (files : List String) (file : String) :
    Definition.ofNode? (·.span? files file) earlyReturn =
      some ⟨[], [], .located none (.block [.located none (.ret (some [.literal none (.bool true)])),
        .located none .nop])⟩ := by
  have hbody : earlyReturn.field? "body" = some ⟨.compact, earlyReturnBlock⟩ := rfl
  have hstatements : Node.fields ⟨.compact, earlyReturnBlock⟩ "statements" =
      [⟨.compact, returningNode⟩, ⟨.compact, placeholderNode⟩] := rfl
  rw [Definition.ofNode?, hbody, Option.map_some, Stmt.ofNode]
  simp only [Node.mapFields_eq, hstatements]
  rw [List.map_cons, Stmt.ofNode, returnValues?_returningNode, List.map_singleton, Stmt.ofNode]
  rfl

end Solidity

namespace Vyper

/-- The tree of `return True`. -/
def returningNode : Node :=
  ⟨.object [("ast_type", .string "Return"),
    ("value", .object [("ast_type", .string "NameConstant"), ("value", .bool true)])]⟩

/-- The tree of `pass`. -/
def passNode : Node := ⟨.object [("ast_type", .string "Pass")]⟩

/-- A definition of one and then the other. -/
def earlyReturn : Node := ⟨.object [("body", .array [returningNode.json, passNode.json])]⟩

theorem returnValues_returningNode (structs : List String) :
    returnValues structs returningNode = [.literal (.bool true) .bool] := by
  show [Expr.ofNode structs _] = _
  rw [Expr.ofNode]
  rfl

theorem ofNode_earlyReturn (types : UserTypes) :
    Definition.ofNode types (fun _ => none) earlyReturn =
      ⟨.ok [], [.located none (.ret [.literal (.bool true) .bool]), .located none .nop]⟩ := by
  have hbody : earlyReturn.nodes "body" = [returningNode, passNode] := rfl
  rw [Definition.ofNode, hbody, List.map_cons, Stmt.ofNode, returnValues_returningNode,
    List.map_singleton, Stmt.ofNode]
  rfl

end Vyper

/-- What is lowered: one node returns a constant, the other is not reached. -/
def Body.earlyReturn (ty : Ty) : Body where
  arena := ⟨#[⟨⟨.constant (.bool true), ty, none⟩, none, none, 0⟩], 0⟩
  nodes := #[⟨⟨0⟩, [], [], .ret [⟨0⟩], none⟩, ⟨⟨1⟩, [], [.nop], .ret [], none⟩]
  entry := some ⟨0⟩
  parameters := []
  returns := []
  isSsa := false

theorem Solidity.lower_earlyReturn (l : Loader) (context : Option ContractId) (file : String)
    (counters : Counters) :
    l.lowerDefinition context file earlyReturn counters =
      (.ok (some (.earlyReturn .unknown)), counters) := by
  rw [Loader.lowerDefinition, ofNode?_earlyReturn]
  cbv

theorem Vyper.lower_earlyReturn (layout : Layout) (types : UserTypes) (counters : Counters) :
    Build.runBody ((Definition.ofNode types (fun _ => none) earlyReturn).lower layout) counters =
      (.ok (.earlyReturn .bool), counters) := by
  rw [ofNode_earlyReturn]
  cbv

theorem earlyReturn_wellFormed :
    ((Solidity.Loader.new "" [] .stopOnFirst).lowerDefinition none "" Solidity.earlyReturn .start =
        (.ok (some (.earlyReturn .unknown)), .start) ∧ (Body.earlyReturn .unknown).WellFormed) ∧
    (Build.runBody ((Vyper.Definition.ofNode ⟨[], []⟩ (fun _ => none) Vyper.earlyReturn).lower
        (.new "")) .start = (.ok (.earlyReturn .bool), .start) ∧
      (Body.earlyReturn .bool).WellFormed) := by
  have hsolidity := Solidity.lower_earlyReturn (.new "" [] .stopOnFirst) none "" .start
  have hvyper := Vyper.lower_earlyReturn (.new "") ⟨[], []⟩ .start
  exact ⟨⟨hsolidity, lowered_wellFormed.1 _ _ _ _ _ _ _ hsolidity⟩,
    ⟨hvyper, lowered_wellFormed.2 _ _ _ _ _ _ _ hvyper⟩⟩

end ContractCalls
