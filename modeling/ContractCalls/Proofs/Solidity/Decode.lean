/-
# What nodes read as

Reading recurses over the parts of a node and carries along that they are
smaller.  Here are the equations without that, one for each kind of node that
proofs look into.
-/
import ContractCalls.Proofs.Solidity.Node
import ContractCalls.Solidity.Decode

namespace ContractCalls.Solidity

namespace Expr

theorem required_eq (n : Node) (key : String) :
    required n key = ((n.field? key).map ofNode).getD (.absent key n.nodeType) := by
  unfold required
  cases n.field? key <;> rfl

/-- What an assignment reads as. -/
theorem ofNode_assignment {n : Node} (h : n.nodeType = "Assignment") :
    ofNode n =
      match n.field? "leftHandSide" with
      | some c =>
          if c.is "TupleExpression" && (c.optionalFields "components").length > 1 then
            .assignAll n.typeText? ((c.optionalFields "components").map (Option.map placeOfNode))
              (required n "rightHandSide")
          else
            .assign n.typeText? (compoundOperator? ((n.text? "operator").getD "=")) c.typeText?
              (placeOfNode c) (required n "rightHandSide")
      | none =>
          .assign n.typeText? (compoundOperator? ((n.text? "operator").getD "=")) none
            (.absent "leftHandSide" n.nodeType) (required n "rightHandSide") := by
  rw [ofNode]
  simp only [h, Node.mapField_eq, Node.mapOptionalFields_eq, required_eq]
  cases n.field? "leftHandSide" <;> rfl

/-- The expression of a node is there and keeps the kind and the type of the node. -/
theorem outline_ofNode (n : Node) :
    (ofNode n).isAbsent = false ∧ (ofNode n).nodeType = n.nodeType ∧
      (ofNode n).typeText = n.typeText? := by
  by_cases h : n.nodeType = "Assignment"
  · rw [ofNode_assignment h, h]
    split
    · split <;> exact ⟨rfl, rfl, rfl⟩
    · exact ⟨rfl, rfl, rfl⟩
  · rw [ofNode]
    split
    case h_4 h => split <;> exact ⟨rfl, h.symm, rfl⟩
    case h_8 hassign => exact absurd hassign h
    case h_15 => exact ⟨rfl, rfl, rfl⟩
    all_goals
      rename_i h
      exact ⟨rfl, h.symm, rfl⟩

/-- An expression has the kind of its node. -/
theorem nodeType_of_ofNode {n : Node} {e : Expr} (h : ofNode n = e) : n.nodeType = e.nodeType :=
  h ▸ (outline_ofNode n).2.1.symm

theorem ofNode_identifier {n : Node} (h : n.nodeType = "Identifier") :
    ofNode n = .identifier n.typeText? (n.identifierName?.getD "") n.referencedDeclaration? := by
  rw [ofNode]
  simp only [h]

theorem ofNode_elementary {n : Node} (h : n.nodeType = "ElementaryTypeNameExpression") :
    ofNode n = .typeName n.typeText? none := by
  rw [ofNode]
  simp only [h]

theorem ofNode_creation {n : Node} (h : n.nodeType = "NewExpression") :
    ofNode n = .creation n.typeText? ((n.field? "typeName").map (·.ty)) := by
  rw [ofNode]
  simp only [h]

/-- What stands in front of a member: the name of an elementary type counts there. -/
def receiverOfNode (n : Node) : Expr :=
  if n.is "ElementaryTypeNameExpression" then .typeName n.typeText? (typeExpressionName? n)
  else ofNode n

theorem ofNode_member {n : Node} (h : n.nodeType = "MemberAccess") :
    ofNode n = .member n.typeText?
      (((n.field? "expression").map receiverOfNode).getD (.absent "expression" n.nodeType))
      (n.memberName?.getD "") n.referencedDeclaration? := by
  rw [ofNode]
  simp only [h, Node.mapField_eq]
  rfl

/-- A place is what the parentheses around it hold. -/
theorem placeOfNode_eq (n : Node) :
    placeOfNode n = (n.parenthesized?.map placeOfNode).getD (ofNode n) := by
  rw [placeOfNode]
  split
  · next inner h => simp only [h, Option.map_some, Option.getD_some]
  · next h => simp only [h, Option.map_none, Option.getD_none]

end Expr

end ContractCalls.Solidity
