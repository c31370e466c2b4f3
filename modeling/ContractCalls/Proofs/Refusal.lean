/-
# The lowerings refuse fixed places only

Whatever tree either front end is given, with whatever is known when it is
lowered: if the lowering fails, the failure can be recorded and the analysis go
on, or the code writes to a fixed place and the failure is the refusal of the
constant or builtin that the place stands for.  So of the violations that end
an analysis only this one can come from a tree: operands that are read are
always there, unary operators are known, and references never form a cycle.

Fixed places do occur in trees that compilers accept.  A state variable that is
named through the contract it is inherited from is a member of a type, which
the lowering of Solidity takes for a builtin; the trees at the end have one.
-/
import ContractCalls.Proofs.Solidity.Refusal
import ContractCalls.Proofs.Vyper.Refusal
import ContractCalls.Solidity.Loader
import Mathlib

namespace ContractCalls

theorem Solidity.refuses_of_lowerDefinition {l : Loader} {context : Option ContractId}
    {file : String} {n : Node} {counters after : Counters} {e : FrontEndError}
    (h : l.lowerDefinition context file n counters = (.error e, after)) :
    Refuses (∃ definition place,
      Definition.ofNode? (·.span? l.unit.sourceList file) n = some definition ∧
        definition.body.Writes place ∧ place.isFixed ⟨l.unit, l.index, context⟩ = true) e := by
  unfold Loader.lowerDefinition at h
  split at h
  · cases h
  · next definition hdefinition =>
      cases hrun : Build.runBody (definition.lower ⟨l.unit, l.index, context⟩) counters with
      | mk result rest =>
          rw [hrun] at h
          cases result with
          | ok lowered => cases h
          | error e' =>
              cases h
              refine Build.refuses_of_runBody (Definition.behaves_lower _ definition ?_) hrun
              intro part hpart
              obtain ⟨body, -, rfl⟩ := Option.map_eq_some_iff.mp hdefinition
              have hread : part.Read := (Stmt.Read.node body).evaluates hpart
              refine ⟨fun place hplace hfixed => ?_, fun htoken => (htoken ▸ hread).token⟩
              exact ⟨_, place, hdefinition, ⟨part, hpart, hplace⟩, hfixed⟩

theorem Vyper.refuses_of_runBody {layout : Layout} {types : UserTypes}
    {locate : Node → Option Span} {n : Node} {counters after : Counters} {e : FrontEndError}
    (h : Build.runBody ((Definition.ofNode types locate n).lower layout) counters =
      (.error e, after)) :
    Refuses (∃ s ∈ (Definition.ofNode types locate n).body, ∃ place,
      s.Writes place ∧ place.isFixedPlace layout = true) e := by
  refine Build.refuses_of_runBody (Definition.behaves_lower layout _ ?_ ?_) h
  · exact fun e he => Binding.isFatal_of_parameters he
  · intro s hs t ht
    obtain ⟨c, -, rfl⟩ := List.mem_map.mp hs
    refine ⟨fun place hplace hfixed => ?_, ((Stmt.Read.node c).within ht).below.2⟩
    exact ⟨_, hs, place, ⟨t, ht, hplace⟩, hfixed⟩

/-- A lowering that fails, fails with an error that can be recorded, or it refuses to write the
constant or builtin that a fixed place of the code stands for. -/
theorem lowering_refuses_fixed_places (l : Solidity.Loader) (context : Option ContractId)
    (file : String) (n : Solidity.Node) (layout : Vyper.Layout) (types : Vyper.UserTypes)
    (locate : Vyper.Node → Option Span) (m : Vyper.Node) (counters : Counters) :
    (∀ e after, l.lowerDefinition context file n counters = (.error e, after) →
      Refuses (∃ definition place,
        Solidity.Definition.ofNode? (·.span? l.unit.sourceList file) n = some definition ∧
          definition.body.Writes place ∧ place.isFixed ⟨l.unit, l.index, context⟩ = true) e) ∧
    (∀ e after, Build.runBody ((Vyper.Definition.ofNode types locate m).lower layout) counters =
        (.error e, after) →
      Refuses (∃ s ∈ (Vyper.Definition.ofNode types locate m).body, ∃ place,
        s.Writes place ∧ place.isFixedPlace layout = true) e) := by
  constructor
  · intro e after h
    exact Solidity.refuses_of_lowerDefinition h
  · intro e after h
    exact Vyper.refuses_of_runBody h

/-! ## A state variable that is taken for a builtin -/

namespace Solidity

/-- The tree of `A`, where `A` is a contract. -/
def baseNode : Json :=
  .object [("name", .string "A"), ("nodeType", .string "Identifier"),
    ("referencedDeclaration", .ofInt 10),
    ("typeDescriptions", .object [("typeString", .string "type(contract A)")])]

/-- The tree of `A.x`. -/
def inheritedNode : Json :=
  .object [("expression", baseNode), ("memberName", .string "x"),
    ("nodeType", .string "MemberAccess"), ("referencedDeclaration", .ofInt 12)]

/-- The tree of `true`. -/
def trueNode : Json :=
  .object [("kind", .string "bool"), ("nodeType", .string "Literal"), ("value", .string "true")]

/-- The tree of `A.x = true`. -/
def inheritedAssignment : Json :=
  .object [("leftHandSide", inheritedNode), ("nodeType", .string "Assignment"),
    ("operator", .string "="), ("rightHandSide", trueNode)]

/-- The tree of `A.x = true;`. -/
def inheritedStatement : Json :=
  .object [("expression", inheritedAssignment), ("nodeType", .string "ExpressionStatement")]

/-- The tree of `{ A.x = true; }`. -/
def inheritedBlock : Json :=
  .object [("nodeType", .string "Block"), ("statements", .array [inheritedStatement])]

/-- A definition with that block as its body. -/
def inheritedWrite : Node := ⟨.compact, .object [("body", inheritedBlock)]⟩

/-- `A.x` as an expression. -/
def inheritedPlace : Expr :=
  .member none (.identifier (some "type(contract A)") "A" (some 10)) "x" (some 12)

theorem placeOfNode_inheritedNode :
    Expr.placeOfNode ⟨.compact, inheritedNode⟩ = inheritedPlace := by
  have hbase : Node.field? ⟨.compact, inheritedNode⟩ "expression" = some ⟨.compact, baseNode⟩ := rfl
  have hparentheses : Node.parenthesized? ⟨.compact, inheritedNode⟩ = none := rfl
  rw [Expr.placeOfNode_eq, hparentheses, Option.map_none, Option.getD_none, Expr.ofNode_member rfl,
    hbase, Option.map_some, Option.getD_some, Expr.receiverOfNode, if_neg (by decide),
    Expr.ofNode_identifier rfl]
  rfl

theorem ofNode_inheritedAssignment :
    Expr.ofNode ⟨.compact, inheritedAssignment⟩ =
      .assign none none none inheritedPlace (.literal none (.bool true)) := by
  have hsource : Expr.required ⟨.compact, inheritedAssignment⟩ "rightHandSide" =
      .literal none (.bool true) := by
    show Expr.ofNode ⟨.compact, trueNode⟩ = _
    rw [Expr.ofNode]
    rfl
  rw [Expr.ofNode_assignment rfl, hsource]
  show Expr.assign _ _ _ (Expr.placeOfNode ⟨.compact, inheritedNode⟩) _ = _
  rw [placeOfNode_inheritedNode]
  rfl

theorem ofNode?_inheritedWrite (files : List String) (file : String) :
    Definition.ofNode? (·.span? files file) inheritedWrite =
      some ⟨[], [], .located none (.block [.located none (.expression
        (.assign none none none inheritedPlace (.literal none (.bool true))))])⟩ := by
  have hbody : inheritedWrite.field? "body" = some ⟨.compact, inheritedBlock⟩ := rfl
  have hstatements : Node.fields ⟨.compact, inheritedBlock⟩ "statements" =
      [⟨.compact, inheritedStatement⟩] := rfl
  have hpart : Stmt.ofPart ⟨.compact, inheritedStatement⟩ "expression" =
      .expression (Expr.ofNode ⟨.compact, inheritedAssignment⟩) := rfl
  rw [Definition.ofNode?, hbody, Option.map_some, Stmt.ofNode]
  simp only [Node.mapFields_eq, hstatements]
  rw [List.map_singleton, Stmt.ofNode, hpart, ofNode_inheritedAssignment]
  rfl

theorem isNamespace_base :
    (Expr.identifier (some "type(contract A)") "A" (some 10)).isNamespace = true := by
  decide +kernel

theorem lower_inheritedWrite (l : Loader) (context : Option ContractId) (file : String)
    (counters : Counters) :
    l.lowerDefinition context file inheritedWrite counters =
      (.error (.model (.invalidLvalue "A.x" "builtin")), counters) := by
  rw [Loader.lowerDefinition, ofNode?_inheritedWrite]
  have hplace : ∀ env, value env inheritedPlace = some <$> Build.builtin "A.x" .unknown := by
    intro env
    rw [inheritedPlace, value, isNamespace_base]
    rfl
  simp only [Definition.lower, declareAll, statement, statements, value, hplace]
  cbv

end Solidity

namespace Vyper

/-- The tree of `self.unknown`. -/
def unknownNode : Node :=
  ⟨.object [("ast_type", .string "Attribute"), ("attr", .string "unknown"),
    ("value", .object [("ast_type", .string "Name"), ("id", .string "self")])]⟩

/-- The tree of `self.unknown = True`. -/
def unknownAssignment : Node :=
  ⟨.object [("ast_type", .string "Assign"), ("target", unknownNode.json),
    ("value", .object [("ast_type", .string "NameConstant"), ("value", .bool true)])]⟩

/-- A definition of that statement. -/
def unknownWrite : Node := ⟨.object [("body", .array [unknownAssignment.json])]⟩

theorem ofNode_unknownNode (structs : List String) :
    Expr.ofNode structs unknownNode = .member (.name "self") "unknown" := by
  have hbase : unknownNode.child? "value" =
      some ⟨.object [("ast_type", .string "Name"), ("id", .string "self")]⟩ := rfl
  rw [Expr.ofNode]
  simp only [Node.mapChild_eq, hbase, Option.map_some, Option.getD_some]
  rw [Expr.ofNode]
  rfl

theorem ofNode_unknownWrite (types : UserTypes) :
    Definition.ofNode types (fun _ => none) unknownWrite =
      ⟨.ok [], [.located none (.assign (.member (.name "self") "unknown")
        (.literal (.bool true) .bool))]⟩ := by
  have hbody : unknownWrite.nodes "body" = [unknownAssignment] := rfl
  have hassignment : Stmt.assignment types.structs unknownAssignment =
      .assign (Expr.ofNode types.structs unknownNode)
        (Expr.ofNode types.structs ⟨.object [("ast_type", .string "NameConstant"),
          ("value", .bool true)]⟩) := rfl
  have hvalue : Expr.ofNode types.structs ⟨.object [("ast_type", .string "NameConstant"),
      ("value", .bool true)]⟩ = .literal (.bool true) .bool := by
    rw [Expr.ofNode]
    rfl
  rw [Definition.ofNode, hbody, List.map_singleton, Stmt.ofNode, hassignment, ofNode_unknownNode,
    hvalue]
  rfl

theorem lower_unknownWrite (types : UserTypes) (counters : Counters) :
    Build.runBody ((Definition.ofNode types (fun _ => none) unknownWrite).lower (.new ""))
        counters =
      (.error (.model (.invalidLvalue "self.unknown" "builtin")), counters) := by
  rw [ofNode_unknownWrite]
  cbv

end Vyper

/-- Both are refused for a fixed place. -/
theorem inherited_write_refused :
    Refuses (∃ definition place,
      Solidity.Definition.ofNode? (·.span? [] "") Solidity.inheritedWrite = some definition ∧
        definition.body.Writes place ∧ place.isFixed ⟨.new "" .solidity, .empty, none⟩ = true)
      (.model (.invalidLvalue "A.x" "builtin")) ∧
    Refuses (∃ s ∈ (Vyper.Definition.ofNode ⟨[], []⟩ (fun _ => none) Vyper.unknownWrite).body,
      ∃ place, s.Writes place ∧ place.isFixedPlace (.new "") = true)
      (.model (.invalidLvalue "self.unknown" "builtin")) :=
  have h := lowering_refuses_fixed_places (.new "" [] .collectAndContinue) none ""
    Solidity.inheritedWrite (.new "") ⟨[], []⟩ (fun _ => none) Vyper.unknownWrite .start
  ⟨h.1 _ _ (Solidity.lower_inheritedWrite _ none "" .start),
    h.2 _ _ (Vyper.lower_unknownWrite ⟨[], []⟩ .start)⟩

/-- Both end the analysis, though the failures of all others are to be collected. -/
theorem inherited_write_violates :
    ((Solidity.Loader.new "" [] .collectAndContinue).lowerDefinition none ""
        Solidity.inheritedWrite .start =
      (.error (.model (.invalidLvalue "A.x" "builtin")), .start) ∧
        ModelError.isContractViolation (.invalidLvalue "A.x" "builtin") = true ∧
        FailurePolicy.collectAndContinue.tolerates
          (.model (.invalidLvalue "A.x" "builtin")) = false) ∧
    (Build.runBody ((Vyper.Definition.ofNode ⟨[], []⟩ (fun _ => none) Vyper.unknownWrite).lower
        (.new "")) .start =
      (.error (.model (.invalidLvalue "self.unknown" "builtin")), .start) ∧
        ModelError.isContractViolation (.invalidLvalue "self.unknown" "builtin") = true) :=
  ⟨⟨Solidity.lower_inheritedWrite _ none "" .start, rfl, rfl⟩,
    Vyper.lower_unknownWrite ⟨[], []⟩ .start, rfl⟩

end ContractCalls
