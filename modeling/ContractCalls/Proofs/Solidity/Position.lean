/-
# Evaluated positions of a Solidity tree

Which nodes of a definition are evaluated is said here by the fields of the
grammar, for either dialect.  An expression evaluates the expressions in its
fields; left out are types, the callees of conversions and of constructions of
structures, receivers that are types or predeclared names such as `msg`, and
the options of a function that is not called.  A statement evaluates the
expressions in its fields and the statements in its blocks, whether control
ever gets there or not.  Positions are listed, so that one that is evaluated
twice is there twice.

A call in such a position counts if it is neither a conversion, a construction
or a creation nor the form of an expression.
-/
import ContractCalls.Proofs.Solidity.Calls
import ContractCalls.Proofs.Solidity.Node
import ContractCalls.Solidity.Decode
import Mathlib

namespace ContractCalls.Solidity

namespace Node

/-! ## Callees and their options -/

/-- A field that holds one node. -/
def one (n : Node) (key : String) : List Node := (n.field? key).toList

/-- The options around a callee, outermost first. -/
def optionsAround (n : Node) : List Node :=
  if n.is "FunctionCallOptions" then
    n.fields "options" ++ (n.mapField "expression" fun c _ => c.optionsAround).getD []
  else []
termination_by sizeOf n.json

/-- A callee without the options around it. -/
def bare? (n : Node) : Option Node :=
  if n.is "FunctionCallOptions" then (n.mapField "expression" fun c _ => c.bare?).join else some n
termination_by sizeOf n.json

/-- What a call calls, without options. -/
def called? (n : Node) : Option Node := (n.field? "expression").bind bare?

/-- The options of a call. -/
def callOptions (n : Node) : List Node := ((n.field? "expression").map optionsAround).getD []

/-! ## Positions -/

/-- The node is no value: a type, or a predeclared name. -/
def isNamespace (n : Node) : Bool :=
  n.is "ElementaryTypeNameExpression" || (n.ty.isTypeOf ||
    n.is "Identifier" && n.identifierName?.getD "" != "this" &&
      Expr.isPredeclared n.referencedDeclaration?)

/-- The node is a member that names an event or an error. -/
def isSignal (index : Index) (n : Node) : Bool :=
  n.is "MemberAccess" && index.isSignal n.referencedDeclaration?

/-- The callee of a call, if it is evaluated: that of a conversion or construction is a type, and
callees that are `hidden` are left out. -/
def calleePart (hidden : Node → Bool) (n : Node) : List Node :=
  match CallForm.ofNode n with
  | .ordinary => n.called?.toList.filter fun c => !hidden c
  | .conversion | .construction => []

/-- The nodes that an expression evaluates right below it, in order. -/
def operands (hidden : Node → Bool) (n : Node) : List Node :=
  match n.nodeType with
  | "MemberAccess" => (n.one "expression").filter fun c => !c.isNamespace
  | "IndexAccess" =>
      match n.field? "indexExpression" with
      | some key => n.one "baseExpression" ++ [key]
      | none => []
  | "IndexRangeAccess" =>
      n.one "baseExpression" ++ (n.one "startExpression" ++ n.one "endExpression")
  | "BinaryOperation" => n.one "leftExpression" ++ n.one "rightExpression"
  | "UnaryOperation" => n.one "subExpression"
  | "Assignment" => n.one "rightHandSide" ++ n.one "leftHandSide"
  | "Conditional" => n.one "condition" ++ (n.one "trueExpression" ++ n.one "falseExpression")
  | "TupleExpression" => n.fields "components"
  | "FunctionCall" => n.callOptions ++ (n.fields "arguments" ++ n.calleePart hidden)
  | "FunctionCallOptions" => n.one "expression"
  | _ => []

theorem isPart_of_one {n p : Node} {key : String} (h : p ∈ n.one key) : IsPart p n :=
  isPart_of_field? (Option.mem_toList.1 h)

theorem isPart_of_fields {n p : Node} {key : String} (h : p ∈ n.fields key) : IsPart p n := by
  obtain ⟨c, hc, hp⟩ := List.mem_filterMap.1 h
  exact isPart_of_optionalFields ((show c = some p from hp) ▸ hc)

theorem isPart_of_optionsAround {n p : Node} (h : p ∈ n.optionsAround) : IsPart p n := by
  induction n using partInduction with
  | step n ih =>
      rw [optionsAround] at h
      split at h
      · rcases List.mem_append.1 h with h | h
        · exact isPart_of_fields h
        · rw [mapField_eq] at h
          cases hc : n.field? "expression" with
          | none => simp [hc] at h
          | some c =>
              have hpart := isPart_of_field? hc
              simp only [hc, Option.map_some, Option.getD_some] at h
              exact (ih c hpart h).trans hpart
      · cases h

theorem sizeOf_bare? {n c : Node} (h : n.bare? = some c) : sizeOf c.json ≤ sizeOf n.json := by
  induction n using partInduction with
  | step n ih =>
      rw [bare?] at h
      split at h
      · rw [mapField_eq] at h
        cases hp : n.field? "expression" with
        | none => simp [hp] at h
        | some p =>
            have hpart := isPart_of_field? hp
            simp only [hp, Option.map_some, Option.join_some] at h
            exact (ih p hpart h).trans hpart.le
      · cases h
        exact le_rfl

theorem isPart_of_called? {n c : Node} (h : n.called? = some c) : IsPart c n := by
  obtain ⟨p, hp, hc⟩ := Option.bind_eq_some_iff.1 h
  exact (sizeOf_bare? hc).trans_lt (isPart_of_field? hp)

theorem isPart_of_calleePart {hidden : Node → Bool} {n p : Node} (h : p ∈ n.calleePart hidden) :
    IsPart p n := by
  unfold calleePart at h
  split at h
  · exact isPart_of_called? (Option.mem_toList.1 (List.mem_filter.1 h).1)
  · cases h
  · cases h

theorem isPart_of_callOptions {n p : Node} (h : p ∈ n.callOptions) : IsPart p n := by
  unfold callOptions at h
  cases hc : n.field? "expression" with
  | none => simp [hc] at h
  | some c =>
      rw [hc] at h
      exact (isPart_of_optionsAround h).trans (isPart_of_field? hc)

/-- What a node evaluates is smaller. -/
theorem isPart_of_operands {hidden : Node → Bool} {n p : Node} (h : p ∈ n.operands hidden) :
    IsPart p n := by
  have hone (key : String) : p ∈ n.one key → IsPart p n := isPart_of_one
  have hmany (key : String) : p ∈ n.fields key → IsPart p n := isPart_of_fields
  have hoptions : p ∈ n.callOptions → IsPart p n := isPart_of_callOptions
  have hcallee : p ∈ n.calleePart hidden → IsPart p n := isPart_of_calleePart
  have hkey : n.field? "indexExpression" = some p → IsPart p n := isPart_of_field?
  unfold operands at h
  split at h <;> grind

/-- The nodes that are evaluated with an expression, operands first. -/
def evaluated (hidden : Node → Bool) (n : Node) : List Node :=
  (n.operands hidden).attach.flatMap (fun p => p.1.evaluated hidden) ++ [n]
termination_by sizeOf n.json
decreasing_by exact isPart_of_operands p.2

theorem evaluated_eq (hidden : Node → Bool) (n : Node) :
    n.evaluated hidden = (n.operands hidden).flatMap (evaluated hidden) ++ [n] := by
  rw [evaluated, List.flatMap_subtype (g := evaluated hidden) fun _ _ => rfl, List.unattach_attach]

/-- The expressions of a statement. -/
def expressions (n : Node) : List Node :=
  match n.nodeType with
  | "ExpressionStatement" | "Return" => n.one "expression"
  | "VariableDeclarationStatement" => n.one "initialValue"
  | "IfStatement" | "WhileStatement" | "DoWhileStatement" | "ForStatement" => n.one "condition"
  | "EmitStatement" => n.one "eventCall"
  | "RevertStatement" => n.one "errorCall"
  | "TryStatement" => n.one "externalCall"
  | _ => []

/-- The statements in the blocks of a statement. -/
def blocks (n : Node) : List Node :=
  match n.nodeType with
  | "Block" | "UncheckedBlock" => n.fields "statements"
  | "IfStatement" => n.one "trueBody" ++ n.one "falseBody"
  | "WhileStatement" | "DoWhileStatement" => n.one "body"
  | "ForStatement" =>
      n.one "initializationExpression" ++ (n.one "body" ++ n.one "loopExpression")
  | "TryStatement" => (n.fields "clauses").flatMap (·.one "block")
  | _ => []

theorem isPart_of_blocks {n p : Node} (h : p ∈ n.blocks) : IsPart p n := by
  have hone (key : String) : p ∈ n.one key → IsPart p n := isPart_of_one
  have hmany (key : String) : p ∈ n.fields key → IsPart p n := isPart_of_fields
  have hclauses : p ∈ (n.fields "clauses").flatMap (·.one "block") → IsPart p n := by
    intro h
    obtain ⟨c, hc, hp⟩ := List.mem_flatMap.1 h
    exact (isPart_of_one hp).trans (isPart_of_fields hc)
  unfold blocks at h
  split at h <;> grind

/-- The expressions that are evaluated in a statement. -/
def executed (hidden : Node → Bool) (n : Node) : List Node :=
  n.expressions.flatMap (evaluated hidden) ++
    n.blocks.attach.flatMap fun s => s.1.executed hidden
termination_by sizeOf n.json
decreasing_by exact isPart_of_blocks s.2

theorem executed_eq (hidden : Node → Bool) (n : Node) :
    n.executed hidden =
      n.expressions.flatMap (evaluated hidden) ++ n.blocks.flatMap (executed hidden) := by
  rw [executed, List.flatMap_subtype (g := executed hidden) fun _ _ => rfl, List.unattach_attach]

/-! ## Calls that count -/

/-- Whom a call calls. -/
def classification? (env : Env) (n : Node) : Option Callee :=
  n.called?.map fun c => (env.resolve (.ofNode c)).1

/-- The node is a call of code: no conversion, construction, creation or form of an expression. -/
def callsCode (env : Env) (n : Node) : Bool :=
  n.is "FunctionCall" && CallForm.ofNode n == .ordinary && n.called?.any fun c =>
    !c.is "NewExpression" && !(env.resolve (.ofNode c)).1.isIntrinsic

/-- The targets of the calls of code among nodes. -/
def targets (env : Env) (ns : List Node) : List Callee :=
  (ns.filter (callsCode env)).filterMap (classification? env)

theorem targets_append (env : Env) (ms ns : List Node) :
    targets env (ms ++ ns) = targets env ms ++ targets env ns := by
  simp only [targets, List.filter_append, List.filterMap_append]

theorem targets_flatMap (env : Env) (f : Node → List Node) (ns : List Node) :
    targets env (ns.flatMap f) = ns.flatMap fun n => targets env (f n) := by
  induction ns with
  | nil => rfl
  | cons n rest ih => rw [List.flatMap_cons, List.flatMap_cons, targets_append, ih]

theorem length_targets (env : Env) (ns : List Node) :
    (targets env ns).length = (ns.filter (callsCode env)).length := by
  refine List.filterMap_length_eq_length.2 fun n hn => ?_
  have hcalls : callsCode env n = true := (List.mem_filter.1 hn).2
  rw [callsCode, Bool.and_eq_true] at hcalls
  obtain ⟨c, hc, -⟩ := (Option.any_eq_true _ _).1 hcalls.2
  rw [classification?, hc]
  rfl

end Node

end ContractCalls.Solidity
