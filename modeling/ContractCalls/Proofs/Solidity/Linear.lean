/-
# Expressions of Solidity are lowered without a look at the nodes

Every function of the lowering below statements is a linear step: which
operations an expression or a declaration emits, and whether it ends the
execution, depends on the operands alone.  The lemmas stand in the order of the
functions; expressions go by recursion on the syntax.
-/
import ContractCalls.Proofs.Body.Linear
import ContractCalls.Solidity.Lowering

namespace ContractCalls.Solidity

theorem Expr.linear_ensure (e : Expr) : Linear e.ensure := by
  unfold Expr.ensure
  split
  · exact .throw _
  · exact .pure _

theorem Expr.linear_result (e : Expr) (r : Option OperandId) : Linear (e.result r) := by
  cases r with
  | none => exact .throw _
  | some id => exact .pure id

/-- An expression that has to have a result, and what is done with it. -/
theorem Expr.linear_bind {β : Type} {x : Build (Option OperandId)} {f : OperandId → Build β}
    (e : Expr) (hx : Linear x) (hf : ∀ id, Linear (f id)) :
    Linear (x >>= fun r => e.result r >>= f) :=
  hx.bind fun r => (e.linear_result r).bind hf

/-! ## Operands of expressions -/

theorem Env.linear_identifier (env : Env) (text : TypeText) (name : String)
    (declaration : Option Int) : Linear (env.identifier text name declaration) := by
  refine .get (fun _ _ => rfl) fun d => ?_
  split
  · exact .pure _
  · split
    · exact .state _ _
    · exact .state _ _
    · exact .builtin _ _
    · split
      · exact .builtin _ _
      · split
        · exact .pure _
        · exact .throw _

theorem linear_stepBy (operator : String) (givesOld : Bool) (ty : Ty) (target : OperandId) :
    Linear (stepBy operator givesOld ty target) := by
  have hrest : ∀ old : Option OperandId, Linear (do
      let one ← Build.constant (.uint 1) ty
      let updated ← Build.intrinsic (.binary operator) [target, one] ty
      Build.assign target updated ty
      return old.getD updated) := by
    intro old
    refine (Linear.constant _ ty).bind fun one => ?_
    refine (Linear.intrinsic _ [target, one] ty).bind fun updated => ?_
    exact (Linear.assign target updated ty).seq (.pure _)
  unfold stepBy
  cases givesOld with
  | true =>
      refine (Linear.temporary ty).bind fun copy => ?_
      exact (Linear.assign copy target ty).seq (hrest (some copy))
  | false => exact hrest none

theorem linear_applyUnary (form : UnaryForm) (ty : Ty) (operand : OperandId) :
    Linear (applyUnary form ty operand) := by
  cases form with
  | direct token => exact .unary token operand ty
  | negate => exact (Linear.constant _ ty).bind fun zero => .intrinsic _ _ _
  | step operator givesOld => exact linear_stepBy operator givesOld ty operand
  | delete => exact (Linear.delete operand).seq (.pure _)
  | plain => exact .pure operand

theorem linear_collect (isArray : Bool) (ty : Ty) (values : List OperandId) :
    Linear (collect isArray ty values) := by
  cases isArray with
  | true => exact .giving (.temporary ty) fun _ => .intrinsicInto _ _ _
  | false => exact .giving (.tuple ty) fun _ => .intrinsicInto _ _ _

/-! ## Calls -/

theorem linear_receive (use : ReceiverUse) (receiver : Expr) {value : Build (Option OperandId)}
    (args : CallArgs) (hvalue : Linear value) : Linear (receive use receiver value args) := by
  refine receiver.linear_ensure.seq ?_
  cases use with
  | unused => exact .pure _
  | evaluated => exact hvalue.seq (.pure _)
  | attached => exact receiver.linear_bind hvalue fun _ => .pure _

theorem linear_emitCall (callee : Callee) (args : CallArgs) (ty : Ty) :
    Linear (emitCall callee args ty) := by
  refine (Linear.resultFor ty).bind fun result => (Linear.call callee args result).seq ?_
  exact .revertIf (isRevert callee) (.pure result)

theorem linear_emitCreation (created ty : Ty) (arguments : List OperandId) :
    Linear (emitCreation created ty arguments) := by
  unfold emitCreation
  split
  · exact .intrinsic _ _ _
  · exact .newElementary _ _

/-! ## Expressions -/

mutual

theorem linear_value (env : Env) : (e : Expr) → Linear (value env e)
  | .absent field nodeType => by
      rw [value]
      exact .throw _
  | .literal text constant => by
      rw [value]
      exact (Linear.constant constant _).map
  | .identifier text name declaration => by
      rw [value]
      exact (env.linear_identifier text name declaration).map
  | .member text base name declaration => by
      rw [value]
      refine base.linear_ensure.seq ?_
      split
      · exact (Linear.builtin _ _).map
      · exact base.linear_bind (linear_value env base) fun object => (Linear.refer _ _ _ _).map
  | .index text base key => by
      rw [value]
      refine base.linear_bind (linear_value env base) fun object => ?_
      exact key.linear_bind (linear_value env key) fun position => (Linear.refer _ _ _ _).map
  | .arrayType text base => by
      rw [value]
      exact (Linear.builtin _ _).map
  | .typeName text name => by
      rw [value]
      exact (Linear.builtin _ _).map
  | .creation text created => by
      rw [value]
      exact (Linear.builtin _ _).map
  | .range text base bounds => by
      rw [value]
      refine base.linear_bind (linear_value env base) fun object => ?_
      exact (linear_values env bounds).bind fun limits => (Linear.intrinsic _ _ _).map
  | .binary text operator left right => by
      rw [value]
      refine left.linear_ensure.seq (right.linear_ensure.seq ?_)
      refine left.linear_bind (linear_value env left) fun first => ?_
      exact right.linear_bind (linear_value env right) fun second => (Linear.intrinsic _ _ _).map
  | .unary text form operand => by
      rw [value]
      refine operand.linear_bind (linear_value env operand) fun id => ?_
      exact (linear_applyUnary form _ id).map
  | .assign text operator targetText target source => by
      rw [value]
      refine target.linear_ensure.seq ?_
      refine source.linear_bind (linear_value env source) fun computed => ?_
      refine target.linear_bind (linear_value env target) fun place => ?_
      have hstore : ∀ stored : OperandId, Linear (do
          Build.assign place stored (Ty.ofText? targetText)
          return some place) := fun stored => (Linear.assign place stored _).seq (.pure _)
      cases operator with
      | none => exact hstore computed
      | some operator => exact (Linear.intrinsic _ _ _).bind hstore
  | .assignAll text targets source => by
      rw [value]
      refine source.linear_bind (linear_value env source) fun computed => ?_
      exact (linear_assignComponents env computed 0 targets).seq (.pure _)
  | .conditional text condition yes no => by
      rw [value]
      refine condition.linear_bind (linear_value env condition) fun test => ?_
      refine yes.linear_bind (linear_value env yes) fun first => ?_
      exact no.linear_bind (linear_value env no) fun second => (Linear.intrinsic _ _ _).map
  | .tuple text isArray components => by
      -- parentheses: the only component of a tuple stands for the tuple
      by_cases h : ∃ inner, isArray = false ∧ components = [some inner]
      · obtain ⟨inner, hflag, hcomponents⟩ := h
        have hinner := linear_component env components inner (by simp [hcomponents])
        subst hflag hcomponents
        rw [value]
        exact hinner
      · rw [value]
        · refine (linear_present env components).bind fun operands => ?_
          exact (linear_collect isArray _ operands).map
        · intro inner hflag hcomponents
          exact h ⟨inner, hflag, hcomponents⟩
  | .call text form options callee arguments names => by
      rw [value]
      refine (linear_effects env options).seq (callee.linear_ensure.seq ?_)
      refine (linear_values env arguments).bind fun operands => ?_
      cases form with
      | conversion => exact (Linear.intrinsic _ _ _).map
      | construction => exact (Linear.newStructure _ _ _).map
      | ordinary =>
          have hcallee := linear_value env callee
          cases callee with
          | creation _ created => exact (linear_emitCreation _ _ operands).map
          | member _ base _ _ =>
              refine (linear_receive _ base _ (linear_value env base)).bind fun args => ?_
              exact linear_emitCall _ args _
          | _ => exact (linear_receive _ _ _ hcallee).bind fun args => linear_emitCall _ args _
  | .withOptions text function => by
      rw [value]
      exact linear_value env function
  | .unsupported text nodeType label => by
      rw [value]
      exact .throw _

theorem linear_values (env : Env) : (es : List Expr) → Linear (values env es)
  | [] => by
      rw [values]
      exact .pure _
  | e :: rest => by
      rw [values]
      refine e.linear_bind (linear_value env e) fun first => ?_
      exact (linear_values env rest).bind fun ids => .pure _

theorem linear_present (env : Env) : (es : List (Option Expr)) → Linear (present env es)
  | [] => by
      rw [present]
      exact .pure _
  | none :: rest => by
      rw [present]
      exact linear_present env rest
  | some e :: rest => by
      rw [present]
      refine e.linear_bind (linear_value env e) fun first => ?_
      exact (linear_present env rest).bind fun ids => .pure _

theorem linear_component (env : Env) : (es : List (Option Expr)) → (e : Expr) → some e ∈ es →
    Linear (value env e)
  | [], _, h => absurd h List.not_mem_nil
  | none :: rest, e, h => by
      rcases List.mem_cons.mp h with h | h
      · cases h
      · exact linear_component env rest e h
  | some first :: rest, e, h => by
      rcases List.mem_cons.mp h with h | h
      · cases h
        exact linear_value env first
      · exact linear_component env rest e h

theorem linear_effects (env : Env) : (es : List Expr) → Linear (effects env es)
  | [] => by
      rw [effects]
      exact .pure _
  | e :: rest => by
      rw [effects]
      exact (linear_value env e).seq (linear_effects env rest)

theorem linear_assignComponents (env : Env) (source : OperandId) : (position : Nat) →
    (es : List (Option Expr)) → Linear (assignComponents env source position es)
  | _, [] => by
      rw [assignComponents]
      exact .pure _
  | position, none :: rest => by
      rw [assignComponents]
      exact linear_assignComponents env source (position + 1) rest
  | position, some e :: rest => by
      rw [assignComponents]
      refine e.linear_bind (linear_value env e) fun place => ?_
      refine (Linear.intrinsicInto _ [source] place).seq ?_
      exact linear_assignComponents env source (position + 1) rest

end

theorem linear_expression (env : Env) (e : Expr) : Linear (expression env e) :=
  (linear_value env e).bind e.linear_result

/-! ## Declarations -/

theorem linear_declare (decl : VarDecl) : Linear (declare decl) := by
  unfold declare
  split
  · exact .pure _
  · refine (Linear.declareLocal decl.name decl.ty).bind fun operand => ?_
    cases decl.id with
    | none => exact .pure _
    | some id => exact (Linear.modify fun _ _ => rfl).seq (.pure _)

theorem linear_declareAll : (decls : List VarDecl) → Linear (declareAll decls)
  | [] => .pure _
  | decl :: rest => (linear_declare decl).bind fun _ => (linear_declareAll rest).bind fun _ => .pure _

theorem linear_declareComponents (source : Option OperandId) : (position : Nat) →
    (decls : List (Option VarDecl)) → Linear (declareComponents source position decls)
  | _, [] => .pure _
  | position, none :: rest => linear_declareComponents source (position + 1) rest
  | position, some decl :: rest => by
      rw [declareComponents]
      refine (linear_declare decl).bind fun place => ?_
      have hrest := linear_declareComponents source (position + 1) rest
      dsimp only
      split
      · exact (Linear.intrinsicInto _ _ _).seq hrest
      · exact hrest

theorem linear_declareVariables (decls : List (Option VarDecl)) (initial : Option OperandId) :
    Linear (declareVariables decls initial) := by
  unfold declareVariables
  split
  · next decl =>
      refine (linear_declare decl).bind fun place => ?_
      split
      · exact .assign _ _ _
      · exact .pure _
  · exact linear_declareComponents initial 0 decls

theorem linear_expression? (env : Env) (e : Option Expr) : Linear (expression? env e) := by
  cases e with
  | none => exact .pure _
  | some e => exact (linear_expression env e).map

theorem linear_returned (env : Env) (es : Option (List Expr)) : Linear (returned env es) := by
  cases es with
  | none => exact .get (fun _ _ => rfl) fun _ => .pure _
  | some es => exact linear_values env es

end ContractCalls.Solidity
