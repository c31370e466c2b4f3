/-
# The lowering of Solidity is made of calls

One lemma for each function of the lowering, in the order of the lowering: it
changes the draft by calls only.  Nothing is asked of the syntax, the draft or
the operands, and a step that fails is covered like one that does not, so what
every call keeps also holds of the draft a failed lowering leaves.
-/
import ContractCalls.Proofs.Body.Scripted
import ContractCalls.Solidity.Lowering

namespace ContractCalls.Solidity

theorem Expr.scripted_ensure (e : Expr) : Scripted e.ensure := by
  unfold Expr.ensure
  split
  · exact .throw _
  · exact .pure _

theorem Expr.scripted_result (e : Expr) (r : Option OperandId) : Scripted (e.result r) := by
  cases r with
  | none => exact .throw _
  | some id => exact .pure id

/-- An expression that has to have a result, and what is done with it. -/
theorem Expr.scripted_bind {β : Type} {x : Build (Option OperandId)} {f : OperandId → Build β}
    (e : Expr) (hx : Scripted x) (hf : ∀ id, Scripted (f id)) :
    Scripted (x >>= fun r => e.result r >>= f) :=
  hx.bind fun r => (e.scripted_result r).bind hf

/-! ## Operands of expressions -/

theorem Env.scripted_identifier (env : Env) (text : TypeText) (name : String)
    (declaration : Option Int) : Scripted (env.identifier text name declaration) := by
  refine .get fun d => ?_
  split
  · exact .pure _
  · split
    · exact .state _ _
    · exact .state _ _
    · exact .builtin _ _
    · split
      · exact .builtin _ _
      · split
        · exact .pure _
        · exact .throw _

theorem scripted_stepBy (operator : String) (givesOld : Bool) (ty : Ty) (target : OperandId) :
    Scripted (stepBy operator givesOld ty target) := by
  -- with or without a copy of the old value, the rest is the same
  have hrest : ∀ old : Option OperandId, Scripted (do
      let one ← Build.constant (.uint 1) ty
      let updated ← Build.intrinsic (.binary operator) [target, one] ty
      Build.assign target updated ty
      return old.getD updated) := fun old =>
    (Scripted.constant _ _).bind fun one => (Scripted.intrinsic _ [target, one] ty).bind
      fun updated => (Scripted.assign target updated ty).seq (.pure _)
  unfold stepBy
  cases givesOld with
  | true =>
      refine (Scripted.temporary ty).bind fun copy => (Scripted.assign copy target ty).seq ?_
      exact (Scripted.pure (some copy)).bind hrest
  | false => exact hrest none

theorem scripted_applyUnary (form : UnaryForm) (ty : Ty) (operand : OperandId) :
    Scripted (applyUnary form ty operand) := by
  cases form with
  | direct token => exact .unary token operand ty
  | negate => exact (Scripted.constant (.uint 0) ty).bind fun zero => .intrinsic _ _ _
  | step operator givesOld => exact scripted_stepBy operator givesOld ty operand
  | delete => exact (Scripted.delete operand).seq (.pure _)
  | plain => exact .pure _

theorem scripted_collect (isArray : Bool) (ty : Ty) (values : List OperandId) :
    Scripted (collect isArray ty values) := by
  have hrest : ∀ id, Scripted (do Build.intrinsicInto .initializer values id; return id) :=
    fun id => (Scripted.intrinsicInto _ values id).seq (.pure id)
  cases isArray with
  | true => exact (Scripted.temporary ty).bind hrest
  | false => exact (Scripted.tuple ty).bind hrest

/-! ## Calls -/

theorem scripted_receive (use : ReceiverUse) (receiver : Expr) {value : Build (Option OperandId)}
    (args : CallArgs) (hvalue : Scripted value) : Scripted (receive use receiver value args) := by
  refine receiver.scripted_ensure.seq ?_
  cases use with
  | unused => exact .pure _
  | evaluated => exact hvalue.seq (.pure _)
  | attached => exact receiver.scripted_bind hvalue fun _ => .pure _

theorem scripted_emitCall (callee : Callee) (args : CallArgs) (ty : Ty) :
    Scripted (emitCall callee args ty) := by
  refine (Scripted.resultFor ty).bind fun result => (Scripted.call callee args result).seq ?_
  split
  · exact (Scripted.terminate .revert).seq (.pure _)
  · exact .pure _

theorem scripted_emitCreation (created ty : Ty) (arguments : List OperandId) :
    Scripted (emitCreation created ty arguments) := by
  unfold emitCreation
  split
  · exact .intrinsic _ _ _
  · exact .newElementary _ _

/-! ## Expressions -/

mutual

theorem scripted_value (env : Env) : (e : Expr) → Scripted (value env e)
  | .absent field nodeType => by
      rw [value]
      exact .throw _
  | .literal text constant => by
      rw [value]
      exact (Scripted.constant constant _).map
  | .identifier text name declaration => by
      rw [value]
      exact (env.scripted_identifier text name declaration).map
  | .member text base name declaration => by
      rw [value]
      refine base.scripted_ensure.seq ?_
      split
      · exact (Scripted.builtin _ _).map
      · exact base.scripted_bind (scripted_value env base) fun object =>
          (Scripted.refer _ _ object _).map
  | .index text base key => by
      rw [value]
      refine base.scripted_bind (scripted_value env base) fun object => ?_
      refine key.scripted_bind (scripted_value env key) fun position => ?_
      exact (Scripted.refer _ _ object _).map
  | .arrayType text base => by
      rw [value]
      exact (Scripted.builtin _ _).map
  | .typeName text name => by
      rw [value]
      exact (Scripted.builtin _ _).map
  | .creation text created => by
      rw [value]
      exact (Scripted.builtin _ _).map
  | .range text base bounds => by
      rw [value]
      refine base.scripted_bind (scripted_value env base) fun object => ?_
      exact (scripted_values env bounds).bind fun limits => (Scripted.intrinsic _ _ _).map
  | .binary text operator left right => by
      rw [value]
      refine left.scripted_ensure.seq (right.scripted_ensure.seq ?_)
      refine left.scripted_bind (scripted_value env left) fun first => ?_
      refine right.scripted_bind (scripted_value env right) fun second => ?_
      exact (Scripted.intrinsic _ _ _).map
  | .unary text form operand => by
      rw [value]
      refine operand.scripted_bind (scripted_value env operand) fun id => ?_
      exact (scripted_applyUnary form _ id).map
  | .assign text operator targetText target source => by
      rw [value]
      refine target.scripted_ensure.seq ?_
      refine source.scripted_bind (scripted_value env source) fun computed => ?_
      refine target.scripted_bind (scripted_value env target) fun place => ?_
      -- what is stored differs with the operator, not how it is stored
      have hstore : ∀ stored : OperandId, Scripted (do
          Build.assign place stored (Ty.ofText? targetText)
          return some place) := fun stored => (Scripted.assign place stored _).seq (.pure _)
      cases operator with
      | none => exact hstore computed
      | some operator => exact (Scripted.intrinsic _ _ _).bind hstore
  | .assignAll text targets source => by
      rw [value]
      refine source.scripted_bind (scripted_value env source) fun computed => ?_
      exact (scripted_assignComponents env computed 0 targets).seq (.pure _)
  | .conditional text condition yes no => by
      rw [value]
      refine condition.scripted_bind (scripted_value env condition) fun test => ?_
      refine yes.scripted_bind (scripted_value env yes) fun first => ?_
      refine no.scripted_bind (scripted_value env no) fun second => ?_
      exact (Scripted.intrinsic _ _ _).map
  | .tuple text isArray components => by
      -- parentheses: the only component of a tuple stands for the tuple
      by_cases h : ∃ inner, isArray = false ∧ components = [some inner]
      · obtain ⟨inner, hflag, hcomponents⟩ := h
        have hinner := scripted_component env components inner (by simp [hcomponents])
        subst hflag hcomponents
        rw [value]
        exact hinner
      · rw [value]
        · exact (scripted_present env components).bind fun operands =>
            (scripted_collect isArray _ operands).map
        · intro inner hflag hcomponents
          exact h ⟨inner, hflag, hcomponents⟩
  | .call text form options callee arguments names => by
      rw [value]
      refine (scripted_effects env options).seq (callee.scripted_ensure.seq ?_)
      refine (scripted_values env arguments).bind fun operands => ?_
      cases form with
      | conversion => exact (Scripted.intrinsic _ _ _).map
      | construction => exact (Scripted.newStructure _ _ _).map
      | ordinary =>
          have hcallee : Scripted (value env callee) := scripted_value env callee
          cases callee with
          | creation _ created => exact (scripted_emitCreation _ _ operands).map
          | member _ base _ _ =>
              have hbase : Scripted (value env base) := scripted_value env base
              exact (scripted_receive _ base _ hbase).bind fun args => scripted_emitCall _ args _
          | _ => exact (scripted_receive _ _ _ hcallee).bind fun args => scripted_emitCall _ args _
  | .withOptions text function => by
      rw [value]
      exact scripted_value env function
  | .unsupported text nodeType label => by
      rw [value]
      exact .throw _

theorem scripted_values (env : Env) : (es : List Expr) → Scripted (values env es)
  | [] => by
      rw [values]
      exact .pure _
  | e :: rest => by
      rw [values]
      refine e.scripted_bind (scripted_value env e) fun first => ?_
      exact (scripted_values env rest).bind fun _ => .pure _

theorem scripted_present (env : Env) : (es : List (Option Expr)) → Scripted (present env es)
  | [] => by
      rw [present]
      exact .pure _
  | none :: rest => by
      rw [present]
      exact scripted_present env rest
  | some e :: rest => by
      rw [present]
      refine e.scripted_bind (scripted_value env e) fun first => ?_
      exact (scripted_present env rest).bind fun _ => .pure _

theorem scripted_component (env : Env) : (es : List (Option Expr)) → (e : Expr) → some e ∈ es →
    Scripted (value env e)
  | [], _, h => absurd h List.not_mem_nil
  | none :: rest, e, h => by
      rcases List.mem_cons.mp h with h | h
      · cases h
      · exact scripted_component env rest e h
  | some first :: rest, e, h => by
      rcases List.mem_cons.mp h with h | h
      · cases h
        exact scripted_value env first
      · exact scripted_component env rest e h

theorem scripted_effects (env : Env) : (es : List Expr) → Scripted (effects env es)
  | [] => by
      rw [effects]
      exact .pure _
  | e :: rest => by
      rw [effects]
      exact (scripted_value env e).seq (scripted_effects env rest)

theorem scripted_assignComponents (env : Env) (source : OperandId) : (position : Nat) →
    (es : List (Option Expr)) → Scripted (assignComponents env source position es)
  | _, [] => by
      rw [assignComponents]
      exact .pure _
  | position, none :: rest => by
      rw [assignComponents]
      exact scripted_assignComponents env source (position + 1) rest
  | position, some e :: rest => by
      rw [assignComponents]
      refine e.scripted_bind (scripted_value env e) fun place => ?_
      refine (Scripted.intrinsicInto _ [source] place).seq ?_
      exact scripted_assignComponents env source (position + 1) rest

end

theorem scripted_expression (env : Env) (e : Expr) : Scripted (expression env e) :=
  (scripted_value env e).bind e.scripted_result

/-! ## Declarations -/

theorem scripted_declare (decl : VarDecl) : Scripted (declare decl) := by
  unfold declare
  split
  · exact .pure _
  · refine (Scripted.declareLocal decl.name decl.ty).bind fun operand => ?_
    split
    · next id _ => exact (Scripted.one (.declare id operand) fun _ => rfl).seq (.pure _)
    · exact .pure _

theorem scripted_declareAll : (decls : List VarDecl) → Scripted (declareAll decls)
  | [] => .pure _
  | decl :: rest =>
      (scripted_declare decl).bind fun _ => (scripted_declareAll rest).bind fun _ => .pure _

theorem scripted_declareComponents (source : Option OperandId) : (position : Nat) →
    (decls : List (Option VarDecl)) → Scripted (declareComponents source position decls)
  | _, [] => .pure _
  | position, none :: rest => scripted_declareComponents source (position + 1) rest
  | position, some decl :: rest => by
      have hrest := scripted_declareComponents source (position + 1) rest
      refine (scripted_declare decl).bind fun place => ?_
      cases place with
      | none => exact hrest
      | some place =>
          cases source with
          | none => exact hrest
          | some tuple => exact (Scripted.intrinsicInto _ [tuple] place).seq hrest

theorem scripted_declareVariables (decls : List (Option VarDecl)) (initial : Option OperandId) :
    Scripted (declareVariables decls initial) := by
  unfold declareVariables
  split
  · refine (scripted_declare _).bind fun place => ?_
    split
    · exact .assign _ _ _
    · exact .pure _
  · exact scripted_declareComponents initial 0 _

/-! ## Statements -/

theorem scripted_expression? (env : Env) (e : Option Expr) : Scripted (expression? env e) := by
  cases e with
  | none => exact .pure _
  | some e => exact (scripted_expression env e).map

theorem scripted_returned (env : Env) (es : Option (List Expr)) : Scripted (returned env es) := by
  cases es with
  | none => exact .get fun _ => .pure _
  | some es => exact scripted_values env es

mutual

theorem scripted_statement (env : Env) : (s : Stmt) → Scripted (statement env s)
  | .located span inner => by
      rw [statement]
      exact (Scripted.annotate span).seq (scripted_statement env inner)
  | .skip => by
      rw [statement]
      exact .pure _
  | .block body => by
      rw [statement]
      exact .inScope (scripted_statements env body)
  | .expression e => by
      rw [statement]
      exact (scripted_value env e).seq (.pure _)
  | .declare declarations initial => by
      rw [statement]
      exact (scripted_expression? env initial).bind fun id =>
        scripted_declareVariables declarations id
  | .ifThen condition yes => by
      rw [statement]
      refine (scripted_expression env condition).bind fun test => ?_
      refine Scripted.newNode.bind fun yesNode => Scripted.newNode.bind fun join => ?_
      refine (Scripted.branch test yesNode join).seq ((Scripted.switchTo yesNode).seq ?_)
      refine (scripted_statement env yes).seq ((Scripted.goto join).seq ?_)
      exact .switchTo join
  | .ifElse condition yes no => by
      rw [statement]
      refine (scripted_expression env condition).bind fun test => ?_
      refine Scripted.newNode.bind fun yesNode => Scripted.newNode.bind fun join => ?_
      refine Scripted.newNode.bind fun noNode => ?_
      refine (Scripted.branch test yesNode noNode).seq ((Scripted.switchTo yesNode).seq ?_)
      refine (scripted_statement env yes).seq ((Scripted.goto join).seq ?_)
      refine (Scripted.switchTo noNode).seq ((scripted_statement env no).seq ?_)
      exact (Scripted.goto join).seq (.switchTo join)
  | .whileLoop condition body => by
      rw [statement]
      refine Scripted.newNode.bind fun header => ?_
      refine (Scripted.goto header).seq ((Scripted.switchTo header).seq ?_)
      refine (scripted_expression env condition).bind fun test => ?_
      refine Scripted.newNode.bind fun bodyNode => Scripted.newNode.bind fun exit => ?_
      refine (Scripted.branch test bodyNode exit).seq (Scripted.seq ?_ (.switchTo exit))
      refine .inLoop header exit ((Scripted.switchTo bodyNode).seq ?_)
      exact (scripted_statement env body).seq (.goto header)
  | .doWhile body condition => by
      rw [statement]
      refine Scripted.newNode.bind fun bodyNode => Scripted.newNode.bind fun check => ?_
      refine Scripted.newNode.bind fun exit => (Scripted.goto bodyNode).seq (Scripted.seq ?_ ?_)
      · refine .inLoop check exit ((Scripted.switchTo bodyNode).seq ?_)
        exact (scripted_statement env body).seq (.goto check)
      · refine (Scripted.switchTo check).seq ((scripted_expression env condition).bind fun test => ?_)
        exact (Scripted.branch test bodyNode exit).seq (.switchTo exit)
  | .forLoop start condition next body => by
      rw [statement]
      refine .inScope ((scripted_statement env start).seq ?_)
      refine Scripted.newNode.bind fun header => ?_
      refine (Scripted.goto header).seq ((Scripted.switchTo header).seq ?_)
      refine Scripted.newNode.bind fun bodyNode => Scripted.newNode.bind fun nextNode => ?_
      refine Scripted.newNode.bind fun exit => ?_
      refine (scripted_expression? env condition).bind fun test => ?_
      have hrest : Scripted (do
          Build.inLoop nextNode exit do
            Build.switchTo bodyNode
            statement env body
            Build.goto nextNode
          Build.switchTo nextNode
          statement env next
          Build.goto header
          Build.switchTo exit) := by
        refine Scripted.seq ?_ ?_
        · refine .inLoop nextNode exit ((Scripted.switchTo bodyNode).seq ?_)
          exact (scripted_statement env body).seq (.goto nextNode)
        · refine (Scripted.switchTo nextNode).seq ((scripted_statement env next).seq ?_)
          exact (Scripted.goto header).seq (.switchTo exit)
      cases test with
      | none => exact (Scripted.goto bodyNode).seq hrest
      | some test => exact (Scripted.branch test bodyNode exit).seq hrest
  | .continueLoop => by
      rw [statement]
      exact .leaveTo _
  | .breakLoop => by
      rw [statement]
      exact .leaveTo _
  | .ret es => by
      rw [statement]
      exact (scripted_returned env es).bind fun ids => .terminate _
  | .revert none => by
      rw [statement]
      exact .terminate _
  | .revert (some e) => by
      rw [statement]
      exact (scripted_value env e).seq (.terminate _)
  | .tryCatch call cases => by
      rw [statement]
      refine (scripted_value env call).bind fun result => Scripted.newNode.bind fun join => ?_
      refine (Scripted.builtin _ _).bind fun success => ?_
      exact (scripted_clauses env success join result cases).seq (.switchTo join)
  | .nop => by
      rw [statement]
      exact .nop
  | .unsupported nodeType => by
      rw [statement]
      exact .throw _

theorem scripted_statements (env : Env) : (ss : List Stmt) → Scripted (statements env ss)
  | [] => by
      rw [statements]
      exact .pure _
  | s :: rest => by
      rw [statements]
      exact (scripted_statement env s).seq (scripted_statements env rest)

theorem scripted_clauses (env : Env) (success : OperandId) (join : NodeId)
    (result : Option OperandId) : (cs : List Clause) →
    Scripted (clauses env success join result cs)
  | [] => by
      rw [clauses]
      exact .pure _
  | .clause parameters body :: rest => by
      rw [clauses]
      refine Scripted.newNode.bind fun node => ?_
      have hrest : ∀ next, Scripted (do
          Build.branch success node next
          Build.switchTo node
          Build.inScope do
            declareComponents result 0 (parameters.map some)
            statement env body
          Build.goto join
          Build.switchTo next
          clauses env success join none rest) := by
        intro next
        refine (Scripted.branch success node next).seq ((Scripted.switchTo node).seq ?_)
        refine Scripted.seq (.inScope ?_) ?_
        · exact (scripted_declareComponents result 0 _).seq (scripted_statement env body)
        · refine (Scripted.goto join).seq ((Scripted.switchTo next).seq ?_)
          exact scripted_clauses env success join none rest
      cases rest.isEmpty with
      | true => exact hrest join
      | false => exact Scripted.newNode.bind hrest

end

/-- The lowering of a definition changes the draft by calls only. -/
theorem Definition.scripted_lower (env : Env) (definition : Definition) :
    Scripted (definition.lower env) := by
  refine (scripted_declareAll definition.parameters).bind fun parameters => ?_
  refine (scripted_declareAll definition.returns).bind fun returns => ?_
  refine (Scripted.one (.setSignature parameters returns) fun _ => rfl).seq ?_
  exact scripted_statement env definition.body

end ContractCalls.Solidity
