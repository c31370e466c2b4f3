/-
# The lowering of Vyper is made of calls

One lemma for each function of the lowering, in the order of the lowering, as
for Solidity.
-/
import ContractCalls.Proofs.Body.Scripted
import ContractCalls.Vyper.Lowering

namespace ContractCalls.Vyper

theorem Expr.scripted_result (e : Expr) (r : Option OperandId) : Scripted (e.result r) := by
  cases r with
  | none => exact .throw _
  | some id => exact .pure id

/-- An expression that has to have a result, and what is done with it. -/
theorem Expr.scripted_bind {β : Type} {x : Build (Option OperandId)} {f : OperandId → Build β}
    (e : Expr) (hx : Scripted x) (hf : ∀ id, Scripted (f id)) :
    Scripted (x >>= fun r => e.result r >>= f) :=
  hx.bind fun r => (e.scripted_result r).bind hf

/-! ## Names -/

theorem scripted_variableNamed? (layout : Layout) (name : String) :
    Scripted (variableNamed? layout name) := by
  refine .get fun d => ?_
  split
  · exact .pure _
  · exact (Scripted.state _ _).map
  · exact .pure _

theorem scripted_nameValue (layout : Layout) (name : String) :
    Scripted (nameValue layout name) := by
  refine (scripted_variableNamed? layout name).bind fun r => ?_
  cases r with
  | none => exact .builtin _ _
  | some operand => exact .pure operand

theorem scripted_environmentValue? {layout : Layout} {base : Expr} {name : String}
    {x : Build OperandId} (h : environmentValue? layout base name = some x) : Scripted x := by
  unfold environmentValue? at h
  split at h
  · split at h
    · cases h
      exact .state _ _
    · split at h
      · cases h
        exact .builtin _ _
      · cases h
  · cases h

/-! ## Operations -/

theorem scripted_applyUnary (form : UnaryForm) (operand : OperandId) :
    Scripted (applyUnary form operand) := by
  refine (Scripted.tyOf operand).bind fun ty => ?_
  cases form with
  | not => exact .unary _ _ _
  | invert => exact .unary _ _ _
  | negate => exact (Scripted.constant (.uint 0) ty).bind fun zero => .intrinsic _ _ _

theorem scripted_typesOf (operands : List OperandId) : Scripted (typesOf operands) :=
  Scripted.arena.bind fun _ => .pure _

theorem scripted_callResult (layout : Layout) (callee : Callee) (name : String) :
    Scripted (callResult layout callee name) := by
  unfold callResult
  split
  · exact .resultFor _
  · exact (Scripted.temporary _).map

theorem scripted_emitCall (layout : Layout) (callee : Callee) (name : String)
    (arguments : List OperandId) : Scripted (emitCall layout callee name arguments) := by
  refine (scripted_callResult layout callee name).bind fun result => ?_
  refine (Scripted.call callee _ result).seq ?_
  split
  · exact (Scripted.terminate .revert).seq (.pure _)
  · exact .pure _

/-! ## Expressions -/

mutual

theorem scripted_value (layout : Layout) : (e : Expr) → Scripted (value layout e)
  | .absent field nodeType => by
      rw [value]
      exact .throw _
  | .literal constant ty => by
      rw [value]
      exact (Scripted.constant constant ty).map
  | .name id => by
      rw [value]
      exact (scripted_nameValue layout id).map
  | .member base name => by
      rw [value]
      split
      · next operand h => exact (scripted_environmentValue? h).map
      · exact base.scripted_bind (scripted_value layout base) fun object =>
          (Scripted.refer _ _ object _).map
  | .subscript base key => by
      rw [value]
      refine base.scripted_bind (scripted_value layout base) fun object => ?_
      refine key.scripted_bind (scripted_value layout key) fun position => ?_
      exact (Scripted.tyOf object).bind fun ty => (Scripted.refer _ _ object _).map
  | .call callee label arguments => by
      have hcallee : Scripted (value layout callee) := scripted_value layout callee
      have hcall : ∀ (target : Callee) (name : String), Scripted (do
          emitCall layout target name (← values layout arguments)) := fun target name =>
        (scripted_values layout arguments).bind fun operands =>
          scripted_emitCall layout target name operands
      cases callee with
      | absent field nodeType =>
          rw [value]
          exact .throw _
      | name id =>
          rw [value]
          exact hcall _ _
      | member base name =>
          rw [value]
          split
          · exact hcall _ _
          · exact (scripted_value layout base).seq (hcall _ _)
      | _ =>
          simp only [value]
          exact Scripted.seq hcallee (hcall _ _)
  | .construct typeName names members => by
      rw [value]
      exact (scripted_values layout members).bind fun operands => (Scripted.newStructure _ _ _).map
  | .marked nodeType inner => by
      rw [value]
      exact scripted_value layout inner
  | .binary operator left right => by
      rw [value]
      refine left.scripted_bind (scripted_value layout left) fun first => ?_
      refine right.scripted_bind (scripted_value layout right) fun second => ?_
      exact (Scripted.tyOf first).bind fun ty => (Scripted.intrinsic _ _ _).map
  | .compare operator left right => by
      rw [value]
      refine left.scripted_bind (scripted_value layout left) fun first => ?_
      refine right.scripted_bind (scripted_value layout right) fun second => ?_
      exact (Scripted.intrinsic _ _ _).map
  | .logical operator [] => by
      rw [value]
      exact .throw _
  | .logical operator (first :: rest) => by
      rw [value]
      refine first.scripted_bind (scripted_value layout first) fun start => ?_
      exact (scripted_combine layout operator rest start).map
  | .unary form operand => by
      rw [value]
      refine operand.scripted_bind (scripted_value layout operand) fun id => ?_
      exact (scripted_applyUnary form id).map
  | .tuple elements => by
      rw [value]
      refine (scripted_values layout elements).bind fun operands => ?_
      exact (scripted_typesOf operands).bind fun types => (Scripted.intrinsic _ _ _).map
  | .list elements => by
      rw [value]
      refine (scripted_values layout elements).bind fun operands => ?_
      exact (scripted_typesOf operands).bind fun types => (Scripted.intrinsic _ _ _).map
  | .conditional test yes no => by
      rw [value]
      refine test.scripted_bind (scripted_value layout test) fun condition => ?_
      refine yes.scripted_bind (scripted_value layout yes) fun first => ?_
      refine no.scripted_bind (scripted_value layout no) fun second => ?_
      exact (Scripted.tyOf first).bind fun ty => (Scripted.intrinsic _ _ _).map
  | .dict members => by
      rw [value]
      exact (scripted_values layout members).bind fun operands => (Scripted.intrinsic _ _ _).map
  | .unlisted nodeType children => by
      rw [value]
      exact (scripted_effects layout children).seq (Scripted.builtin _ _).map

theorem scripted_values (layout : Layout) : (es : List Expr) → Scripted (values layout es)
  | [] => by
      rw [values]
      exact .pure _
  | e :: rest => by
      rw [values]
      refine e.scripted_bind (scripted_value layout e) fun first => ?_
      exact (scripted_values layout rest).bind fun _ => .pure _

theorem scripted_effects (layout : Layout) : (es : List Expr) → Scripted (effects layout es)
  | [] => by
      rw [effects]
      exact .pure _
  | e :: rest => by
      rw [effects]
      exact (scripted_value layout e).seq (scripted_effects layout rest)

theorem scripted_combine (layout : Layout) (operator : String) : (es : List Expr) →
    (start : OperandId) → Scripted (combine layout operator start es)
  | [], start => by
      rw [combine]
      exact .pure _
  | e :: rest, start => by
      rw [combine]
      refine e.scripted_bind (scripted_value layout e) fun next => ?_
      exact (Scripted.intrinsic _ [start, next] _).bind fun both =>
        scripted_combine layout operator rest both

end

theorem scripted_expression (layout : Layout) (e : Expr) : Scripted (expression layout e) :=
  (scripted_value layout e).bind e.scripted_result

theorem scripted_effect? (layout : Layout) (e : Option Expr) : Scripted (effect? layout e) := by
  cases e with
  | none => exact .pure _
  | some e => exact (scripted_value layout e).seq (.pure _)

/-! ## Statements -/

theorem scripted_place (layout : Layout) (e : Expr) : Scripted (place layout e) := by
  unfold place
  split
  · refine (scripted_variableNamed? layout _).bind fun r => ?_
    cases r with
    | none => exact .throw _
    | some operand => exact .pure operand
  · exact scripted_expression layout _

theorem scripted_assignComponents (layout : Layout) (source : OperandId) : (position : Nat) →
    (es : List Expr) → Scripted (assignComponents layout source position es)
  | _, [] => .pure _
  | position, e :: rest => by
      refine (scripted_place layout e).bind fun slot => ?_
      refine (Scripted.intrinsicInto _ [source] slot).seq ?_
      exact scripted_assignComponents layout source (position + 1) rest

theorem scripted_declare (layout : Layout) (binding : Binding) (initial : Option Expr) :
    Scripted (declare layout binding initial) := by
  cases initial with
  | none => exact (Scripted.declareLocal _ _).seq (.pure _)
  | some initial =>
      refine (scripted_expression layout initial).bind fun computed => ?_
      exact (Scripted.declareLocal _ _).bind fun declared => .assign _ _ _

theorem scripted_readable (binding : Except FrontEndError Binding) :
    Scripted (readable binding) := by
  cases binding with
  | error e => exact .throw _
  | ok binding => exact .pure _

mutual

theorem scripted_statement (layout : Layout) : (s : Stmt) → Scripted (statement layout s)
  | .located span inner => by
      rw [statement]
      exact (Scripted.annotate span).seq (scripted_statement layout inner)
  | .skip => by
      rw [statement]
      exact .pure _
  | .expression e => by
      rw [statement]
      exact (scripted_value layout e).seq (.pure _)
  | .declare binding initial => by
      rw [statement]
      exact (scripted_readable binding).bind fun binding => scripted_declare layout binding initial
  | .assign target source => by
      rw [statement]
      refine (scripted_expression layout source).bind fun computed => ?_
      refine (scripted_place layout target).bind fun slot => ?_
      exact (Scripted.tyOf slot).bind fun ty => .assign _ _ _
  | .assignAll targets source => by
      rw [statement]
      exact (scripted_expression layout source).bind fun computed =>
        scripted_assignComponents layout computed 0 targets
  | .update operator target source => by
      rw [statement]
      refine (scripted_expression layout source).bind fun right => ?_
      refine (scripted_place layout target).bind fun slot => ?_
      refine (Scripted.tyOf slot).bind fun ty => ?_
      exact (Scripted.intrinsic _ _ _).bind fun _ => .assign _ _ _
  | .ret es => by
      rw [statement]
      exact (scripted_values layout es).bind fun ids => .terminate _
  | .ifElse test yes no => by
      rw [statement]
      refine (scripted_expression layout test).bind fun condition => ?_
      refine Scripted.newNode.bind fun yesNode => Scripted.newNode.bind fun join => ?_
      have hno := Scripted.inScope (scripted_statements layout no)
      have hyes := Scripted.inScope (scripted_statements layout yes)
      -- without statements in the other branch the join takes the place of its node
      have hrest : ∀ (isElse : Bool) noNode, Scripted (do
          Build.branch condition yesNode noNode
          Build.switchTo yesNode
          Build.inScope (statements layout yes)
          Build.goto join
          if isElse then
            Build.switchTo noNode
            Build.inScope (statements layout no)
            Build.goto join
          Build.switchTo join) := by
        intro isElse noNode
        refine (Scripted.branch condition yesNode noNode).seq ((Scripted.switchTo yesNode).seq ?_)
        refine hyes.seq ((Scripted.goto join).seq ?_)
        split
        · exact (Scripted.switchTo noNode).seq (hno.seq ((Scripted.goto join).seq (.switchTo join)))
        · exact .switchTo join
      cases no.isEmpty with
      | true => exact hrest false join
      | false => exact Scripted.newNode.bind (hrest true)
  | .forEach binding iterable body => by
      rw [statement]
      refine (scripted_expression layout iterable).bind fun source => ?_
      refine (scripted_readable binding).bind fun binding => .inScope ?_
      refine (Scripted.declareLocal _ _).bind fun declared => Scripted.newNode.bind fun header => ?_
      refine (Scripted.goto header).seq ((Scripted.switchTo header).seq ?_)
      refine (Scripted.builtin _ _).bind fun hasNext => ?_
      refine Scripted.newNode.bind fun bodyNode => Scripted.newNode.bind fun exit => ?_
      refine (Scripted.branch hasNext bodyNode exit).seq (Scripted.seq ?_ (.switchTo exit))
      refine .inLoop header exit ((Scripted.switchTo bodyNode).seq ?_)
      refine (Scripted.refer _ _ source _).bind fun element => (Scripted.assign _ _ _).seq ?_
      exact (scripted_statements layout body).seq (.goto header)
  | .assert test message => by
      rw [statement]
      refine (scripted_expression layout test).bind fun condition => ?_
      refine Scripted.newNode.bind fun pass => Scripted.newNode.bind fun fail => ?_
      refine (Scripted.branch condition pass fail).seq ((Scripted.switchTo fail).seq ?_)
      refine (scripted_effect? layout message).seq ((Scripted.terminate .revert).seq ?_)
      exact .switchTo pass
  | .raise exception => by
      rw [statement]
      exact (scripted_effect? layout exception).seq (.terminate .revert)
  | .breakLoop => by
      rw [statement]
      exact .leaveTo _
  | .continueLoop => by
      rw [statement]
      exact .leaveTo _
  | .nop => by
      rw [statement]
      exact .nop

theorem scripted_statements (layout : Layout) : (ss : List Stmt) → Scripted (statements layout ss)
  | [] => by
      rw [statements]
      exact .pure _
  | s :: rest => by
      rw [statements]
      exact (scripted_statement layout s).seq (scripted_statements layout rest)

end

theorem scripted_declareAll : (bindings : List Binding) → Scripted (declareAll bindings)
  | [] => .pure _
  | _ :: rest =>
      (Scripted.declareLocal _ _).bind fun _ => (scripted_declareAll rest).bind fun _ => .pure _

/-- The lowering of a definition changes the draft by calls only. -/
theorem Definition.scripted_lower (layout : Layout) (definition : Definition) :
    Scripted (definition.lower layout) := by
  unfold Definition.lower
  split
  · exact .throw _
  · next bindings _ =>
      refine (scripted_declareAll bindings).bind fun parameters => ?_
      refine (Scripted.one (.setSignature parameters []) fun _ => rfl).seq ?_
      exact scripted_statements layout definition.body

end ContractCalls.Vyper
