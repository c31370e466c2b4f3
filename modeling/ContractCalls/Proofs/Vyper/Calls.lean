/-
# What lowered Vyper code calls

The callees of an expression or statement are read off its syntax: those of its
parts, and the target of the call if it is one.  Lowering adds these callees to
the body and no others, in dead code as well; a part that the language requires
and the tree does not have makes it fail.

One lemma for each function of the lowering, in the order of the lowering.
-/
import ContractCalls.Proofs.Body.Calls
import ContractCalls.Vyper.Lowering

namespace ContractCalls.Vyper

open Build

/-- Whom a call of an expression calls, by how the callee reads in source. -/
def Layout.target? (layout : Layout) (callee : Expr) (label : String) : Option Callee :=
  match callee with
  | .absent _ _ => none
  | .name id => some (.builtin id)
  | .member base name =>
      some (if base.isSelf then layout.ownCallee name else outsideCallee label)
  | _ => some (outsideCallee label)

mutual

/-- The callees of the calls in an expression. -/
def Expr.callees (layout : Layout) : Expr → List Callee
  | .absent _ _ | .literal _ _ | .name _ => []
  | .member base _ => base.callees layout
  | .subscript base key => base.callees layout ++ key.callees layout
  | .call callee label arguments =>
      callee.callees layout ++ (calleesOf layout arguments ++ (layout.target? callee label).toList)
  | .marked _ inner => inner.callees layout
  | .binary _ left right | .compare _ left right => left.callees layout ++ right.callees layout
  | .unary _ operand => operand.callees layout
  | .conditional test yes no =>
      test.callees layout ++ (yes.callees layout ++ no.callees layout)
  | .construct _ _ parts | .logical _ parts | .tuple parts | .list parts | .dict parts
  | .unlisted _ parts => calleesOf layout parts

/-- The callees of the calls in expressions. -/
def calleesOf (layout : Layout) : List Expr → List Callee
  | [] => []
  | e :: rest => e.callees layout ++ calleesOf layout rest

end

theorem calleesOf_eq (layout : Layout) (es : List Expr) :
    calleesOf layout es = es.flatMap (Expr.callees layout) := by
  induction es with
  | nil => rfl
  | cons e rest ih => rw [calleesOf, ih, List.flatMap_cons]

/-! ## Expressions -/

theorem Expr.adds_result (e : Expr) (r : Option OperandId) : Adds (e.result r) [] := by
  cases r with
  | none => exact adds_throw _
  | some operand => exact adds_pure operand

/-- An expression that has to have a result, and what is done with it. -/
theorem Expr.adds_bind {β : Type} {x : Build (Option OperandId)} {f : OperandId → Build β}
    {added more : List Callee} (e : Expr) (hx : Adds x added) (hf : ∀ id, Adds (f id) more) :
    Adds (x >>= fun r => e.result r >>= f) (added ++ more) :=
  hx.bind fun r => (e.adds_result r).then hf

/-- The same if nothing else is called. -/
theorem Expr.adds_before {β : Type} {x : Build (Option OperandId)} {f : OperandId → Build β}
    {added : List Callee} (e : Expr) (hx : Adds x added) (hf : ∀ id, Adds (f id) []) :
    Adds (x >>= fun r => e.result r >>= f) added :=
  hx.before fun r => (e.adds_result r).then hf

theorem adds_variableNamed? (layout : Layout) (name : String) :
    Adds (variableNamed? layout name) [] := by
  refine adds_get fun d => ?_
  split
  · exact adds_pure _
  · exact (adds_state _ _).map some
  · exact adds_pure _

theorem adds_nameValue (layout : Layout) (name : String) : Adds (nameValue layout name) [] := by
  refine (adds_variableNamed? layout name).then fun r => ?_
  cases r with
  | none => exact adds_builtin _ _
  | some operand => exact adds_pure operand

/-- A member of the environment hangs off a name. -/
theorem environmentValue?_eq_some {layout : Layout} {base : Expr} {name : String}
    {x : Build OperandId} (h : environmentValue? layout base name = some x) :
    base.callees layout = [] ∧ Adds x [] := by
  unfold environmentValue? at h
  split at h
  · refine ⟨rfl, ?_⟩
    split at h
    · cases h
      exact adds_state _ _
    · split at h
      · cases h
        exact adds_builtin _ _
      · cases h
  · cases h

theorem adds_applyUnary (form : UnaryForm) (operand : OperandId) :
    Adds (applyUnary form operand) [] := by
  refine (adds_tyOf operand).then fun ty => ?_
  cases form with
  | not => exact adds_unary _ _ _
  | invert => exact adds_unary _ _ _
  | negate => exact (adds_constant _ _).then fun zero => adds_intrinsic _ _ _

theorem adds_typesOf (operands : List OperandId) : Adds (typesOf operands) [] :=
  adds_arena.then fun _ => adds_pure _

theorem adds_emitCall (layout : Layout) {callee : Callee} (h : callee.isIntrinsic = false)
    (name : String) (arguments : List OperandId) :
    Adds (emitCall layout callee name arguments) [callee] := by
  have hresult : Adds (callResult layout callee name) [] := by
    unfold callResult
    split
    · exact adds_resultFor _
    · exact (adds_temporary _).map some
  rw [← Callee.counted_of_not_isIntrinsic h]
  refine hresult.then fun result => (adds_call callee _ result).before fun _ => ?_
  split
  · exact (adds_terminate _).then fun _ => adds_pure result
  · exact adds_pure result

theorem Layout.ownCallee_isIntrinsic (layout : Layout) (name : String) :
    (layout.ownCallee name).isIntrinsic = false := by
  unfold Layout.ownCallee
  split <;> rfl

theorem Expr.callees_of_isSelf (layout : Layout) {e : Expr} (h : e.isSelf) :
    e.callees layout = [] := by
  cases e with
  | name id => rfl
  | _ => cases h

mutual

theorem adds_value (layout : Layout) : (e : Expr) → Adds (value layout e) (e.callees layout)
  | .absent field nodeType => by
      rw [value]
      exact adds_throw _
  | .literal constant ty => by
      rw [value]
      exact (adds_constant constant ty).map some
  | .name id => by
      rw [value]
      exact (adds_nameValue layout id).map some
  | .member base name => by
      rw [value, Expr.callees]
      split
      · next operand hoperand =>
          obtain ⟨hbase, hadds⟩ := environmentValue?_eq_some hoperand
          rw [hbase]
          exact hadds.map some
      · exact base.adds_before (adds_value layout base) fun object => (adds_refer _ _ _ _).map some
  | .subscript base key => by
      rw [value, Expr.callees]
      refine base.adds_bind (adds_value layout base) fun object => ?_
      refine key.adds_before (adds_value layout key) fun position => ?_
      exact (adds_tyOf object).then fun ty => (adds_refer _ _ _ _).map some
  | .call callee label arguments => by
      have hcallee := adds_value layout callee
      have hcall {target : Callee} (h : target.isIntrinsic = false) (name : String) :
          Adds (do emitCall layout target name (← values layout arguments))
            (calleesOf layout arguments ++ [target]) :=
        (adds_values layout arguments).bind fun operands => adds_emitCall layout h name operands
      rw [Expr.callees]
      cases callee with
      | absent field nodeType =>
          rw [value]
          exact adds_throw _
      | name id =>
          rw [value]
          exact hcall rfl _
      | member base name =>
          rw [value, Expr.callees]
          simp only [Layout.target?]
          split
          · next hself =>
              rw [Expr.callees_of_isSelf layout hself]
              exact hcall (layout.ownCallee_isIntrinsic name) name
          · exact (adds_value layout base).bind fun _ => hcall rfl name
      | _ =>
          simp only [value]
          exact hcallee.bind fun _ => hcall rfl ""
  | .construct typeName names members => by
      rw [value, Expr.callees]
      exact (adds_values layout members).before fun operands => (adds_newStructure _ _ _).map some
  | .marked nodeType inner => by
      rw [value, Expr.callees]
      exact adds_value layout inner
  | .binary operator left right => by
      rw [value, Expr.callees]
      refine left.adds_bind (adds_value layout left) fun first => ?_
      refine right.adds_before (adds_value layout right) fun second => ?_
      exact (adds_tyOf first).then fun ty => (adds_intrinsic _ _ _).map some
  | .compare operator left right => by
      rw [value, Expr.callees]
      refine left.adds_bind (adds_value layout left) fun first => ?_
      exact right.adds_before (adds_value layout right) fun second => (adds_intrinsic _ _ _).map some
  | .logical operator [] => by
      rw [value]
      exact adds_throw _
  | .logical operator (first :: rest) => by
      rw [value, Expr.callees, calleesOf]
      refine first.adds_bind (adds_value layout first) fun start => ?_
      exact (adds_combine layout operator start rest).map some
  | .unary form operand => by
      rw [value, Expr.callees]
      exact operand.adds_before (adds_value layout operand) fun id => (adds_applyUnary form id).map some
  | .tuple elements => by
      rw [value, Expr.callees]
      refine (adds_values layout elements).before fun operands => ?_
      exact (adds_typesOf operands).then fun types => (adds_intrinsic _ _ _).map some
  | .list elements => by
      rw [value, Expr.callees]
      refine (adds_values layout elements).before fun operands => ?_
      exact (adds_typesOf operands).then fun types => (adds_intrinsic _ _ _).map some
  | .conditional test yes no => by
      rw [value, Expr.callees]
      refine test.adds_bind (adds_value layout test) fun condition => ?_
      refine yes.adds_bind (adds_value layout yes) fun first => ?_
      refine no.adds_before (adds_value layout no) fun second => ?_
      exact (adds_tyOf first).then fun ty => (adds_intrinsic _ _ _).map some
  | .dict members => by
      rw [value, Expr.callees]
      exact (adds_values layout members).before fun operands => (adds_intrinsic _ _ _).map some
  | .unlisted nodeType children => by
      rw [value, Expr.callees]
      exact (adds_effects layout children).before fun _ => (adds_builtin _ _).map some

theorem adds_values (layout : Layout) : (es : List Expr) →
    Adds (values layout es) (calleesOf layout es)
  | [] => by
      rw [values]
      exact adds_pure _
  | e :: rest => by
      rw [values, calleesOf]
      refine e.adds_bind (adds_value layout e) fun first => ?_
      exact (adds_values layout rest).before fun others => adds_pure _

theorem adds_effects (layout : Layout) : (es : List Expr) →
    Adds (effects layout es) (calleesOf layout es)
  | [] => by
      rw [effects]
      exact adds_pure _
  | e :: rest => by
      rw [effects, calleesOf]
      exact (adds_value layout e).bind fun _ => adds_effects layout rest

theorem adds_combine (layout : Layout) (operator : String) (start : OperandId) :
    (es : List Expr) → Adds (combine layout operator start es) (calleesOf layout es)
  | [] => by
      rw [combine]
      exact adds_pure _
  | e :: rest => by
      rw [combine, calleesOf]
      refine e.adds_bind (adds_value layout e) fun next => ?_
      exact (adds_intrinsic _ _ _).then fun joined => adds_combine layout operator joined rest

end

/-! ## Statements -/

/-- The callees of the calls in an expression that may be missing. -/
def calleesOf? (layout : Layout) (e : Option Expr) : List Callee := calleesOf layout e.toList

mutual

/-- The callees of the calls in a statement. -/
def Stmt.callees (layout : Layout) : Stmt → List Callee
  | .located _ inner => inner.callees layout
  | .expression e => e.callees layout
  | .declare _ initial => calleesOf? layout initial
  | .assign target source | .update _ target source =>
      source.callees layout ++ target.callees layout
  | .assignAll targets source => source.callees layout ++ calleesOf layout targets
  | .ret es => calleesOf layout es
  | .ifElse test yes no =>
      test.callees layout ++ (calleesOfBlock layout yes ++ calleesOfBlock layout no)
  | .forEach _ iterable body => iterable.callees layout ++ calleesOfBlock layout body
  | .assert test message => test.callees layout ++ calleesOf? layout message
  | .raise exception => calleesOf? layout exception
  | .skip | .breakLoop | .continueLoop | .nop => []

/-- The callees of the calls in statements. -/
def calleesOfBlock (layout : Layout) : List Stmt → List Callee
  | [] => []
  | s :: rest => s.callees layout ++ calleesOfBlock layout rest

end

theorem calleesOfBlock_eq (layout : Layout) (body : List Stmt) :
    calleesOfBlock layout body = body.flatMap (Stmt.callees layout) := by
  induction body with
  | nil => rfl
  | cons s rest ih => rw [calleesOfBlock, ih, List.flatMap_cons]

theorem adds_expression (layout : Layout) (e : Expr) :
    Adds (expression layout e) (e.callees layout) :=
  (adds_value layout e).before fun r => e.adds_result r

theorem adds_effect? (layout : Layout) (e : Option Expr) :
    Adds (effect? layout e) (calleesOf? layout e) := by
  cases e with
  | none => exact adds_pure ()
  | some e =>
      rw [effect?, calleesOf?, Option.toList_some, calleesOf, calleesOf, List.append_nil]
      exact (adds_value layout e).before fun _ => adds_pure ()

theorem adds_place (layout : Layout) (e : Expr) : Adds (place layout e) (e.callees layout) := by
  cases e with
  | name id =>
      refine (adds_variableNamed? layout id).then fun r => ?_
      cases r with
      | none => exact adds_throw _
      | some operand => exact adds_pure operand
  | _ => exact adds_expression layout _

theorem adds_assignComponents (layout : Layout) (source : OperandId) (es : List Expr) :
    ∀ position, Adds (assignComponents layout source position es) (calleesOf layout es) := by
  induction es with
  | nil =>
      intro position
      exact adds_pure ()
  | cons e rest ih =>
      intro position
      rw [assignComponents, calleesOf]
      refine (adds_place layout e).bind fun slot => ?_
      exact (adds_intrinsicInto _ _ slot).then fun _ => ih (position + 1)

theorem adds_declare (layout : Layout) (binding : Binding) (initial : Option Expr) :
    Adds (declare layout binding initial) (calleesOf? layout initial) := by
  cases initial with
  | none => exact (adds_declareLocal _ _).then fun _ => adds_pure ()
  | some e =>
      rw [declare, calleesOf?, Option.toList_some, calleesOf, calleesOf, List.append_nil]
      refine (adds_expression layout e).before fun computed => ?_
      exact (adds_declareLocal _ _).then fun declared => adds_assign _ _ _

theorem adds_readable (binding : Except FrontEndError Binding) : Adds (readable binding) [] := by
  cases binding with
  | ok binding => exact adds_pure binding
  | error e => exact adds_throw e

mutual

theorem adds_statement (layout : Layout) : (s : Stmt) →
    Adds (statement layout s) (s.callees layout)
  | .located span inner => by
      rw [statement, Stmt.callees]
      exact (adds_annotate span).then fun _ => adds_statement layout inner
  | .skip => by
      rw [statement]
      exact adds_pure ()
  | .expression e => by
      rw [statement, Stmt.callees]
      exact (adds_value layout e).before fun _ => adds_pure ()
  | .declare binding initial => by
      rw [statement, Stmt.callees]
      exact (adds_readable binding).then fun binding => adds_declare layout binding initial
  | .assign target source => by
      rw [statement, Stmt.callees]
      refine (adds_expression layout source).bind fun computed => ?_
      refine (adds_place layout target).before fun slot => ?_
      exact (adds_tyOf slot).then fun ty => adds_assign _ _ _
  | .assignAll targets source => by
      rw [statement, Stmt.callees]
      refine (adds_expression layout source).bind fun computed => ?_
      exact adds_assignComponents layout computed targets 0
  | .update operator target source => by
      rw [statement, Stmt.callees]
      refine (adds_expression layout source).bind fun right => ?_
      refine (adds_place layout target).before fun slot => ?_
      refine (adds_tyOf slot).then fun ty => (adds_intrinsic _ _ _).then fun updated => ?_
      exact adds_assign _ _ _
  | .ret es => by
      rw [statement, Stmt.callees]
      exact (adds_values layout es).before fun operands => adds_terminate _
  | .ifElse test yes [] => by
      rw [statement, Stmt.callees, calleesOfBlock, List.append_nil]
      refine (adds_expression layout test).bind fun condition => adds_newNode.then fun yesNode => ?_
      refine adds_newNode.then fun join => (adds_pure join).then fun noNode => ?_
      refine (adds_terminate _).then fun _ => (adds_switchTo _).then fun _ => ?_
      refine (adds_inScope (adds_statements layout yes)).before fun _ => ?_
      exact (adds_terminate _).then fun _ => adds_switchTo join
  | .ifElse test yes (first :: rest) => by
      rw [statement, Stmt.callees]
      refine (adds_expression layout test).bind fun condition => adds_newNode.then fun yesNode => ?_
      refine adds_newNode.then fun join => adds_newNode.then fun noNode => ?_
      refine (adds_terminate _).then fun _ => (adds_switchTo _).then fun _ => ?_
      refine (adds_inScope (adds_statements layout yes)).bind fun _ => ?_
      refine (adds_terminate _).then fun _ => (adds_switchTo _).then fun _ => ?_
      refine (adds_inScope (adds_statements layout (first :: rest))).before fun _ => ?_
      exact (adds_terminate _).then fun _ => adds_switchTo join
  | .forEach binding iterable body => by
      rw [statement, Stmt.callees]
      refine (adds_expression layout iterable).bind fun source => ?_
      refine (adds_readable binding).then fun binding => adds_inScope ?_
      refine (adds_declareLocal _ _).then fun declared => adds_newNode.then fun header => ?_
      refine (adds_terminate _).then fun _ => (adds_switchTo _).then fun _ => ?_
      refine (adds_builtin _ _).then fun hasNext => adds_newNode.then fun bodyNode => ?_
      refine adds_newNode.then fun exit => (adds_terminate _).then fun _ => ?_
      refine (adds_inLoop _ _ ?_).before fun _ => adds_switchTo _
      refine (adds_switchTo _).then fun _ => (adds_refer _ _ _ _).then fun element => ?_
      refine (adds_assign _ _ _).then fun _ => ?_
      exact (adds_statements layout body).before fun _ => adds_terminate _
  | .assert test message => by
      rw [statement, Stmt.callees]
      refine (adds_expression layout test).bind fun condition => adds_newNode.then fun pass => ?_
      refine adds_newNode.then fun fail => (adds_terminate _).then fun _ => ?_
      refine (adds_switchTo _).then fun _ => (adds_effect? layout message).before fun _ => ?_
      exact (adds_terminate _).then fun _ => adds_switchTo _
  | .raise exception => by
      rw [statement, Stmt.callees]
      exact (adds_effect? layout exception).before fun _ => adds_terminate _
  | .breakLoop => by
      rw [statement]
      exact adds_leaveTo _
  | .continueLoop => by
      rw [statement]
      exact adds_leaveTo _
  | .nop => by
      rw [statement]
      exact adds_emit .nop

theorem adds_statements (layout : Layout) : (body : List Stmt) →
    Adds (statements layout body) (calleesOfBlock layout body)
  | [] => by
      rw [statements]
      exact adds_pure ()
  | s :: rest => by
      rw [statements, calleesOfBlock]
      exact (adds_statement layout s).bind fun _ => adds_statements layout rest

end

theorem adds_declareAll (bindings : List Binding) : Adds (declareAll bindings) [] := by
  induction bindings with
  | nil => exact adds_pure _
  | cons binding rest ih =>
      rw [declareAll]
      exact (adds_declareLocal _ _).then fun first => ih.then fun others => adds_pure _

/-- Lowering a definition adds the callees of its body. -/
theorem Definition.adds_lower (layout : Layout) (definition : Definition) :
    Adds (definition.lower layout) (calleesOfBlock layout definition.body) := by
  unfold Definition.lower
  split
  · exact adds_throw _
  · refine (adds_declareAll _).then fun parameters => Adds.then (adds_modify fun _ => rfl) fun _ => ?_
    exact adds_statements layout definition.body

end ContractCalls.Vyper
