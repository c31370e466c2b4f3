/-
# The lowering of Vyper keeps drafts sound

One lemma for each function of the lowering, in the order of the lowering, as
for Solidity.  A name is looked up in the scopes first and among the state
variables next, and either way it leads to an operand that is there.
-/
import ContractCalls.Proofs.Body.Build
import ContractCalls.Vyper.Lowering

namespace ContractCalls.Vyper

variable {d : Draft}

theorem Expr.builds_result (e : Expr) {r : Option OperandId} (inv : d.Inv)
    (hr : ∀ id ∈ r, d.body.Knows id) : Builds d (e.result r) fun id b => b.Knows id := by
  cases r with
  | none => exact .throw
  | some id => exact .pure inv (hr id rfl)

/-- An expression that has to have a result, and what is done with it. -/
theorem Expr.builds_bind {β : Type} {x : Build (Option OperandId)} {f : OperandId → Build β}
    {ok : β → Body → Prop} (e : Expr) (hx : Builds d x fun r b => ∀ id ∈ r, b.Knows id)
    (hf : ∀ id d', d.Reaches d' → d'.body.Knows id → Builds d' (f id) ok) :
    Builds d (x >>= fun r => e.result r >>= f) ok :=
  hx.require e.builds_result hf

/-! ## Names -/

theorem builds_variableNamed? (layout : Layout) (inv : d.Inv) (name : String) :
    Builds d (variableNamed? layout name) fun r b => ∀ id ∈ r, b.Knows id := by
  refine .get ?_
  split
  · next operand hlookup =>
      exact .pure inv fun id hid => Option.some.inj hid ▸ inv.lookup? hlookup
  · exact (Builds.state inv _ _).mapSome
  · exact .pure inv fun _ h => by cases h

theorem builds_nameValue (layout : Layout) (inv : d.Inv) (name : String) :
    Builds d (nameValue layout name) fun id b => b.Knows id := by
  refine (builds_variableNamed? layout inv name).bind fun r d₁ r₁ hr => ?_
  cases r with
  | none => exact .builtin r₁.inv _ _
  | some operand => exact .pure r₁.inv (hr operand rfl)

theorem builds_environmentValue? {layout : Layout} (inv : d.Inv) {base : Expr} {name : String}
    {x : Build OperandId} (h : environmentValue? layout base name = some x) :
    Builds d x fun id b => b.Knows id := by
  unfold environmentValue? at h
  split at h
  · split at h
    · cases h
      exact .state inv _ _
    · split at h
      · cases h
        exact .builtin inv _ _
      · cases h
  · cases h

/-! ## Operations -/

theorem builds_applyUnary (inv : d.Inv) (form : UnaryForm) (operand : OperandId) :
    Builds d (applyUnary form operand) fun id b => b.Knows id := by
  refine (Builds.tyOf inv operand).bind fun ty d₁ r₁ _ => ?_
  cases form with
  | not => exact .unary r₁.inv _ _ _
  | invert => exact .unary r₁.inv _ _ _
  | negate =>
      refine (Builds.constant r₁.inv (.uint 0) ty).bind fun zero d₂ r₂ _ => ?_
      exact .intrinsic r₂.inv _ _ _

theorem builds_typesOf (inv : d.Inv) (operands : List OperandId) :
    Builds d (typesOf operands) Done :=
  (Builds.arena inv).bind fun _ _ r₁ _ => .done r₁.inv

theorem builds_callResult (layout : Layout) (inv : d.Inv) (callee : Callee) (name : String) :
    Builds d (callResult layout callee name) fun r b => ∀ id ∈ r, b.Knows id := by
  unfold callResult
  split
  · exact .resultFor inv _
  · exact (Builds.temporary inv _).mapSome

theorem builds_emitCall (layout : Layout) (inv : d.Inv) (callee : Callee) (name : String)
    (arguments : List OperandId) :
    Builds d (emitCall layout callee name arguments) fun r b => ∀ id ∈ r, b.Knows id := by
  refine (builds_callResult layout inv callee name).bind fun result d₁ r₁ hresult => ?_
  refine (Builds.call r₁.inv callee _ result).seq fun d₂ r₂ => ?_
  refine .revertIf r₂.inv (isRevert callee) fun d₃ r₃ => .pure r₃.inv ?_
  exact fun id hid => (r₂.trans r₃).knows (hresult id hid)

/-! ## Expressions -/

mutual

theorem builds_value (layout : Layout) : (e : Expr) → {d : Draft} → d.Inv →
    Builds d (value layout e) fun r b => ∀ id ∈ r, b.Knows id
  | .absent field nodeType, d, inv => by
      rw [value]
      exact .throw
  | .literal constant ty, d, inv => by
      rw [value]
      exact (Builds.constant inv constant ty).mapSome
  | .name id, d, inv => by
      rw [value]
      exact (builds_nameValue layout inv id).mapSome
  | .member base name, d, inv => by
      rw [value]
      split
      · next operand hoperand => exact (builds_environmentValue? inv hoperand).mapSome
      · refine base.builds_bind (builds_value layout base inv) fun object d₁ r₁ hobject => ?_
        exact (Builds.refer r₁.inv _ _ hobject _).mapSome
  | .subscript base key, d, inv => by
      rw [value]
      refine base.builds_bind (builds_value layout base inv) fun object d₁ r₁ hobject => ?_
      refine key.builds_bind (builds_value layout key r₁.inv) fun position d₂ r₂ _ => ?_
      refine (Builds.tyOf r₂.inv object).bind fun ty d₃ r₃ _ => ?_
      exact (Builds.refer r₃.inv _ _ ((r₂.trans r₃).knows hobject) _).mapSome
  | .call callee label arguments, d, inv => by
      have hcallee := builds_value layout callee inv
      have hcall : ∀ {d' : Draft} (target : Callee) (name : String), d'.Inv →
          Builds d' (do emitCall layout target name (← values layout arguments))
            fun r b => ∀ id ∈ r, b.Knows id := fun target name inv' =>
        (builds_values layout arguments inv').bind fun operands d₁ r₁ _ =>
          builds_emitCall layout r₁.inv target name operands
      cases callee with
      | absent field nodeType =>
          rw [value]
          exact .throw
      | name id =>
          rw [value]
          exact hcall _ _ inv
      | member base name =>
          rw [value]
          split
          · exact hcall _ _ inv
          · exact (builds_value layout base inv).seq fun d₁ r₁ => hcall _ _ r₁.inv
      | _ =>
          simp only [value]
          exact Builds.seq hcallee fun d₁ r₁ => hcall _ _ r₁.inv
  | .construct typeName names members, d, inv => by
      rw [value]
      refine (builds_values layout members inv).bind fun operands d₁ r₁ _ => ?_
      exact (Builds.newStructure r₁.inv _ _ _).mapSome
  | .marked nodeType inner, d, inv => by
      rw [value]
      exact builds_value layout inner inv
  | .binary operator left right, d, inv => by
      rw [value]
      refine left.builds_bind (builds_value layout left inv) fun first d₁ r₁ _ => ?_
      refine right.builds_bind (builds_value layout right r₁.inv) fun second d₂ r₂ _ => ?_
      refine (Builds.tyOf r₂.inv first).bind fun ty d₃ r₃ _ => ?_
      exact (Builds.intrinsic r₃.inv _ _ _).mapSome
  | .compare operator left right, d, inv => by
      rw [value]
      refine left.builds_bind (builds_value layout left inv) fun first d₁ r₁ _ => ?_
      refine right.builds_bind (builds_value layout right r₁.inv) fun second d₂ r₂ _ => ?_
      exact (Builds.intrinsic r₂.inv _ _ _).mapSome
  | .logical operator [], d, inv => by
      rw [value]
      exact .throw
  | .logical operator (first :: rest), d, inv => by
      rw [value]
      refine first.builds_bind (builds_value layout first inv) fun start d₁ r₁ hstart => ?_
      exact (builds_combine layout operator rest r₁.inv hstart).mapSome
  | .unary form operand, d, inv => by
      rw [value]
      refine operand.builds_bind (builds_value layout operand inv) fun id d₁ r₁ _ => ?_
      exact (builds_applyUnary r₁.inv form id).mapSome
  | .tuple elements, d, inv => by
      rw [value]
      refine (builds_values layout elements inv).bind fun operands d₁ r₁ _ => ?_
      refine (builds_typesOf r₁.inv operands).bind fun types d₂ r₂ _ => ?_
      exact (Builds.intrinsic r₂.inv _ _ _).mapSome
  | .list elements, d, inv => by
      rw [value]
      refine (builds_values layout elements inv).bind fun operands d₁ r₁ _ => ?_
      refine (builds_typesOf r₁.inv operands).bind fun types d₂ r₂ _ => ?_
      exact (Builds.intrinsic r₂.inv _ _ _).mapSome
  | .conditional test yes no, d, inv => by
      rw [value]
      refine test.builds_bind (builds_value layout test inv) fun condition d₁ r₁ _ => ?_
      refine yes.builds_bind (builds_value layout yes r₁.inv) fun first d₂ r₂ _ => ?_
      refine no.builds_bind (builds_value layout no r₂.inv) fun second d₃ r₃ _ => ?_
      refine (Builds.tyOf r₃.inv first).bind fun ty d₄ r₄ _ => ?_
      exact (Builds.intrinsic r₄.inv _ _ _).mapSome
  | .dict members, d, inv => by
      rw [value]
      refine (builds_values layout members inv).bind fun operands d₁ r₁ _ => ?_
      exact (Builds.intrinsic r₁.inv _ _ _).mapSome
  | .unlisted nodeType children, d, inv => by
      rw [value]
      refine (builds_effects layout children inv).seq fun d₁ r₁ => ?_
      exact (Builds.builtin r₁.inv _ _).mapSome

theorem builds_values (layout : Layout) : (es : List Expr) → {d : Draft} → d.Inv →
    Builds d (values layout es) fun ids b => ∀ id ∈ ids, b.Knows id
  | [], d, inv => by
      rw [values]
      exact .pure inv fun _ h => absurd h List.not_mem_nil
  | e :: rest, d, inv => by
      rw [values]
      refine e.builds_bind (builds_value layout e inv) fun first d₁ r₁ hfirst => ?_
      refine (builds_values layout rest r₁.inv).bind fun ids d₂ r₂ hids => .pure r₂.inv ?_
      exact List.forall_mem_cons.mpr ⟨r₂.knows hfirst, hids⟩

theorem builds_effects (layout : Layout) : (es : List Expr) → {d : Draft} → d.Inv →
    Builds d (effects layout es) Done
  | [], d, inv => by
      rw [effects]
      exact .done inv
  | e :: rest, d, inv => by
      rw [effects]
      exact (builds_value layout e inv).seq fun d₁ r₁ => builds_effects layout rest r₁.inv

theorem builds_combine (layout : Layout) (operator : String) : (es : List Expr) → {d : Draft} →
    d.Inv → {start : OperandId} → d.body.Knows start →
    Builds d (combine layout operator start es) fun id b => b.Knows id
  | [], d, inv, start, hstart => by
      rw [combine]
      exact .pure inv hstart
  | e :: rest, d, inv, start, hstart => by
      rw [combine]
      refine e.builds_bind (builds_value layout e inv) fun next d₁ r₁ _ => ?_
      refine (Builds.intrinsic r₁.inv _ [start, next] _).bind fun both d₂ r₂ hboth => ?_
      exact builds_combine layout operator rest r₂.inv hboth

end

theorem builds_expression (layout : Layout) (e : Expr) (inv : d.Inv) :
    Builds d (expression layout e) fun id b => b.Knows id :=
  (builds_value layout e inv).bind fun _ _ r₁ hr => e.builds_result r₁.inv hr

theorem builds_effect? (layout : Layout) (e : Option Expr) (inv : d.Inv) :
    Builds d (effect? layout e) Done := by
  cases e with
  | none => exact .done inv
  | some e => exact (builds_value layout e inv).seq fun d₁ r₁ => .done r₁.inv

/-! ## Statements -/

theorem builds_place (layout : Layout) (e : Expr) (inv : d.Inv) :
    Builds d (place layout e) fun id b => b.Knows id := by
  unfold place
  split
  · refine (builds_variableNamed? layout inv _).bind fun r d₁ r₁ hr => ?_
    cases r with
    | none => exact .throw
    | some operand => exact .pure r₁.inv (hr operand rfl)
  · exact builds_expression layout _ inv

theorem builds_assignComponents (layout : Layout) (source : OperandId) : (position : Nat) →
    (es : List Expr) → {d : Draft} → d.Inv →
    Builds d (assignComponents layout source position es) Done
  | _, [], d, inv => .done inv
  | position, e :: rest, d, inv => by
      refine (builds_place layout e inv).bind fun slot d₁ r₁ _ => ?_
      refine (Builds.intrinsicInto r₁.inv _ [source] slot).seq fun d₂ r₂ => ?_
      exact builds_assignComponents layout source (position + 1) rest r₂.inv

theorem builds_declare (layout : Layout) (binding : Binding) (initial : Option Expr)
    (inv : d.Inv) : Builds d (declare layout binding initial) Done := by
  cases initial with
  | none => exact (Builds.declareLocal inv _ _).seq fun d₁ r₁ => .done r₁.inv
  | some initial =>
      refine (builds_expression layout initial inv).bind fun computed d₁ r₁ _ => ?_
      refine (Builds.declareLocal r₁.inv _ _).bind fun declared d₂ r₂ _ => ?_
      exact .assign r₂.inv _ _ _

theorem builds_readable (binding : Except FrontEndError Binding) (inv : d.Inv) :
    Builds d (readable binding) Done := by
  cases binding with
  | error e => exact .throw
  | ok binding => exact .done inv

mutual

theorem builds_statement (layout : Layout) : (s : Stmt) → {d : Draft} → d.Inv →
    Builds d (statement layout s) Done
  | .located span inner, d, inv => by
      rw [statement]
      exact (Builds.annotate inv span).seq fun d₁ r₁ => builds_statement layout inner r₁.inv
  | .skip, d, inv => by
      rw [statement]
      exact .done inv
  | .expression e, d, inv => by
      rw [statement]
      exact (builds_value layout e inv).seq fun d₁ r₁ => .done r₁.inv
  | .declare binding initial, d, inv => by
      rw [statement]
      refine (builds_readable binding inv).bind fun binding d₁ r₁ _ => ?_
      exact builds_declare layout binding initial r₁.inv
  | .assign target source, d, inv => by
      rw [statement]
      refine (builds_expression layout source inv).bind fun computed d₁ r₁ _ => ?_
      refine (builds_place layout target r₁.inv).bind fun slot d₂ r₂ _ => ?_
      exact (Builds.tyOf r₂.inv slot).bind fun ty d₃ r₃ _ => .assign r₃.inv _ _ _
  | .assignAll targets source, d, inv => by
      rw [statement]
      refine (builds_expression layout source inv).bind fun computed d₁ r₁ _ => ?_
      exact builds_assignComponents layout computed 0 targets r₁.inv
  | .update operator target source, d, inv => by
      rw [statement]
      refine (builds_expression layout source inv).bind fun right d₁ r₁ _ => ?_
      refine (builds_place layout target r₁.inv).bind fun slot d₂ r₂ _ => ?_
      refine (Builds.tyOf r₂.inv slot).bind fun ty d₃ r₃ _ => ?_
      exact (Builds.intrinsic r₃.inv _ _ _).bind fun _ d₄ r₄ _ => .assign r₄.inv _ _ _
  | .ret es, d, inv => by
      rw [statement]
      exact (builds_values layout es inv).bind fun ids d₁ r₁ hids => .ret r₁.inv hids
  | .ifElse test yes no, d, inv => by
      rw [statement]
      refine (builds_expression layout test inv).bind fun condition d₁ r₁ hcondition => ?_
      refine (Builds.newNode r₁.inv).bind fun yesNode d₂ r₂ hyes => ?_
      refine (Builds.newNode r₂.inv).bind fun join d₃ r₃ hjoin => ?_
      have hcondition := (r₂.trans r₃).knows hcondition
      have hyes := r₃.target hyes
      have hno : ∀ d' : Draft, d'.Inv → Builds d' (statements layout no).inScope Done :=
        fun d' inv' => .inScope inv' fun d'' r => builds_statements layout no r.inv
      have hyesArm : ∀ d' : Draft, d'.Inv → Builds d' (statements layout yes).inScope Done :=
        fun d' inv' => .inScope inv' fun d'' r => builds_statements layout yes r.inv
      -- without statements in the other branch the join takes the place of its node
      by_cases hempty : no.isEmpty = true
      · simp only [hempty, if_true, Bool.not_true, Bool.false_eq_true, if_false]
        refine .pureBind ?_
        refine (Builds.branch r₃.inv hcondition hyes hjoin).seq fun d₄ r₄ => ?_
        refine .armThen r₄.inv (r₄.target hyes) (r₄.target hjoin)
          (fun d₅ r₅ => hyesArm d₅ r₅.inv) fun d₅ r₅ => ?_
        exact .switchTo r₅.inv ((r₄.trans r₅).target hjoin)
      · simp only [hempty, Bool.not_false, if_true]
        refine (Builds.newNode r₃.inv).bind fun noNode d₄ r₄ hnoNode => ?_
        have hjoin := r₄.target hjoin
        refine (Builds.branch r₄.inv (r₄.knows hcondition) (r₄.target hyes) hnoNode).seq
          fun d₅ r₅ => ?_
        refine .armThen r₅.inv ((r₄.trans r₅).target hyes) (r₅.target hjoin)
          (fun d₆ r₆ => hyesArm d₆ r₆.inv) fun d₆ r₆ => ?_
        have r := r₅.trans r₆
        refine .armThen r₆.inv (r.target hnoNode) (r.target hjoin)
          (fun d₇ r₇ => hno d₇ r₇.inv) fun d₇ r₇ => ?_
        exact .switchTo r₇.inv ((r.trans r₇).target hjoin)
  | .forEach binding iterable body, d, inv => by
      rw [statement]
      refine (builds_expression layout iterable inv).bind fun source d₁ r₁ hsource => ?_
      refine (builds_readable binding r₁.inv).bind fun binding d₂ r₂ _ => ?_
      refine .inScope r₂.inv fun d₃ r₃ => ?_
      refine (Builds.declareLocal r₃.inv _ _).bind fun declared d₄ r₄ _ => ?_
      refine (Builds.newNode r₄.inv).bind fun header d₅ r₅ hheader => ?_
      refine (Builds.goto r₅.inv hheader).seq fun d₆ r₆ => ?_
      refine (Builds.switchTo r₆.inv (r₆.target hheader)).seq fun d₇ r₇ => ?_
      refine (Builds.builtin r₇.inv _ _).bind fun hasNext d₈ r₈ hhasNext => ?_
      refine (Builds.newNode r₈.inv).bind fun bodyNode d₉ r₉ hbody => ?_
      refine (Builds.newNode r₉.inv).bind fun exit d₁₀ r₁₀ hexit => ?_
      -- the source is known since before the scope, and is referred to only inside the loop
      have r := ((((r₆.trans r₇).trans r₈).trans r₉).trans r₁₀)
      have hheader := r.target hheader
      have hsource := ((((r₂.trans r₃).trans r₄).trans r₅).trans r).knows hsource
      have hbody := r₁₀.target hbody
      refine (Builds.branch r₁₀.inv ((r₉.trans r₁₀).knows hhasNext) hbody hexit).seq
        fun d₁₁ r₁₁ => ?_
      refine (Builds.inLoop r₁₁.inv (r₁₁.target hheader) (r₁₁.target hexit)
        fun d₁₂ r₁₂ => ?_).seq fun d₁₂ r₁₂ => ?_
      · have r := r₁₁.trans r₁₂
        refine (Builds.switchTo r.inv (r.target hbody)).seq fun d₁₃ r₁₃ => ?_
        refine (Builds.refer r₁₃.inv _ _ ((r.trans r₁₃).knows hsource) _).bind
          fun element d₁₄ r₁₄ _ => ?_
        refine (Builds.assign r₁₄.inv _ _ _).seq fun d₁₅ r₁₅ => ?_
        refine (builds_statements layout body r₁₅.inv).seq fun d₁₆ r₁₆ => ?_
        exact .goto r₁₆.inv ((((r.trans r₁₃).trans r₁₄).trans (r₁₅.trans r₁₆)).target hheader)
      · exact .switchTo r₁₂.inv ((r₁₁.trans r₁₂).target hexit)
  | .assert test message, d, inv => by
      rw [statement]
      refine (builds_expression layout test inv).bind fun condition d₁ r₁ hcondition => ?_
      refine (Builds.newNode r₁.inv).bind fun pass d₂ r₂ hpass => ?_
      refine (Builds.newNode r₂.inv).bind fun fail d₃ r₃ hfail => ?_
      have hpass := r₃.target hpass
      refine (Builds.branch r₃.inv ((r₂.trans r₃).knows hcondition) hpass hfail).seq
        fun d₄ r₄ => ?_
      refine (Builds.switchTo r₄.inv (r₄.target hfail)).seq fun d₅ r₅ => ?_
      refine (builds_effect? layout message r₅.inv).seq fun d₆ r₆ => ?_
      refine (Builds.revert r₆.inv).seq fun d₇ r₇ => ?_
      exact .switchTo r₇.inv (((r₄.trans r₅).trans (r₆.trans r₇)).target hpass)
  | .raise exception, d, inv => by
      rw [statement]
      exact (builds_effect? layout exception inv).seq fun d₁ r₁ => .revert r₁.inv
  | .breakLoop, d, inv => by
      rw [statement]
      exact .leaveTo inv fun _ => Or.inr rfl
  | .continueLoop, d, inv => by
      rw [statement]
      exact .leaveTo inv fun _ => Or.inl rfl
  | .nop, d, inv => by
      rw [statement]
      exact .nop inv

theorem builds_statements (layout : Layout) : (ss : List Stmt) → {d : Draft} → d.Inv →
    Builds d (statements layout ss) Done
  | [], d, inv => by
      rw [statements]
      exact .done inv
  | s :: rest, d, inv => by
      rw [statements]
      exact (builds_statement layout s inv).seq fun d₁ r₁ => builds_statements layout rest r₁.inv

end

theorem builds_declareAll : (bindings : List Binding) → {d : Draft} → d.Inv →
    Builds d (declareAll bindings) fun ids b => ∀ id ∈ ids, b.Knows id
  | [], d, inv => .pure inv fun _ h => absurd h List.not_mem_nil
  | binding :: rest, d, inv => by
      refine (Builds.declareLocal inv _ _).bind fun first d₁ r₁ hfirst => ?_
      refine (builds_declareAll rest r₁.inv).bind fun ids d₂ r₂ hids => .pure r₂.inv ?_
      exact List.forall_mem_cons.mpr ⟨r₂.knows hfirst, hids⟩

/-- Lowering a definition keeps the invariant. -/
theorem Definition.builds_lower (layout : Layout) (definition : Definition) (inv : d.Inv) :
    Builds d (definition.lower layout) Done := by
  unfold Definition.lower
  split
  · exact .throw
  · next bindings _ =>
      refine (builds_declareAll bindings inv).bind fun parameters d₁ r₁ hparameters => ?_
      refine (Builds.modify (r₁.inv.setSignature hparameters
        fun _ h => absurd h List.not_mem_nil)).seq fun d₂ r₂ => ?_
      exact builds_statements layout definition.body r₂.inv

end ContractCalls.Vyper
