/-
# The lowering of Solidity keeps drafts sound

One lemma for each function of the lowering, in the order of the lowering: a
value it gives is an operand that is there, and the draft keeps its invariant.
Expressions and statements go by recursion on the syntax, with one case for
each constructor.  An expression may end the current node in its middle, and
what follows it then stands in a node of its own; nothing here depends on which
node is the current one, so such expressions need no case of their own.
-/
import ContractCalls.Proofs.Body.Build
import ContractCalls.Solidity.Lowering

namespace ContractCalls.Solidity

variable {d : Draft}

theorem Expr.builds_ensure (e : Expr) (inv : d.Inv) : Builds d e.ensure Done := by
  unfold Expr.ensure
  split
  · exact .throw
  · exact .done inv

theorem Expr.builds_result (e : Expr) {r : Option OperandId} (inv : d.Inv)
    (hr : ∀ id ∈ r, d.body.Knows id) : Builds d (e.result r) fun id b => b.Knows id := by
  cases r with
  | none => exact .throw
  | some id => exact .pure inv (hr id rfl)

/-- An expression that has to have a result, and what is done with it. -/
theorem Expr.builds_bind {β : Type} {x : Build (Option OperandId)} {f : OperandId → Build β}
    {ok : β → Body → Prop} (e : Expr) (hx : Builds d x fun r b => ∀ id ∈ r, b.Knows id)
    (hf : ∀ id d', d.Reaches d' → d'.body.Knows id → Builds d' (f id) ok) :
    Builds d (x >>= fun r => e.result r >>= f) ok :=
  hx.require e.builds_result hf

/-! ## Operands of expressions -/

theorem Env.builds_identifier (env : Env) (inv : d.Inv) (text : TypeText) (name : String)
    (declaration : Option Int) :
    Builds d (env.identifier text name declaration) fun id b => b.Knows id := by
  refine .get ?_
  split
  · next operand hdeclared =>
      obtain ⟨id, -, hid⟩ := Option.bind_eq_some_iff.mp hdeclared
      exact .pure inv (inv.declared id operand hid)
  · split
    · exact .state inv _ _
    · exact .state inv _ _
    · exact .builtin inv _ _
    · split
      · exact .builtin inv _ _
      · split
        · next operand hlookup => exact .pure inv (inv.lookup? hlookup)
        · exact .throw

theorem builds_stepBy (inv : d.Inv) (operator : String) (givesOld : Bool) (ty : Ty)
    (target : OperandId) :
    Builds d (stepBy operator givesOld ty target) fun id b => b.Knows id := by
  -- with or without a copy of the old value, the rest is the same
  have hrest : ∀ {old : Option OperandId} {d₁ : Draft}, d₁.Inv →
      (∀ id ∈ old, d₁.body.Knows id) → Builds d₁ (do
        let one ← Build.constant (.uint 1) ty
        let updated ← Build.intrinsic (.binary operator) [target, one] ty
        Build.assign target updated ty
        return old.getD updated) fun id b => b.Knows id := by
    intro old d₁ inv₁ hold
    refine (Builds.constant inv₁ (.uint 1) ty).bind fun one d₂ r₂ _ => ?_
    refine (Builds.intrinsic r₂.inv _ [target, one] ty).bind fun updated d₃ r₃ hupdated => ?_
    refine (Builds.assign r₃.inv target updated ty).seq fun d₄ r₄ => .pure r₄.inv ?_
    cases old with
    | none => exact r₄.knows hupdated
    | some copy => exact ((r₂.trans r₃).trans r₄).knows (hold copy rfl)
  unfold stepBy
  cases givesOld with
  | true =>
      refine (Builds.temporary inv ty).bind fun copy d₁ r₁ hcopy => ?_
      refine (Builds.assign r₁.inv copy target ty).seq fun d₂ r₂ => ?_
      exact .pureBind (hrest r₂.inv fun id hid => Option.some.inj hid ▸ r₂.knows hcopy)
  | false => exact .pureBind (hrest inv fun _ h => by cases h)

theorem builds_applyUnary (inv : d.Inv) (form : UnaryForm) (ty : Ty) {operand : OperandId}
    (hoperand : d.body.Knows operand) :
    Builds d (applyUnary form ty operand) fun id b => b.Knows id := by
  cases form with
  | direct token => exact .unary inv token operand ty
  | negate =>
      refine (Builds.constant inv (.uint 0) ty).bind fun zero d₁ r₁ _ => ?_
      exact .intrinsic r₁.inv _ _ _
  | step operator givesOld => exact builds_stepBy inv operator givesOld ty operand
  | delete =>
      refine (Builds.delete inv operand).seq fun d₁ r₁ => ?_
      exact .pure r₁.inv (r₁.knows hoperand)
  | plain => exact .pure inv hoperand

theorem builds_collect (inv : d.Inv) (isArray : Bool) (ty : Ty) (values : List OperandId) :
    Builds d (collect isArray ty values) fun id b => b.Knows id := by
  cases isArray with
  | true => exact .giving (.temporary inv ty) fun _ _ inv' => .intrinsicInto inv' _ _ _
  | false => exact .giving (.tuple inv ty) fun _ _ inv' => .intrinsicInto inv' _ _ _

/-! ## Calls -/

theorem builds_receive (inv : d.Inv) (use : ReceiverUse) (receiver : Expr)
    {value : Build (Option OperandId)} (args : CallArgs)
    (hvalue : ∀ d' : Draft, d'.Inv → Builds d' value fun r b => ∀ id ∈ r, b.Knows id) :
    Builds d (receive use receiver value args) Done := by
  refine (receiver.builds_ensure inv).seq fun d₁ r₁ => ?_
  cases use with
  | unused => exact .done r₁.inv
  | evaluated => exact (hvalue d₁ r₁.inv).seq fun d₂ r₂ => .done r₂.inv
  | attached => exact receiver.builds_bind (hvalue d₁ r₁.inv) fun _ d₂ r₂ _ => .done r₂.inv

theorem builds_emitCall (inv : d.Inv) (callee : Callee) (args : CallArgs) (ty : Ty) :
    Builds d (emitCall callee args ty) fun r b => ∀ id ∈ r, b.Knows id := by
  refine (Builds.resultFor inv ty).bind fun result d₁ r₁ hresult => ?_
  refine (Builds.call r₁.inv callee args result).seq fun d₂ r₂ => ?_
  refine .revertIf r₂.inv (isRevert callee) fun d₃ r₃ => .pure r₃.inv ?_
  exact fun id hid => (r₂.trans r₃).knows (hresult id hid)

theorem builds_emitCreation (inv : d.Inv) (created ty : Ty) (arguments : List OperandId) :
    Builds d (emitCreation created ty arguments) fun id b => b.Knows id := by
  unfold emitCreation
  split
  · exact .intrinsic inv _ _ _
  · exact .newElementary inv _ _

/-! ## Expressions -/

mutual

theorem builds_value (env : Env) : (e : Expr) → {d : Draft} → d.Inv →
    Builds d (value env e) fun r b => ∀ id ∈ r, b.Knows id
  | .absent field nodeType, d, inv => by
      rw [value]
      exact .throw
  | .literal text constant, d, inv => by
      rw [value]
      exact (Builds.constant inv constant _).mapSome
  | .identifier text name declaration, d, inv => by
      rw [value]
      exact (env.builds_identifier inv text name declaration).mapSome
  | .member text base name declaration, d, inv => by
      rw [value]
      refine (base.builds_ensure inv).seq fun d₁ r₁ => ?_
      split
      · exact (Builds.builtin r₁.inv _ _).mapSome
      · refine base.builds_bind (builds_value env base r₁.inv) fun object d₂ r₂ hobject => ?_
        exact (Builds.refer r₂.inv _ _ hobject _).mapSome
  | .index text base key, d, inv => by
      rw [value]
      refine base.builds_bind (builds_value env base inv) fun object d₁ r₁ hobject => ?_
      refine key.builds_bind (builds_value env key r₁.inv) fun position d₂ r₂ _ => ?_
      exact (Builds.refer r₂.inv _ _ (r₂.knows hobject) _).mapSome
  | .arrayType text base, d, inv => by
      rw [value]
      exact (Builds.builtin inv _ _).mapSome
  | .typeName text name, d, inv => by
      rw [value]
      exact (Builds.builtin inv _ _).mapSome
  | .creation text created, d, inv => by
      rw [value]
      exact (Builds.builtin inv _ _).mapSome
  | .range text base bounds, d, inv => by
      rw [value]
      refine base.builds_bind (builds_value env base inv) fun object d₁ r₁ _ => ?_
      refine (builds_values env bounds r₁.inv).bind fun limits d₂ r₂ _ => ?_
      exact (Builds.intrinsic r₂.inv _ _ _).mapSome
  | .binary text operator left right, d, inv => by
      rw [value]
      refine (left.builds_ensure inv).seq fun d₁ r₁ => ?_
      refine (right.builds_ensure r₁.inv).seq fun d₂ r₂ => ?_
      refine left.builds_bind (builds_value env left r₂.inv) fun first d₃ r₃ _ => ?_
      refine right.builds_bind (builds_value env right r₃.inv) fun second d₄ r₄ _ => ?_
      exact (Builds.intrinsic r₄.inv _ _ _).mapSome
  | .unary text form operand, d, inv => by
      rw [value]
      refine operand.builds_bind (builds_value env operand inv) fun id d₁ r₁ hid => ?_
      exact (builds_applyUnary r₁.inv form _ hid).mapSome
  | .assign text operator targetText target source, d, inv => by
      rw [value]
      refine (target.builds_ensure inv).seq fun d₁ r₁ => ?_
      refine source.builds_bind (builds_value env source r₁.inv) fun computed d₂ r₂ _ => ?_
      refine target.builds_bind (builds_value env target r₂.inv) fun place d₃ r₃ hplace => ?_
      -- what is stored differs with the operator, not how it is stored
      have hstore : ∀ {d₄ : Draft} (stored : OperandId), d₃.Reaches d₄ →
          Builds d₄ (do Build.assign place stored (Ty.ofText? targetText); return some place)
            fun r b => ∀ id ∈ r, b.Knows id := by
        intro d₄ stored r₄
        refine (Builds.assign r₄.inv place stored _).seq fun d₅ r₅ => .pure r₅.inv ?_
        intro id hid
        exact Option.some.inj hid ▸ (r₄.trans r₅).knows hplace
      cases operator with
      | none => exact hstore computed (.refl r₃.inv)
      | some operator =>
          exact (Builds.intrinsic r₃.inv _ _ _).bind fun stored d₄ r₄ _ => hstore stored r₄
  | .assignAll text targets source, d, inv => by
      rw [value]
      refine source.builds_bind (builds_value env source inv) fun computed d₁ r₁ hcomputed => ?_
      refine (builds_assignComponents env computed 0 targets r₁.inv).seq fun d₂ r₂ => ?_
      exact .pure r₂.inv fun id hid => Option.some.inj hid ▸ r₂.knows hcomputed
  | .conditional text condition yes no, d, inv => by
      rw [value]
      refine condition.builds_bind (builds_value env condition inv) fun test d₁ r₁ _ => ?_
      refine yes.builds_bind (builds_value env yes r₁.inv) fun first d₂ r₂ _ => ?_
      refine no.builds_bind (builds_value env no r₂.inv) fun second d₃ r₃ _ => ?_
      exact (Builds.intrinsic r₃.inv _ _ _).mapSome
  | .tuple text isArray components, d, inv => by
      -- parentheses: the only component of a tuple stands for the tuple
      by_cases h : ∃ inner, isArray = false ∧ components = [some inner]
      · obtain ⟨inner, hflag, hcomponents⟩ := h
        have hinner := builds_component env components inv inner (by simp [hcomponents])
        subst hflag hcomponents
        rw [value]
        exact hinner
      · rw [value]
        · refine (builds_present env components inv).bind fun operands d₁ r₁ _ => ?_
          exact (builds_collect r₁.inv isArray _ operands).mapSome
        · intro inner hflag hcomponents
          exact h ⟨inner, hflag, hcomponents⟩
  | .call text form options callee arguments names, d, inv => by
      rw [value]
      refine (builds_effects env options inv).seq fun d₁ r₁ => ?_
      refine (callee.builds_ensure r₁.inv).seq fun d₂ r₂ => ?_
      refine (builds_values env arguments r₂.inv).bind fun operands d₃ r₃ _ => ?_
      cases form with
      | conversion => exact (Builds.intrinsic r₃.inv _ _ _).mapSome
      | construction => exact (Builds.newStructure r₃.inv _ _ _).mapSome
      | ordinary =>
          have hcallee : ∀ d' : Draft, d'.Inv → Builds d' (value env callee) _ :=
            fun d' inv' => builds_value env callee inv'
          cases callee with
          | creation _ created => exact (builds_emitCreation r₃.inv _ _ operands).mapSome
          | member _ base _ _ =>
              have hbase : ∀ d' : Draft, d'.Inv → Builds d' (value env base) _ :=
                fun d' inv' => builds_value env base inv'
              refine (builds_receive r₃.inv _ base _ hbase).bind fun args d₄ r₄ _ => ?_
              exact builds_emitCall r₄.inv _ args _
          | _ =>
              refine (builds_receive r₃.inv _ _ _ hcallee).bind fun args d₄ r₄ _ => ?_
              exact builds_emitCall r₄.inv _ args _
  | .withOptions text function, d, inv => by
      rw [value]
      exact builds_value env function inv
  | .unsupported text nodeType label, d, inv => by
      rw [value]
      exact .throw

theorem builds_values (env : Env) : (es : List Expr) → {d : Draft} → d.Inv →
    Builds d (values env es) fun ids b => ∀ id ∈ ids, b.Knows id
  | [], d, inv => by
      rw [values]
      exact .pure inv fun _ h => absurd h List.not_mem_nil
  | e :: rest, d, inv => by
      rw [values]
      refine e.builds_bind (builds_value env e inv) fun first d₁ r₁ hfirst => ?_
      refine (builds_values env rest r₁.inv).bind fun ids d₂ r₂ hids => .pure r₂.inv ?_
      exact List.forall_mem_cons.mpr ⟨r₂.knows hfirst, hids⟩

theorem builds_present (env : Env) : (es : List (Option Expr)) → {d : Draft} → d.Inv →
    Builds d (present env es) Done
  | [], d, inv => by
      rw [present]
      exact .done inv
  | none :: rest, d, inv => by
      rw [present]
      exact builds_present env rest inv
  | some e :: rest, d, inv => by
      rw [present]
      refine e.builds_bind (builds_value env e inv) fun first d₁ r₁ _ => ?_
      exact (builds_present env rest r₁.inv).bind fun _ d₂ r₂ _ => .done r₂.inv

theorem builds_component (env : Env) : (es : List (Option Expr)) → {d : Draft} → d.Inv →
    (e : Expr) → some e ∈ es → Builds d (value env e) fun r b => ∀ id ∈ r, b.Knows id
  | [], _, _, _, h => absurd h List.not_mem_nil
  | none :: rest, d, inv, e, h => by
      rcases List.mem_cons.mp h with h | h
      · cases h
      · exact builds_component env rest inv e h
  | some first :: rest, d, inv, e, h => by
      rcases List.mem_cons.mp h with h | h
      · cases h
        exact builds_value env first inv
      · exact builds_component env rest inv e h

theorem builds_effects (env : Env) : (es : List Expr) → {d : Draft} → d.Inv →
    Builds d (effects env es) Done
  | [], d, inv => by
      rw [effects]
      exact .done inv
  | e :: rest, d, inv => by
      rw [effects]
      exact (builds_value env e inv).seq fun d₁ r₁ => builds_effects env rest r₁.inv

theorem builds_assignComponents (env : Env) (source : OperandId) : (position : Nat) →
    (es : List (Option Expr)) → {d : Draft} → d.Inv →
    Builds d (assignComponents env source position es) Done
  | _, [], d, inv => by
      rw [assignComponents]
      exact .done inv
  | position, none :: rest, d, inv => by
      rw [assignComponents]
      exact builds_assignComponents env source (position + 1) rest inv
  | position, some e :: rest, d, inv => by
      rw [assignComponents]
      refine e.builds_bind (builds_value env e inv) fun place d₁ r₁ _ => ?_
      refine (Builds.intrinsicInto r₁.inv _ [source] place).seq fun d₂ r₂ => ?_
      exact builds_assignComponents env source (position + 1) rest r₂.inv

end

theorem builds_expression (env : Env) (e : Expr) (inv : d.Inv) :
    Builds d (expression env e) fun id b => b.Knows id :=
  (builds_value env e inv).bind fun _ _ r₁ hr => e.builds_result r₁.inv hr

/-! ## Declarations -/

theorem builds_declare (inv : d.Inv) (decl : VarDecl) :
    Builds d (declare decl) fun r b => ∀ id ∈ r, b.Knows id := by
  unfold declare
  split
  · exact .pure inv fun _ h => by cases h
  · refine (Builds.declareLocal inv decl.name decl.ty).bind fun operand d₁ r₁ hoperand => ?_
    have hsome : ∀ {d₂ : Draft}, d₁.Reaches d₂ →
        Builds d₂ (pure (some operand)) fun r b => ∀ id ∈ r, b.Knows id := fun r₂ =>
      .pure r₂.inv fun id hid => Option.some.inj hid ▸ r₂.knows hoperand
    cases decl.id with
    | none => exact hsome (.refl r₁.inv)
    | some id =>
        refine (Builds.modify ?_).seq fun d₂ r₂ => hsome r₂
        exact ⟨{ r₁.inv with declared := r₁.inv.declared.insert hoperand id }, .refl d₁.body⟩

theorem builds_declareAll : (decls : List VarDecl) → {d : Draft} → d.Inv →
    Builds d (declareAll decls) fun ids b => ∀ id ∈ ids, b.Knows id
  | [], d, inv => .pure inv fun _ h => absurd h List.not_mem_nil
  | decl :: rest, d, inv => by
      refine (builds_declare inv decl).bind fun first d₁ r₁ hfirst => ?_
      refine (builds_declareAll rest r₁.inv).bind fun ids d₂ r₂ hids => .pure r₂.inv ?_
      intro id hid
      rcases List.mem_append.mp hid with hid | hid
      · exact r₂.knows (hfirst id (Option.mem_toList.mp hid))
      · exact hids id hid

theorem builds_declareComponents (source : Option OperandId) : (position : Nat) →
    (decls : List (Option VarDecl)) → {d : Draft} → d.Inv →
    Builds d (declareComponents source position decls) Done
  | _, [], d, inv => .done inv
  | position, none :: rest, d, inv => builds_declareComponents source (position + 1) rest inv
  | position, some decl :: rest, d, inv => by
      rw [declareComponents]
      refine (builds_declare inv decl).bind fun place d₁ r₁ _ => ?_
      have hrest : ∀ {d₂ : Draft}, d₁.Reaches d₂ →
          Builds d₂ (declareComponents source (position + 1) rest) Done := fun r₂ =>
        builds_declareComponents source (position + 1) rest r₂.inv
      dsimp only
      split
      · exact (Builds.intrinsicInto r₁.inv _ _ _).seq fun d₂ r₂ => hrest r₂
      · exact hrest (.refl r₁.inv)

theorem builds_declareVariables (inv : d.Inv) (decls : List (Option VarDecl))
    (initial : Option OperandId) : Builds d (declareVariables decls initial) Done := by
  unfold declareVariables
  split
  · next decl =>
      refine (builds_declare inv decl).bind fun place d₁ r₁ _ => ?_
      split
      · exact .assign r₁.inv _ _ _
      · exact .done r₁.inv
  · exact builds_declareComponents initial 0 decls inv

/-! ## Statements -/

theorem builds_expression? (env : Env) (e : Option Expr) (inv : d.Inv) :
    Builds d (expression? env e) fun r b => ∀ id ∈ r, b.Knows id := by
  cases e with
  | none => exact .pure inv fun _ h => by cases h
  | some e => exact (builds_expression env e inv).mapSome

theorem builds_returned (env : Env) (es : Option (List Expr)) (inv : d.Inv) :
    Builds d (returned env es) fun ids b => ∀ id ∈ ids, b.Knows id := by
  cases es with
  | none => exact .get (.pure inv inv.body.returns)
  | some es => exact builds_values env es inv

/-- One clause of a `try` statement, and what comes behind it. -/
theorem builds_clause (inv : d.Inv) {success : OperandId} {node next join : NodeId}
    (hsuccess : d.body.Knows success) (hnode : d.body.Target node) (hnext : d.body.Target next)
    (hjoin : d.body.Target join) {x y : Build Unit} (hx : ∀ d', d.Reaches d' → Builds d' x Done)
    (hy : ∀ d', d.Reaches d' → Builds d' y Done) :
    Builds d (do
      Build.branch success node next
      Build.switchTo node
      Build.inScope x
      Build.goto join
      Build.switchTo next
      y) Done := by
  refine (Builds.branch inv hsuccess hnode hnext).seq fun d₁ r₁ => ?_
  refine Builds.armThen r₁.inv (r₁.target hnode) (r₁.target hjoin) (fun d₂ r₂ => ?_) fun d₂ r₂ => ?_
  · exact .inScope r₂.inv fun d₃ r₃ => hx d₃ ((r₁.trans r₂).trans r₃)
  · refine (Builds.switchTo r₂.inv ((r₁.trans r₂).target hnext)).seq fun d₃ r₃ => ?_
    exact hy d₃ ((r₁.trans r₂).trans r₃)

mutual

theorem builds_statement (env : Env) : (s : Stmt) → {d : Draft} → d.Inv →
    Builds d (statement env s) Done
  | .located span inner, d, inv => by
      rw [statement]
      exact (Builds.annotate inv span).seq fun d₁ r₁ => builds_statement env inner r₁.inv
  | .skip, d, inv => by
      rw [statement]
      exact .done inv
  | .block body, d, inv => by
      rw [statement]
      exact .inScope inv fun d₁ r₁ => builds_statements env body r₁.inv
  | .expression e, d, inv => by
      rw [statement]
      exact (builds_value env e inv).seq fun d₁ r₁ => .done r₁.inv
  | .declare declarations initial, d, inv => by
      rw [statement]
      refine (builds_expression? env initial inv).bind fun computed d₁ r₁ _ => ?_
      exact builds_declareVariables r₁.inv declarations computed
  | .ifThen condition yes, d, inv => by
      rw [statement]
      refine (builds_expression env condition inv).bind fun test d₁ r₁ htest => ?_
      refine (Builds.newNode r₁.inv).bind fun yesNode d₂ r₂ hyes => ?_
      refine (Builds.newNode r₂.inv).bind fun join d₃ r₃ hjoin => ?_
      refine (Builds.branch r₃.inv ((r₂.trans r₃).knows htest) (r₃.target hyes) hjoin).seq
        fun d₄ r₄ => ?_
      refine .armThen r₄.inv ((r₃.trans r₄).target hyes) (r₄.target hjoin)
        (fun d₅ r₅ => builds_statement env yes r₅.inv) fun d₅ r₅ => ?_
      exact .switchTo r₅.inv ((r₄.trans r₅).target hjoin)
  | .ifElse condition yes no, d, inv => by
      rw [statement]
      refine (builds_expression env condition inv).bind fun test d₁ r₁ htest => ?_
      refine (Builds.newNode r₁.inv).bind fun yesNode d₂ r₂ hyes => ?_
      refine (Builds.newNode r₂.inv).bind fun join d₃ r₃ hjoin => ?_
      refine (Builds.newNode r₃.inv).bind fun noNode d₄ r₄ hno => ?_
      have hyes := (r₃.trans r₄).target hyes
      have hjoin := r₄.target hjoin
      refine (Builds.branch r₄.inv (((r₂.trans r₃).trans r₄).knows htest) hyes hno).seq
        fun d₅ r₅ => ?_
      refine .armThen r₅.inv (r₅.target hyes) (r₅.target hjoin)
        (fun d₆ r₆ => builds_statement env yes r₆.inv) fun d₆ r₆ => ?_
      have r := r₅.trans r₆
      refine .armThen r₆.inv (r.target hno) (r.target hjoin)
        (fun d₇ r₇ => builds_statement env no r₇.inv) fun d₇ r₇ => ?_
      exact .switchTo r₇.inv ((r.trans r₇).target hjoin)
  | .whileLoop condition body, d, inv => by
      rw [statement]
      refine (Builds.newNode inv).bind fun header d₁ r₁ hheader => ?_
      refine (Builds.goto r₁.inv hheader).seq fun d₂ r₂ => ?_
      refine (Builds.switchTo r₂.inv (r₂.target hheader)).seq fun d₃ r₃ => ?_
      refine (builds_expression env condition r₃.inv).bind fun test d₄ r₄ htest => ?_
      refine (Builds.newNode r₄.inv).bind fun bodyNode d₅ r₅ hbody => ?_
      refine (Builds.newNode r₅.inv).bind fun exit d₆ r₆ hexit => ?_
      have hheader := ((((r₂.trans r₃).trans r₄).trans r₅).trans r₆).target hheader
      have hbody := r₆.target hbody
      refine (Builds.branch r₆.inv ((r₅.trans r₆).knows htest) hbody hexit).seq fun d₇ r₇ => ?_
      refine (Builds.inLoop r₇.inv (r₇.target hheader) (r₇.target hexit) fun d₈ r₈ =>
        .arm r₈.inv ((r₇.trans r₈).target hbody) ((r₇.trans r₈).target hheader) fun d₉ r₉ =>
          builds_statement env body r₉.inv).seq fun d₈ r₈ => ?_
      exact .switchTo r₈.inv ((r₇.trans r₈).target hexit)
  | .doWhile body condition, d, inv => by
      rw [statement]
      refine (Builds.newNode inv).bind fun bodyNode d₁ r₁ hbody => ?_
      refine (Builds.newNode r₁.inv).bind fun check d₂ r₂ hcheck => ?_
      refine (Builds.newNode r₂.inv).bind fun exit d₃ r₃ hexit => ?_
      have hbody := (r₂.trans r₃).target hbody
      have hcheck := r₃.target hcheck
      refine (Builds.goto r₃.inv hbody).seq fun d₄ r₄ => ?_
      refine (Builds.inLoop r₄.inv (r₄.target hcheck) (r₄.target hexit) fun d₅ r₅ =>
        .arm r₅.inv ((r₄.trans r₅).target hbody) ((r₄.trans r₅).target hcheck) fun d₆ r₆ =>
          builds_statement env body r₆.inv).seq fun d₅ r₅ => ?_
      have r := r₄.trans r₅
      refine (Builds.switchTo r₅.inv (r.target hcheck)).seq fun d₆ r₆ => ?_
      refine (builds_expression env condition r₆.inv).bind fun test d₇ r₇ htest => ?_
      have r := (r.trans r₆).trans r₇
      refine (Builds.branch r₇.inv htest (r.target hbody) (r.target hexit)).seq fun d₈ r₈ => ?_
      exact .switchTo r₈.inv ((r.trans r₈).target hexit)
  | .forLoop start condition next body, d, inv => by
      rw [statement]
      refine .inScope inv fun d₀ r₀ => ?_
      refine (builds_statement env start r₀.inv).seq fun d₁ r₁ => ?_
      refine (Builds.newNode r₁.inv).bind fun header d₂ r₂ hheader => ?_
      refine (Builds.goto r₂.inv hheader).seq fun d₃ r₃ => ?_
      refine (Builds.switchTo r₃.inv (r₃.target hheader)).seq fun d₄ r₄ => ?_
      refine (Builds.newNode r₄.inv).bind fun bodyNode d₅ r₅ hbody => ?_
      refine (Builds.newNode r₅.inv).bind fun nextNode d₆ r₆ hnext => ?_
      refine (Builds.newNode r₆.inv).bind fun exit d₇ r₇ hexit => ?_
      refine (builds_expression? env condition r₇.inv).bind fun test d₈ r₈ htest => ?_
      have hheader := ((((((r₃.trans r₄).trans r₅).trans r₆).trans r₇).trans r₈)).target hheader
      have hbody := ((r₆.trans r₇).trans r₈).target hbody
      have hnext := (r₇.trans r₈).target hnext
      have hexit := r₈.target hexit
      -- the loop is laid out the same with and without a condition
      have hloop : ∀ {d₉ : Draft}, d₈.Reaches d₉ → Builds d₉ (do
          Build.inLoop nextNode exit do
            Build.switchTo bodyNode
            statement env body
            Build.goto nextNode
          Build.switchTo nextNode
          statement env next
          Build.goto header
          Build.switchTo exit) Done := by
        intro d₉ r₉
        refine (Builds.inLoop r₉.inv (r₉.target hnext) (r₉.target hexit) fun d' r =>
          .arm r.inv ((r₉.trans r).target hbody) ((r₉.trans r).target hnext) fun d'' r' =>
            builds_statement env body r'.inv).seq fun d' r => ?_
        have r := r₉.trans r
        refine .armThen r.inv (r.target hnext) (r.target hheader)
          (fun d'' r' => builds_statement env next r'.inv) fun d'' r' => ?_
        exact .switchTo r'.inv ((r.trans r').target hexit)
      dsimp only
      split
      · next test =>
          exact (Builds.branch r₈.inv (htest test rfl) hbody hexit).seq fun d₉ r₉ => hloop r₉
      · exact (Builds.goto r₈.inv hbody).seq fun d₉ r₉ => hloop r₉
  | .continueLoop, d, inv => by
      rw [statement]
      exact .leaveTo inv fun _ => Or.inl rfl
  | .breakLoop, d, inv => by
      rw [statement]
      exact .leaveTo inv fun _ => Or.inr rfl
  | .ret es, d, inv => by
      rw [statement]
      exact (builds_returned env es inv).bind fun ids d₁ r₁ hids => .ret r₁.inv hids
  | .revert none, d, inv => by
      rw [statement]
      exact .revert inv
  | .revert (some e), d, inv => by
      rw [statement]
      exact (builds_value env e inv).seq fun d₁ r₁ => .revert r₁.inv
  | .tryCatch call cases, d, inv => by
      rw [statement]
      refine (builds_value env call inv).bind fun result d₁ r₁ _ => ?_
      refine (Builds.newNode r₁.inv).bind fun join d₂ r₂ hjoin => ?_
      refine (Builds.builtin r₂.inv _ _).bind fun success d₃ r₃ hsuccess => ?_
      have hjoin := r₃.target hjoin
      refine (builds_clauses env result cases r₃.inv hsuccess hjoin).seq fun d₄ r₄ => ?_
      exact .switchTo r₄.inv (r₄.target hjoin)
  | .nop, d, inv => by
      rw [statement]
      exact .nop inv
  | .unsupported nodeType, d, inv => by
      rw [statement]
      exact .throw

theorem builds_statements (env : Env) : (ss : List Stmt) → {d : Draft} → d.Inv →
    Builds d (statements env ss) Done
  | [], d, inv => by
      rw [statements]
      exact .done inv
  | s :: rest, d, inv => by
      rw [statements]
      exact (builds_statement env s inv).seq fun d₁ r₁ => builds_statements env rest r₁.inv

theorem builds_clauses (env : Env) (result : Option OperandId) : (cases : List Clause) →
    {d : Draft} → d.Inv → {success : OperandId} → d.body.Knows success → {join : NodeId} →
    d.body.Target join → Builds d (clauses env success join result cases) Done
  | [], d, inv, success, hsuccess, join, hjoin => by
      rw [clauses]
      exact .done inv
  | .clause parameters body :: rest, d, inv, success, hsuccess, join, hjoin => by
      rw [clauses]
      refine (Builds.newNode inv).bind fun node d₁ r₁ hnode => ?_
      -- where the last clause fails control goes to the join, else to a node for the next clause
      have hrest : ∀ {d₂ : Draft} {next : NodeId}, d₁.Reaches d₂ → d₂.body.Target next →
          Builds d₂ (do
            Build.branch success node next
            Build.switchTo node
            Build.inScope do
              declareComponents result 0 (parameters.map some)
              statement env body
            Build.goto join
            Build.switchTo next
            clauses env success join none rest) Done := by
        intro d₂ next r₂ hnext
        have hsuccess := (r₁.trans r₂).knows hsuccess
        have hjoin := (r₁.trans r₂).target hjoin
        refine builds_clause r₂.inv hsuccess (r₂.target hnode) hnext hjoin (fun d₃ r₃ => ?_)
          fun d₃ r₃ => ?_
        · refine (builds_declareComponents result 0 (parameters.map some) r₃.inv).seq fun d₄ r₄ => ?_
          exact builds_statement env body r₄.inv
        · exact builds_clauses env none rest r₃.inv (r₃.knows hsuccess) (r₃.target hjoin)
      dsimp only
      split
      · exact .pureBind (hrest (.refl r₁.inv) (r₁.target hjoin))
      · exact (Builds.newNode r₁.inv).bind fun next d₂ r₂ hnext => hrest r₂ hnext

end

/-- Lowering a definition keeps the invariant. -/
theorem Definition.builds_lower (env : Env) (definition : Definition) (inv : d.Inv) :
    Builds d (definition.lower env) Done := by
  refine (builds_declareAll definition.parameters inv).bind fun parameters d₁ r₁ hparameters => ?_
  refine (builds_declareAll definition.returns r₁.inv).bind fun returns d₂ r₂ hreturns => ?_
  have hparameters : ∀ id ∈ parameters, d₂.body.Knows id := fun id hid =>
    r₂.knows (hparameters id hid)
  refine (Builds.modify (r₂.inv.setSignature hparameters hreturns)).seq fun d₃ r₃ => ?_
  exact builds_statement env definition.body r₃.inv

end ContractCalls.Solidity
