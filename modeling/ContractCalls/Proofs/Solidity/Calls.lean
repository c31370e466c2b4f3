/-
# What lowered Solidity code calls

The callees of an expression or statement are read off its syntax: those of its
parts, and the target of the call if it is an ordinary one that calls code.
Types and names such as `msg` have no parts that are evaluated, and what stands
in front of an event or error is not looked at when that is called.  Lowering
adds these callees to the body, each as often as it is written, in dead code as
well; a part that the language requires and the tree does not have makes it
fail.

One lemma for each function of the lowering, in the order of the lowering.
-/
import ContractCalls.Proofs.Body.Calls
import ContractCalls.Solidity.Lowering

namespace ContractCalls.Solidity

open Build

/-! ## Callees -/

/-- The declaration is of an event or of an error. -/
def Index.isSignal (index : Index) (declaration : Option Int) : Bool :=
  match index.declaration? declaration with
  | some (.event _) | some (.error _) => true
  | _ => false

/-- The callee is a member that names an event or an error. -/
def Env.isSignal (env : Env) : Expr → Bool
  | .member _ _ _ declaration => env.index.isSignal declaration
  | _ => false

/-- Whom a call of an expression calls; a creation and an expression form call nobody. -/
def Env.targets (env : Env) : Expr → List Callee
  | .absent _ _ | .creation _ _ => []
  | callee => (env.resolve callee).1.counted

/-- What a call calls besides its options and arguments, if `below` are the calls in its callee. -/
def Env.called (env : Env) (form : CallForm) (callee : Expr) (below : List Callee) : List Callee :=
  match form with
  | .ordinary => (if env.isSignal callee then [] else below) ++ env.targets callee
  | .conversion | .construction => []

mutual

/-- The callees of the calls in an expression. -/
def Expr.callees (env : Env) : Expr → List Callee
  | .absent _ _ | .literal _ _ | .identifier _ _ _ | .arrayType _ _ | .typeName _ _
  | .creation _ _ | .unsupported _ _ _ => []
  | .member _ base _ _ => if base.isNamespace then [] else base.callees env
  | .index _ base key => base.callees env ++ key.callees env
  | .range _ base bounds => base.callees env ++ calleesOf env bounds
  | .binary _ _ left right => left.callees env ++ right.callees env
  | .unary _ _ operand => operand.callees env
  | .assign _ _ _ target source => source.callees env ++ target.callees env
  | .assignAll _ targets source => source.callees env ++ calleesOfPresent env targets
  | .conditional _ condition yes no =>
      condition.callees env ++ (yes.callees env ++ no.callees env)
  | .tuple _ _ components => calleesOfPresent env components
  | .call _ form options callee arguments _ =>
      calleesOf env options ++
        (calleesOf env arguments ++ env.called form callee (callee.callees env))
  | .withOptions _ function => function.callees env

/-- The callees of the calls in expressions. -/
def calleesOf (env : Env) : List Expr → List Callee
  | [] => []
  | e :: rest => e.callees env ++ calleesOf env rest

/-- The callees of the calls in the components that are there. -/
def calleesOfPresent (env : Env) : List (Option Expr) → List Callee
  | [] => []
  | none :: rest => calleesOfPresent env rest
  | some e :: rest => e.callees env ++ calleesOfPresent env rest

end

theorem calleesOf_eq (env : Env) (es : List Expr) :
    calleesOf env es = es.flatMap (Expr.callees env) := by
  induction es with
  | nil => rfl
  | cons e rest ih => rw [calleesOf, ih, List.flatMap_cons]

theorem calleesOfPresent_eq (env : Env) (components : List (Option Expr)) :
    calleesOfPresent env components = calleesOf env (components.filterMap id) := by
  induction components with
  | nil => rfl
  | cons component rest ih =>
      cases component with
      | none => rw [calleesOfPresent, ih, List.filterMap_cons_none rfl]
      | some e =>
          rw [calleesOfPresent, ih]
          rfl

/-! ## Receivers -/

/-- Evaluating what is no value calls nobody, a type that is computed apart. -/
theorem Expr.callees_of_isNamespace (env : Env) {e : Expr} (h : e.isNamespace)
    (hty : e.ty.isTypeOf = false) : e.callees env = [] := by
  cases e with
  | typeName | identifier => rfl
  | _ => exact absurd (h.symm.trans hty) (by decide)

theorem Expr.callees_of_isSuper (env : Env) {e : Expr} (h : e.isSuper) : e.callees env = [] := by
  cases e with
  | identifier => rfl
  | _ => cases h

theorem Expr.isNamespace_of_isTypeOf {e : Expr} (h : e.ty.isTypeOf) : e.isNamespace := by
  cases e with
  | typeName => rfl
  | identifier => simp [Expr.isNamespace, h]
  | _ => exact h

/-- A receiver that is not used has no calls that count, events and errors apart; one that is used
is no computed type. -/
def ReceiverUse.Suits (use : ReceiverUse) (env : Env) (base : Expr) : Prop :=
  match use with
  | .unused => base.isNamespace ∨ base.callees env = []
  | _ => base.ty.isTypeOf = false

theorem ReceiverUse.Suits.attach (env : Env) (base : Expr) :
    (if base.ty.isTypeOf then ReceiverUse.unused else .attached).Suits env base := by
  split
  · next h => exact .inl (Expr.isNamespace_of_isTypeOf h)
  · next h => exact eq_false_of_ne_true h

theorem Env.suits_receiverCallee (env : Env) (text : TypeText) (base : Expr) (name : String)
    (declaration : Option Int) : (env.receiverCallee text base name declaration).2.Suits env base := by
  unfold Env.receiverCallee
  split
  · next h => simp [ReceiverUse.Suits, h, Ty.isTypeOf]
  · split
    · next h => exact .inl h
    · next h =>
        have hty : base.ty.isTypeOf = false := by
          exact eq_false_of_ne_true fun hty => h (Expr.isNamespace_of_isTypeOf hty)
        split <;> exact hty

theorem Env.suits_memberCallee (env : Env) (text : TypeText) (base : Expr) (name : String)
    {declaration : Option Int} (h : env.index.isSignal declaration = false) :
    (env.memberCallee text base name declaration).2.Suits env base := by
  have hattach := ReceiverUse.Suits.attach env base
  have hreceiver := env.suits_receiverCallee text base name declaration
  simp only [Env.memberCallee]
  generalize (if base.ty.isTypeOf then ReceiverUse.unused else .attached) = attach at hattach ⊢
  split
  · next hsuper => exact .inr (Expr.callees_of_isSuper env hsuper)
  · split
    · exact hattach
    · split
      · split
        · exact hattach
        · exact hattach
      · split
        · next hty => exact .inl (Expr.isNamespace_of_isTypeOf hty)
        · exact hreceiver
    · next hevent => simp [Index.isSignal, hevent] at h
    · next herror => simp [Index.isSignal, herror] at h
    · exact hreceiver

/-- What stands in front of an event or error is not used. -/
theorem Env.memberCallee_of_isSignal (env : Env) (text : TypeText) (base : Expr) (name : String)
    {declaration : Option Int} (h : env.index.isSignal declaration) :
    (env.memberCallee text base name declaration).2 = .unused := by
  simp only [Env.memberCallee]
  unfold Index.isSignal at h
  split
  · rfl
  · split at h
    · next hevent => rw [hevent]
    · next herror => rw [herror]
    · cases h

/-! ## Expressions -/

theorem Expr.adds_ensure (e : Expr) : Adds e.ensure [] := by
  unfold Expr.ensure
  split
  · exact adds_throw _
  · exact adds_pure ()

/-- What comes after an expression was found to be there. -/
theorem Expr.adds_ensure_bind {β : Type} {x : Build β} {added : List Callee} (e : Expr)
    (h : e.isAbsent = false → Adds x added) : Adds (e.ensure >>= fun _ => x) added := by
  cases e with
  | absent field nodeType => exact adds_throw _
  | _ => exact (adds_pure ()).then fun _ => h rfl

theorem Expr.adds_result (e : Expr) (r : Option OperandId) : Adds (e.result r) [] := by
  cases r with
  | none => exact adds_throw _
  | some operand => exact adds_pure operand

/-- An expression that has to have a result, and what is done with it. -/
theorem Expr.adds_bind {β : Type} {x : Build (Option OperandId)} {f : OperandId → Build β}
    {added more : List Callee} (e : Expr) (hx : Adds x added) (hf : ∀ id, Adds (f id) more) :
    Adds (x >>= fun r => e.result r >>= f) (added ++ more) :=
  hx.bind fun r => (e.adds_result r).then hf

/-- The same if nothing else is called. -/
theorem Expr.adds_before {β : Type} {x : Build (Option OperandId)} {f : OperandId → Build β}
    {added : List Callee} (e : Expr) (hx : Adds x added) (hf : ∀ id, Adds (f id) []) :
    Adds (x >>= fun r => e.result r >>= f) added :=
  hx.before fun r => (e.adds_result r).then hf

theorem Env.adds_identifier (env : Env) (text : TypeText) (name : String)
    (declaration : Option Int) : Adds (env.identifier text name declaration) [] := by
  refine adds_get fun d => ?_
  split
  · exact adds_pure _
  · split
    · exact adds_state _ _
    · exact adds_state _ _
    · exact adds_builtin _ _
    · split
      · exact adds_builtin _ _
      · split
        · exact adds_pure _
        · exact adds_throw _

theorem adds_stepBy (operator : String) (givesOld : Bool) (ty : Ty) (target : OperandId) :
    Adds (stepBy operator givesOld ty target) [] := by
  have hrest (old : Option OperandId) : Adds (do
      let one ← Build.constant (.uint 1) ty
      let updated ← Build.intrinsic (.binary operator) [target, one] ty
      Build.assign target updated ty
      return old.getD updated) [] := by
    refine (adds_constant _ _).then fun one => (adds_intrinsic _ _ _).then fun updated => ?_
    exact (adds_assign _ _ _).then fun _ => adds_pure _
  unfold stepBy
  cases givesOld with
  | true =>
      refine (adds_temporary ty).then fun copy => (adds_assign _ _ _).then fun _ => ?_
      exact (adds_pure (some copy)).then hrest
  | false => exact (adds_pure none).then hrest

theorem adds_applyUnary (form : UnaryForm) (ty : Ty) (operand : OperandId) :
    Adds (applyUnary form ty operand) [] := by
  cases form with
  | direct token => exact adds_unary _ _ _
  | negate => exact (adds_constant _ _).then fun zero => adds_intrinsic _ _ _
  | step operator givesOld => exact adds_stepBy operator givesOld ty operand
  | delete => exact (adds_delete operand).then fun _ => adds_pure operand
  | plain => exact adds_pure operand

theorem adds_collect (isArray : Bool) (ty : Ty) (values : List OperandId) :
    Adds (collect isArray ty values) [] := by
  cases isArray with
  | true => exact adds_giving (adds_temporary ty) fun id => adds_intrinsicInto _ _ id
  | false => exact adds_giving (adds_step fun _ => rfl) fun id => adds_intrinsicInto _ _ id

theorem adds_emitCall (callee : Callee) (args : CallArgs) (ty : Ty) :
    Adds (emitCall callee args ty) callee.counted := by
  refine (adds_resultFor ty).then fun result => (adds_call callee args result).before fun _ => ?_
  split
  · exact (adds_terminate _).then fun _ => adds_pure result
  · exact adds_pure result

theorem adds_emitCreation (created ty : Ty) (arguments : List OperandId) :
    Adds (emitCreation created ty arguments) [] := by
  unfold emitCreation
  split
  · exact adds_intrinsic _ _ _
  · exact adds_newElementary _ _

theorem adds_receive_unused (receiver : Expr) (value : Build (Option OperandId)) (args : CallArgs) :
    Adds (receive .unused receiver value args) [] :=
  receiver.adds_ensure.then fun _ => adds_pure args

theorem adds_receive_used {use : ReceiverUse} (hused : use ≠ .unused) (receiver : Expr)
    {value : Build (Option OperandId)} {added : List Callee} (hvalue : Adds value added)
    (args : CallArgs) : Adds (receive use receiver value args) added := by
  refine receiver.adds_ensure.then fun _ => ?_
  cases use with
  | unused => exact absurd rfl hused
  | evaluated => exact hvalue.before fun _ => adds_pure args
  | attached => exact receiver.adds_before hvalue fun _ => adds_pure _

/-- A called member has the callees of its receiver if that is used, and else none. -/
theorem Env.callees_receiver (env : Env) (text : TypeText) (base : Expr) (name : String)
    (declaration : Option Int) :
    (if env.index.isSignal declaration then []
      else if base.isNamespace then [] else base.callees env) =
      if (env.memberCallee text base name declaration).2 = .unused then []
      else base.callees env := by
  by_cases h : env.index.isSignal declaration = true
  · rw [if_pos h, if_pos (env.memberCallee_of_isSignal text base name h)]
  · have hsuits := env.suits_memberCallee text base name (eq_false_of_ne_true h)
    rw [if_neg h]
    generalize (env.memberCallee text base name declaration).2 = use at hsuits
    by_cases hunused : use = .unused
    · subst hunused
      rw [if_pos rfl]
      rcases hsuits with hnamespace | hcallees
      · rw [if_pos hnamespace]
      · rw [hcallees, ite_self]
    · have hty : base.ty.isTypeOf = false := by
        cases use with
        | unused => exact absurd rfl hunused
        | evaluated | attached => exact hsuits
      rw [if_neg hunused]
      split
      · next hnamespace => rw [Expr.callees_of_isNamespace env hnamespace hty]
      · rfl

/-- The receiver of a called member adds the callees of the member, unless that is an event or
error. -/
theorem adds_receive_member {env : Env} {base : Expr} (hbase : Adds (value env base) (base.callees env))
    (text : TypeText) (name : String) (declaration : Option Int) (args : CallArgs) :
    Adds (receive (env.memberCallee text base name declaration).2 base (value env base) args)
      (if env.index.isSignal declaration then []
        else if base.isNamespace then [] else base.callees env) := by
  rw [env.callees_receiver text]
  split
  · next hunused =>
      rw [hunused]
      exact adds_receive_unused base _ args
  · next hused => exact adds_receive_used hused base hbase args

mutual

theorem adds_value (env : Env) : (e : Expr) → Adds (value env e) (e.callees env)
  | .absent field nodeType => by
      rw [value]
      exact adds_throw _
  | .literal text constant => by
      rw [value]
      exact (adds_constant constant _).map some
  | .identifier text name declaration => by
      rw [value]
      exact (env.adds_identifier text name declaration).map some
  | .member text base name declaration => by
      rw [value, Expr.callees]
      refine base.adds_ensure.then fun _ => ?_
      split
      · exact (adds_builtin _ _).map some
      · exact base.adds_before (adds_value env base) fun object => (adds_refer _ _ _ _).map some
  | .index text base key => by
      rw [value, Expr.callees]
      refine base.adds_bind (adds_value env base) fun object => ?_
      exact key.adds_before (adds_value env key) fun position => (adds_refer _ _ _ _).map some
  | .arrayType text base => by
      rw [value]
      exact (adds_builtin _ _).map some
  | .typeName text name => by
      rw [value]
      exact (adds_builtin _ _).map some
  | .creation text created => by
      rw [value]
      exact (adds_builtin _ _).map some
  | .range text base bounds => by
      rw [value, Expr.callees]
      refine base.adds_bind (adds_value env base) fun object => ?_
      exact (adds_values env bounds).before fun limits => (adds_intrinsic _ _ _).map some
  | .binary text operator left right => by
      rw [value, Expr.callees]
      refine left.adds_ensure.then fun _ => right.adds_ensure.then fun _ => ?_
      refine left.adds_bind (adds_value env left) fun first => ?_
      exact right.adds_before (adds_value env right) fun second => (adds_intrinsic _ _ _).map some
  | .unary text form operand => by
      rw [value, Expr.callees]
      exact operand.adds_before (adds_value env operand) fun id => (adds_applyUnary form _ id).map some
  | .assign text operator targetText target source => by
      rw [value, Expr.callees]
      refine target.adds_ensure.then fun _ => ?_
      refine source.adds_bind (adds_value env source) fun computed => ?_
      refine target.adds_before (adds_value env target) fun place => ?_
      have hstore (stored : OperandId) :
          Adds (do Build.assign place stored (Ty.ofText? targetText); return some place) [] :=
        (adds_assign _ _ _).then fun _ => adds_pure _
      cases operator with
      | some operator => exact (adds_intrinsic _ _ _).then hstore
      | none => exact (adds_pure computed).then hstore
  | .assignAll text targets source => by
      rw [value, Expr.callees]
      refine source.adds_bind (adds_value env source) fun computed => ?_
      exact (adds_assignComponents env computed 0 targets).before fun _ => adds_pure _
  | .conditional text condition yes no => by
      rw [value, Expr.callees]
      refine condition.adds_bind (adds_value env condition) fun test => ?_
      refine yes.adds_bind (adds_value env yes) fun first => ?_
      exact no.adds_before (adds_value env no) fun second => (adds_intrinsic _ _ _).map some
  | .tuple text isArray components => by
      have hpresent := adds_present env components
      rw [Expr.callees]
      -- parentheses: the only component of a tuple stands for the tuple
      by_cases h : ∃ inner, isArray = false ∧ components = [some inner]
      · obtain ⟨inner, hflag, hcomponents⟩ := h
        have hinner := adds_component env components inner (by simp [hcomponents])
        subst hflag hcomponents
        rw [value, calleesOfPresent, calleesOfPresent, List.append_nil]
        exact hinner
      · rw [value]
        · exact hpresent.before fun values => (adds_collect isArray _ values).map some
        · intro inner hflag hcomponents
          exact h ⟨inner, hflag, hcomponents⟩
  | .call text form options callee arguments names => by
      have hoptions := adds_effects env options
      have harguments := adds_values env arguments
      rw [value, Expr.callees]
      refine hoptions.bind fun _ => callee.adds_ensure_bind fun hpresent => ?_
      refine harguments.bind fun operands => ?_
      cases form with
      | conversion => exact (adds_intrinsic _ _ _).map some
      | construction => exact (adds_newStructure _ _ _).map some
      | ordinary =>
          rw [Env.called]
          have hcallee := adds_value env callee
          cases callee with
          | absent => cases hpresent
          | creation _ created => exact (adds_emitCreation _ _ operands).map some
          | member calleeText base name declaration =>
              rw [Expr.callees]
              refine (adds_receive_member (adds_value env base) _ _ _ _).bind fun args => ?_
              exact adds_emitCall _ args _
          | identifier =>
              refine (adds_receive_unused _ _ _).bind fun args => ?_
              exact adds_emitCall _ args _
          | _ =>
              refine (adds_receive_used ReceiverUse.noConfusion _ hcallee _).bind fun args => ?_
              exact adds_emitCall _ args _
  | .withOptions text function => by
      rw [value, Expr.callees]
      exact adds_value env function
  | .unsupported text nodeType label => by
      rw [value]
      exact adds_throw _

theorem adds_values (env : Env) : (es : List Expr) → Adds (values env es) (calleesOf env es)
  | [] => by
      rw [values]
      exact adds_pure _
  | e :: rest => by
      rw [values, calleesOf]
      refine e.adds_bind (adds_value env e) fun first => ?_
      exact (adds_values env rest).before fun others => adds_pure _

theorem adds_present (env : Env) : (components : List (Option Expr)) →
    Adds (present env components) (calleesOfPresent env components)
  | [] => by
      rw [present]
      exact adds_pure _
  | none :: rest => by
      rw [present, calleesOfPresent]
      exact adds_present env rest
  | some e :: rest => by
      rw [present, calleesOfPresent]
      refine e.adds_bind (adds_value env e) fun first => ?_
      exact (adds_present env rest).before fun others => adds_pure _

theorem adds_component (env : Env) : (components : List (Option Expr)) → (e : Expr) →
    some e ∈ components → Adds (value env e) (e.callees env)
  | [], _, h => absurd h List.not_mem_nil
  | none :: rest, e, h => by
      rcases List.mem_cons.mp h with h | h
      · cases h
      · exact adds_component env rest e h
  | some first :: rest, e, h => by
      rcases List.mem_cons.mp h with h | h
      · cases h
        exact adds_value env first
      · exact adds_component env rest e h

theorem adds_effects (env : Env) : (es : List Expr) → Adds (effects env es) (calleesOf env es)
  | [] => by
      rw [effects]
      exact adds_pure _
  | e :: rest => by
      rw [effects, calleesOf]
      exact (adds_value env e).bind fun _ => adds_effects env rest

theorem adds_assignComponents (env : Env) (source : OperandId) : (position : Nat) →
    (components : List (Option Expr)) →
    Adds (assignComponents env source position components) (calleesOfPresent env components)
  | position, [] => by
      rw [assignComponents]
      exact adds_pure ()
  | position, none :: rest => by
      rw [assignComponents, calleesOfPresent]
      exact adds_assignComponents env source (position + 1) rest
  | position, some e :: rest => by
      rw [assignComponents, calleesOfPresent]
      refine e.adds_bind (adds_value env e) fun place => ?_
      refine (adds_intrinsicInto _ _ place).then fun _ => ?_
      exact adds_assignComponents env source (position + 1) rest

end

/-- A call is lowered to one of a function: behind its options and arguments that call is emitted,
and no other than those in the options and arguments. -/
structure CallsFunction (env : Env) (text : TypeText) (options : List Expr) (callee : Expr)
    (arguments : List Expr) (names : List String) (id : FunctionId) : Prop where
  value_eq : value env (.call text .ordinary options callee arguments names) = (do
    effects env options
    let operands ← values env arguments
    emitCall (.internal id) (callArgs names operands) (Ty.ofText? text))
  adds : Adds (value env (.call text .ordinary options callee arguments names))
    (calleesOf env options ++ (calleesOf env arguments ++ [.internal id]))

theorem callsFunction_of_value_eq {env : Env} {text : TypeText} {options : List Expr}
    {callee : Expr} {arguments : List Expr} {names : List String} {id : FunctionId}
    (h : value env (.call text .ordinary options callee arguments names) = (do
      effects env options
      let operands ← values env arguments
      emitCall (.internal id) (callArgs names operands) (Ty.ofText? text))) :
    CallsFunction env text options callee arguments names id where
  value_eq := h
  adds := by
    rw [h]
    refine (adds_effects env options).bind fun _ => (adds_values env arguments).bind fun operands => ?_
    exact adds_emitCall (.internal id) _ _

/-! ## Statements -/

mutual

/-- The callees of the calls in a statement. -/
def Stmt.callees (env : Env) : Stmt → List Callee
  | .located _ inner => inner.callees env
  | .block body => calleesOfBlock env body
  | .expression e => e.callees env
  | .declare _ initial => calleesOf env initial.toList
  | .ifThen condition yes => condition.callees env ++ yes.callees env
  | .ifElse condition yes no =>
      condition.callees env ++ (yes.callees env ++ no.callees env)
  | .whileLoop condition body => condition.callees env ++ body.callees env
  | .doWhile body condition => body.callees env ++ condition.callees env
  | .forLoop start condition next body =>
      start.callees env ++ (calleesOf env condition.toList ++
        (body.callees env ++ next.callees env))
  | .ret values => calleesOf env (values.getD [])
  | .revert call => calleesOf env call.toList
  | .tryCatch call cases => call.callees env ++ calleesOfClauses env cases
  | .skip | .continueLoop | .breakLoop | .nop | .unsupported _ => []

/-- The callees of the calls in statements. -/
def calleesOfBlock (env : Env) : List Stmt → List Callee
  | [] => []
  | s :: rest => s.callees env ++ calleesOfBlock env rest

/-- The callees of the calls in clauses. -/
def calleesOfClauses (env : Env) : List Clause → List Callee
  | [] => []
  | .clause _ body :: rest => body.callees env ++ calleesOfClauses env rest

end

theorem calleesOfBlock_eq (env : Env) (body : List Stmt) :
    calleesOfBlock env body = body.flatMap (Stmt.callees env) := by
  induction body with
  | nil => rfl
  | cons s rest ih => rw [calleesOfBlock, ih, List.flatMap_cons]

theorem calleesOf_singleton (env : Env) (e : Expr) : calleesOf env [e] = e.callees env := by
  rw [calleesOf, calleesOf, List.append_nil]

theorem adds_expression (env : Env) (e : Expr) : Adds (expression env e) (e.callees env) :=
  (adds_value env e).before fun r => e.adds_result r

theorem adds_expression? (env : Env) (e : Option Expr) :
    Adds (expression? env e) (calleesOf env e.toList) := by
  cases e with
  | none => exact adds_pure none
  | some e =>
      rw [Option.toList_some, calleesOf_singleton]
      exact (adds_expression env e).map some

theorem adds_declare (decl : VarDecl) : Adds (declare decl) [] := by
  unfold declare
  split
  · exact adds_pure none
  · refine (adds_declareLocal _ _).then fun operand => ?_
    cases decl.id with
    | none => exact adds_pure (some operand)
    | some id => exact Adds.then (adds_modify fun _ => rfl) fun _ => adds_pure (some operand)

theorem adds_declareAll (declarations : List VarDecl) : Adds (declareAll declarations) [] := by
  induction declarations with
  | nil => exact adds_pure _
  | cons decl rest ih =>
      rw [declareAll]
      exact (adds_declare decl).then fun first => ih.then fun others => adds_pure _

theorem adds_declareComponents (source : Option OperandId) (declarations : List (Option VarDecl)) :
    ∀ position, Adds (declareComponents source position declarations) [] := by
  induction declarations with
  | nil =>
      intro position
      exact adds_pure ()
  | cons decl rest ih =>
      intro position
      cases decl with
      | none => exact ih (position + 1)
      | some decl =>
          rw [declareComponents]
          refine (adds_declare decl).then fun place => ?_
          split
          · exact (adds_intrinsicInto _ _ _).then fun _ => ih (position + 1)
          · exact (adds_pure ()).then fun _ => ih (position + 1)

theorem adds_declareVariables (declarations : List (Option VarDecl)) (initial : Option OperandId) :
    Adds (declareVariables declarations initial) [] := by
  unfold declareVariables
  split
  · refine (adds_declare _).then fun place => ?_
    split
    · exact adds_assign _ _ _
    · exact adds_pure ()
  · exact adds_declareComponents initial _ 0

theorem adds_returned (env : Env) (es : Option (List Expr)) :
    Adds (returned env es) (calleesOf env (es.getD [])) := by
  cases es with
  | none => exact adds_get fun d => adds_pure _
  | some es => exact adds_values env es

mutual

theorem adds_statement (env : Env) : (s : Stmt) → Adds (statement env s) (s.callees env)
  | .located span inner => by
      rw [statement, Stmt.callees]
      exact (adds_annotate span).then fun _ => adds_statement env inner
  | .skip => by
      rw [statement]
      exact adds_pure ()
  | .block body => by
      rw [statement, Stmt.callees]
      exact adds_inScope (adds_statements env body)
  | .expression e => by
      rw [statement, Stmt.callees]
      exact (adds_value env e).before fun _ => adds_pure ()
  | .declare declarations initial => by
      rw [statement, Stmt.callees]
      exact (adds_expression? env initial).before fun computed => adds_declareVariables _ computed
  | .ifThen condition yes => by
      rw [statement, Stmt.callees]
      refine (adds_expression env condition).bind fun test => adds_newNode.then fun yesNode => ?_
      refine adds_newNode.then fun join => (adds_terminate _).then fun _ => ?_
      refine (adds_switchTo _).then fun _ => (adds_statement env yes).before fun _ => ?_
      exact (adds_terminate _).then fun _ => adds_switchTo join
  | .ifElse condition yes no => by
      rw [statement, Stmt.callees]
      refine (adds_expression env condition).bind fun test => adds_newNode.then fun yesNode => ?_
      refine adds_newNode.then fun join => adds_newNode.then fun noNode => ?_
      refine (adds_terminate _).then fun _ => (adds_switchTo _).then fun _ => ?_
      refine (adds_statement env yes).bind fun _ => ?_
      refine (adds_terminate _).then fun _ => (adds_switchTo _).then fun _ => ?_
      refine (adds_statement env no).before fun _ => ?_
      exact (adds_terminate _).then fun _ => adds_switchTo join
  | .whileLoop condition body => by
      rw [statement, Stmt.callees]
      refine adds_newNode.then fun header => (adds_terminate _).then fun _ => ?_
      refine (adds_switchTo _).then fun _ => (adds_expression env condition).bind fun test => ?_
      refine adds_newNode.then fun bodyNode => adds_newNode.then fun exit => ?_
      refine (adds_terminate _).then fun _ => (adds_inLoop _ _ ?_).before fun _ => adds_switchTo exit
      refine (adds_switchTo _).then fun _ => ?_
      exact (adds_statement env body).before fun _ => adds_terminate _
  | .doWhile body condition => by
      rw [statement, Stmt.callees]
      refine adds_newNode.then fun bodyNode => adds_newNode.then fun check => ?_
      refine adds_newNode.then fun exit => (adds_terminate _).then fun _ => ?_
      refine (adds_inLoop _ _ ?_).bind fun _ => ?_
      · refine (adds_switchTo _).then fun _ => ?_
        exact (adds_statement env body).before fun _ => adds_terminate _
      · refine (adds_switchTo _).then fun _ => (adds_expression env condition).before fun test => ?_
        exact (adds_terminate _).then fun _ => adds_switchTo exit
  | .forLoop start condition next body => by
      rw [statement, Stmt.callees]
      refine adds_inScope ((adds_statement env start).bind fun _ => ?_)
      refine adds_newNode.then fun header => (adds_terminate _).then fun _ => ?_
      refine (adds_switchTo _).then fun _ => adds_newNode.then fun bodyNode => ?_
      refine adds_newNode.then fun nextNode => adds_newNode.then fun exit => ?_
      refine (adds_expression? env condition).bind fun test => ?_
      -- with or without a condition, the rest is the same
      have hrest : Adds (do
          inLoop nextNode exit do
            switchTo bodyNode
            statement env body
            goto nextNode
          switchTo nextNode
          statement env next
          goto header
          switchTo exit) (body.callees env ++ next.callees env) := by
        refine (adds_inLoop _ _ ?_).bind fun _ => ?_
        · refine (adds_switchTo _).then fun _ => ?_
          exact (adds_statement env body).before fun _ => adds_terminate _
        · refine (adds_switchTo _).then fun _ => (adds_statement env next).before fun _ => ?_
          exact (adds_terminate _).then fun _ => adds_switchTo exit
      cases test with
      | some test => exact (adds_terminate _).then fun _ => hrest
      | none => exact (adds_terminate _).then fun _ => hrest
  | .continueLoop => by
      rw [statement]
      exact adds_leaveTo _
  | .breakLoop => by
      rw [statement]
      exact adds_leaveTo _
  | .ret es => by
      rw [statement, Stmt.callees]
      exact (adds_returned env es).before fun operands => adds_terminate _
  | .revert none => by
      rw [statement]
      exact adds_terminate _
  | .revert (some e) => by
      rw [statement, Stmt.callees, Option.toList_some, calleesOf_singleton]
      exact (adds_value env e).before fun _ => adds_terminate _
  | .tryCatch call cases => by
      rw [statement, Stmt.callees]
      refine (adds_value env call).bind fun result => adds_newNode.then fun join => ?_
      refine (adds_builtin _ _).then fun success => ?_
      exact (adds_clauses env success join result cases).before fun _ => adds_switchTo join
  | .nop => by
      rw [statement]
      exact adds_emit .nop
  | .unsupported nodeType => by
      rw [statement]
      exact adds_throw _

theorem adds_statements (env : Env) : (body : List Stmt) →
    Adds (statements env body) (calleesOfBlock env body)
  | [] => by
      rw [statements]
      exact adds_pure ()
  | s :: rest => by
      rw [statements, calleesOfBlock]
      exact (adds_statement env s).bind fun _ => adds_statements env rest

theorem adds_clauses (env : Env) (success : OperandId) (join : NodeId) :
    (result : Option OperandId) → (cases : List Clause) →
    Adds (clauses env success join result cases) (calleesOfClauses env cases)
  | result, [] => by
      rw [clauses]
      exact adds_pure ()
  | result, .clause parameters body :: rest => by
      rw [clauses, calleesOfClauses]
      refine adds_newNode.then fun node => ?_
      have hrest (next : NodeId) : Adds (do
          branch success node next
          switchTo node
          inScope do
            declareComponents result 0 (parameters.map some)
            statement env body
          goto join
          switchTo next
          clauses env success join none rest)
            (body.callees env ++ calleesOfClauses env rest) := by
        refine (adds_terminate _).then fun _ => (adds_switchTo _).then fun _ => ?_
        refine Adds.bind (adds_inScope ?_) fun _ => ?_
        · exact (adds_declareComponents result _ 0).then fun _ => adds_statement env body
        · refine (adds_terminate _).then fun _ => (adds_switchTo _).then fun _ => ?_
          exact adds_clauses env success join none rest
      split
      · exact (adds_pure join).then hrest
      · exact adds_newNode.then hrest

end

/-- Lowering a definition adds the callees of its body. -/
theorem Definition.adds_lower (env : Env) (definition : Definition) :
    Adds (definition.lower env) (definition.body.callees env) := by
  refine (adds_declareAll _).then fun parameters => (adds_declareAll _).then fun returns => ?_
  refine Adds.then (adds_modify fun _ => rfl) fun _ => ?_
  exact adds_statement env definition.body

end ContractCalls.Solidity
