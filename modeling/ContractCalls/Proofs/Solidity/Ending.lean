/-
# Which expressions end the execution

Lowering an expression only emits operations, but for calls that end the
execution: those whose callee is a builtin with a name that begins with
`revert`.  What an expression does to the nodes is a list of acts, and the end
of the execution is among them exactly if one of its callees is of that kind.
So the lowering goes on in the node where it stands if no callee is, and
otherwise that node is closed and nothing that is emitted later can be reached
from it.

The test is on the name.  It is passed by the builtin `revert`, by every error
that is constructed, as its callee is named after `revert` and the error, and
by the members of a type whose name happens to begin that way.  The expression
at the end constructs an error as an argument.
-/
import ContractCalls.Proofs.Body.Graph
import ContractCalls.Proofs.Body.Layout
import ContractCalls.Proofs.Solidity.Calls
import ContractCalls.Proofs.Solidity.Target
import ContractCalls.Proofs.Text.Blank

namespace ContractCalls

/-! ## Acts on an open node -/

/-- No path leads out of a node that ends the execution. -/
theorem Body.eq_of_reaches_reverted {b : Body} {m n : NodeId} {node : Node}
    (hnode : b.node? m = some node) (hend : node.terminator = .revert)
    (h : Relation.ReflTransGen b.Edge m n) : n = m := by
  rcases h.cases_head with heq | ⟨k, hedge, -⟩
  · exact heq.symm
  · obtain ⟨node', hnode', hk⟩ := hedge.exists_node
    cases hnode.symm.trans hnode'
    simp [Node.successors, Terminator.successors, hend] at hk

namespace Draft

variable {d d' : Draft} {as : List Act}

theorem onto_acts (d e : Draft) (as : List Act) : (d.onto e).acts as = d.onto (e.acts as) := by
  induction as generalizing e with
  | nil => rfl
  | cons a as ih => rw [acts_cons, onto_act, ih, acts_cons]

/-- Operations are emitted in the node where the draft stands. -/
theorem acts_emitting (live : d.isTerminated = false) (h : Act.revert ∉ as) :
    (d.acts as).current = d.current ∧ (d.acts as).isTerminated = false := by
  induction as generalizing d with
  | nil => exact ⟨rfl, live⟩
  | cons a as ih =>
      cases a with
      | revert => exact absurd List.mem_cons_self h
      | emit op =>
          obtain ⟨node, hnode, hopen⟩ := isTerminated_eq_false.mp live
          obtain ⟨hcurrent, hemit⟩ := node?_emit hnode hopen op
          rw [← hcurrent] at hemit ⊢
          exact ih (isTerminated_eq_false.mpr ⟨_, hemit, hopen⟩) fun has =>
            h (List.mem_cons_of_mem _ has)

/-- The end of the execution closes that node, and what is emitted behind it leaves it so. -/
theorem acts_reverting (live : d.isTerminated = false) (h : Act.revert ∈ as) :
    ∃ node, (d.acts as).body.node? d.current = some node ∧ node.terminator = .revert := by
  induction as generalizing d with
  | nil => cases h
  | cons a as ih =>
      obtain ⟨node, hnode, hopen⟩ := isTerminated_eq_false.mp live
      cases a with
      | revert =>
          have hclosed : Terminator.revert ≠ .open_ := by simp
          refine ⟨{ node with terminator := .revert }, node?_acts as ?_ hclosed, rfl⟩
          show (d.body.modifyNode d.current _).node? d.current = _
          rw [Body.node?_modifyNode, if_pos rfl, hnode]
          simp [Node.isTerminated, hopen]
      | emit op =>
          obtain ⟨hcurrent, hemit⟩ := node?_emit hnode hopen op
          rw [← hcurrent] at hemit ⊢
          have hrest : Act.revert ∈ as := by simpa using h
          exact ih (isTerminated_eq_false.mpr ⟨_, hemit, hopen⟩) hrest

/-- Nothing is emitted in a closed node. -/
theorem current_emit_ne {n : NodeId} {node : Node} (hnode : d.body.node? n = some node)
    (hclosed : node.terminator ≠ .open_) (op : Operation) : (d.emit op).current ≠ n := by
  rintro rfl
  cases hd : d.isTerminated with
  | false =>
      obtain ⟨node', hnode', hopen⟩ := isTerminated_eq_false.mp hd
      rw [emit_of_live hd] at hnode
      cases hnode.symm.trans hnode'
      exact hclosed hopen
  | true =>
      have hcurrent : (d.emit op).current = d.body.addNode.1 := by
        simp [emit, reopen, hd, newNode, switchTo]
      rw [hcurrent] at hnode
      simp [Body.node?, Body.addNode] at hnode

/-- The node where the first draft stands is still open, the second stands there as well, and what is
emitted next is reached from it. -/
structure GoesOn (d d' : Draft) : Prop where
  current : d'.current = d.current
  live : d'.isTerminated = false
  reached : ∀ op, Relation.ReflTransGen (d'.emit op).body.Edge d.current (d'.emit op).current

/-- The node where the first draft stands has ended the execution, and what is emitted next is not
reached from it. -/
structure CutOff (d d' : Draft) : Prop where
  ended : ∃ node, d'.body.node? d.current = some node ∧ node.terminator = .revert
  unreached : ∀ op, ¬ Relation.ReflTransGen (d'.emit op).body.Edge d.current (d'.emit op).current

theorem goesOn_of_acts (live : d.isTerminated = false) (h : d' = d'.onto (d.acts as))
    (has : Act.revert ∉ as) : d.GoesOn d' := by
  obtain ⟨hcurrent, hlive⟩ := acts_emitting live has
  have hlive' : d'.isTerminated = false := by
    rw [h]
    exact hlive
  have hcurrent' : d'.current = d.current := by
    rw [h]
    exact hcurrent
  refine ⟨hcurrent', hlive', fun op => ?_⟩
  rw [emit_of_live hlive']
  exact hcurrent' ▸ .refl

theorem cutOff_of_acts (live : d.isTerminated = false) (h : d' = d'.onto (d.acts as))
    (has : Act.revert ∈ as) : d.CutOff d' := by
  obtain ⟨node, hnode, hend⟩ := acts_reverting live has
  have hnode' : d'.body.node? d.current = some node := by
    rw [h]
    exact hnode
  have hclosed : node.terminator ≠ .open_ := by simp [hend]
  refine ⟨⟨node, hnode', hend⟩, fun op hreach => ?_⟩
  exact current_emit_ne hnode' hclosed op
    (Body.eq_of_reaches_reverted (node?_act hnode' hclosed (.emit op)) hend hreach)

end Draft

namespace Solidity

open Build

/-! ## Callees that end the execution -/

/-- A callee that ends the execution counts. -/
theorem exists_counted {callee : Callee} :
    (∃ c ∈ callee.counted, isRevert c) ↔ isRevert callee := by
  rw [Callee.counted]
  cases callee <;> simp [isRevert, Callee.isIntrinsic]

/-- Where the step succeeds it acts on the nodes, and ends the execution exactly if one of the callees
does. -/
def EndsBy {α : Type} (x : Build α) (callees : List Callee) : Prop :=
  ∀ d : Draft, Leads x d (fun _ d' => ∃ as, d' = d'.onto (d.acts as) ∧
    (Act.revert ∈ as ↔ ∃ c ∈ callees, isRevert c)) fun _ => True

namespace EndsBy

variable {α β : Type} {x : Build α} {f : α → Build β} {callees more : List Callee}

theorem of_acts {d d' : Draft} (h : d' = d'.onto d) :
    ∃ as, d' = d'.onto (d.acts as) ∧ (Act.revert ∈ as ↔ ∃ c ∈ ([] : List Callee), isRevert c) :=
  ⟨[], h, by simp⟩

theorem pure (a : α) : EndsBy (Pure.pure a : Build α) [] := fun _ => leads_pure (of_acts rfl)

theorem throw (e : FrontEndError) : EndsBy (MonadExcept.throw e : Build α) callees :=
  fun _ => leads_throw trivial

theorem bind (hx : EndsBy x callees) (hf : ∀ a, EndsBy (f a) more) :
    EndsBy (x >>= f) (callees ++ more) := by
  intro d
  refine (hx d).bind fun a t ht => (hf a t).mono fun _ r hr => ?_
  obtain ⟨as, hd, has⟩ := ht
  obtain ⟨bs, hr, hbs⟩ := hr
  refine ⟨as ++ bs, ?_, ?_⟩
  · rw [hd, Draft.onto_acts] at hr
    rw [Draft.acts_append, hr]
    rfl
  · simp only [List.mem_append, has, hbs, or_and_right, exists_or]

/-- A step that goes on, and what follows it. -/
theorem andThen (hx : EndsBy x []) (hf : ∀ a, EndsBy (f a) more) : EndsBy (x >>= f) more :=
  hx.bind hf

/-- A step, and what goes on behind it. -/
theorem before (hx : EndsBy x callees) (hf : ∀ a, EndsBy (f a) []) : EndsBy (x >>= f) callees :=
  List.append_nil callees ▸ hx.bind hf

theorem map (hx : EndsBy x callees) (g : α → β) : EndsBy (g <$> x) callees :=
  hx.before fun a => pure (g a)

theorem get {g : Draft → Build α} (h : ∀ d, EndsBy (g d) callees) : EndsBy (get >>= g) callees :=
  fun d => leads_bind (leads_get (h d d))

theorem modify {g : Draft → Draft} (h : ∀ d, g d = (g d).onto d) : EndsBy (modify g) [] :=
  fun d => leads_modify (of_acts (h d))

theorem step {g : Draft → α × Draft} (h : ∀ d, (g d).2 = (g d).2.onto d) : EndsBy (step g) [] :=
  fun d => leads_modifyGet (of_acts (h d))

/-! ### Operands -/

theorem state (name : String) (ty : Ty) : EndsBy (state name ty) [] := by
  refine step fun d => ?_
  unfold Draft.state
  split <;> rfl

theorem builtin (name : String) (ty : Ty) : EndsBy (builtin name ty) [] := by
  refine step fun d => ?_
  unfold Draft.builtin
  split <;> rfl

theorem constant (value : Constant) (ty : Ty) : EndsBy (constant value ty) [] := step fun _ => rfl

theorem temporary (ty : Ty) : EndsBy (temporary ty) [] := step fun _ => rfl

theorem resultFor (ty : Ty) : EndsBy (Build.step (·.resultFor ty)) [] := by
  refine step fun d => ?_
  unfold Draft.resultFor
  split <;> rfl

theorem arena : EndsBy arena [] := get fun _ => pure _

theorem check (result : Except ModelError α) : EndsBy (check result) [] := by
  cases result with
  | ok a => exact pure a
  | error e => exact throw _

theorem reference (ty : Ty) (target : OperandId) : EndsBy (reference ty target) [] := by
  refine (step fun _ => rfl).andThen fun id => arena.andThen fun a => (check _).andThen fun bound => ?_
  exact (modify fun _ => rfl).andThen fun _ => pure id

/-! ### Operations -/

theorem emit (op : Operation) : EndsBy (emit op) [] := by
  exact fun d => leads_modify ⟨[.emit op], rfl, by simp⟩

theorem revert (h : ∃ c ∈ callees, isRevert c) : EndsBy (terminate .revert) callees :=
  fun _ => leads_modify ⟨[.revert], rfl, by simpa using h⟩

/-- A step that goes on, beside callees that do not end the execution. -/
theorem idle (hx : EndsBy x []) (h : ¬ ∃ c ∈ callees, isRevert c) : EndsBy x callees := by
  refine fun d => (hx d).mono fun _ d' hd => ?_
  obtain ⟨as, hd', has⟩ := hd
  exact ⟨as, hd', has.trans (iff_of_false (by simp) h)⟩

theorem emitChecked (make : Arena → Except ModelError Operation) :
    EndsBy (do Build.emit (← Build.check (make (← Build.arena)))) [] :=
  arena.andThen fun _ => (check _).andThen emit

theorem assign (lvalue rvalue : OperandId) (declared : Ty) :
    EndsBy (assign lvalue rvalue declared) [] := emitChecked _

theorem call (callee : Callee) (args : CallArgs) (lvalue : Option OperandId) :
    EndsBy (call callee args lvalue) [] := emitChecked _

theorem delete (lvalue : OperandId) : EndsBy (delete lvalue) [] := emitChecked _

theorem intrinsicInto (form : Intrinsic) (arguments : List OperandId) (lvalue : OperandId) :
    EndsBy (intrinsicInto form arguments lvalue) [] := call _ _ _

/-- A step that gives an operand, and a step that does something with it. -/
theorem giving {x : Build OperandId} {y : OperandId → Build Unit} (hx : EndsBy x [])
    (hy : ∀ id, EndsBy (y id) []) : EndsBy (do let id ← x; y id; return id) [] :=
  hx.andThen fun id => (hy id).andThen fun _ => pure id

theorem intrinsic (form : Intrinsic) (arguments : List OperandId) (ty : Ty) :
    EndsBy (intrinsic form arguments ty) [] :=
  giving (temporary ty) fun _ => intrinsicInto _ _ _

theorem refer (form : Intrinsic) (ty : Ty) (object : OperandId) (arguments : List OperandId) :
    EndsBy (refer form ty object arguments) [] :=
  giving (reference ty object) fun _ => intrinsicInto _ _ _

theorem emitInto (ty : Ty) (make : OperandId → Arena → Except ModelError Operation) :
    EndsBy (do
      let id ← Build.temporary ty
      Build.emit (← Build.check (make id (← Build.arena)))
      return id) [] :=
  (temporary ty).andThen fun id => arena.andThen fun _ => (check _).andThen fun op =>
    (emit op).andThen fun _ => pure id

theorem unary (token : String) (operand : OperandId) (ty : Ty) :
    EndsBy (unary token operand ty) [] := emitInto ty _

theorem newElementary (ty : Ty) (arguments : List OperandId) :
    EndsBy (newElementary ty arguments) [] := emitInto ty _

theorem newStructure (name : String) (args : CallArgs) (ty : Ty) :
    EndsBy (newStructure name args ty) [] := emitInto ty _

/-! ### Parts of expressions -/

theorem ensure (e : Expr) : EndsBy e.ensure [] := by
  unfold Expr.ensure
  split
  · exact throw _
  · exact pure ()

/-- What comes after an expression was found to be there. -/
theorem ensure_bind {x : Build α} (e : Expr) (h : e.isAbsent = false → EndsBy x callees) :
    EndsBy (e.ensure >>= fun _ => x) callees := by
  cases e with
  | absent field nodeType => exact throw _
  | _ => exact (pure ()).andThen fun _ => h rfl

theorem result (e : Expr) (r : Option OperandId) : EndsBy (e.result r) [] := by
  cases r with
  | none => exact throw _
  | some operand => exact pure operand

/-- An expression that has to have a result, and what is done with it. -/
theorem bind_result {x : Build (Option OperandId)} {f : OperandId → Build β} (e : Expr)
    (hx : EndsBy x callees) (hf : ∀ id, EndsBy (f id) more) :
    EndsBy (x >>= fun r => e.result r >>= f) (callees ++ more) :=
  hx.bind fun r => (result e r).andThen hf

/-- The same if what is done goes on. -/
theorem before_result {x : Build (Option OperandId)} {f : OperandId → Build β} (e : Expr)
    (hx : EndsBy x callees) (hf : ∀ id, EndsBy (f id) []) :
    EndsBy (x >>= fun r => e.result r >>= f) callees :=
  hx.before fun r => (result e r).andThen hf

theorem identifier (env : Env) (text : TypeText) (name : String) (declaration : Option Int) :
    EndsBy (env.identifier text name declaration) [] := by
  refine get fun d => ?_
  split
  · exact pure _
  · split
    · exact state _ _
    · exact state _ _
    · exact builtin _ _
    · split
      · exact builtin _ _
      · split
        · exact pure _
        · exact throw _

theorem stepBy (operator : String) (givesOld : Bool) (ty : Ty) (target : OperandId) :
    EndsBy (stepBy operator givesOld ty target) [] := by
  have hrest (old : Option OperandId) : EndsBy (do
      let one ← Build.constant (.uint 1) ty
      let updated ← Build.intrinsic (.binary operator) [target, one] ty
      Build.assign target updated ty
      return old.getD updated) [] := by
    refine (constant _ _).andThen fun one => (intrinsic _ _ _).andThen fun updated => ?_
    exact (assign _ _ _).andThen fun _ => pure _
  unfold Solidity.stepBy
  cases givesOld with
  | true =>
      refine (temporary ty).andThen fun copy => (assign _ _ _).andThen fun _ => ?_
      exact (pure (some copy)).andThen hrest
  | false => exact (pure none).andThen hrest

theorem applyUnary (form : UnaryForm) (ty : Ty) (operand : OperandId) :
    EndsBy (applyUnary form ty operand) [] := by
  cases form with
  | direct token => exact unary _ _ _
  | negate => exact (constant _ _).andThen fun zero => intrinsic _ _ _
  | step operator givesOld => exact stepBy operator givesOld ty operand
  | delete => exact (delete operand).andThen fun _ => pure operand
  | plain => exact pure operand

theorem collect (isArray : Bool) (ty : Ty) (values : List OperandId) :
    EndsBy (collect isArray ty values) [] := by
  cases isArray with
  | true => exact giving (temporary ty) fun _ => intrinsicInto _ _ _
  | false => exact giving (step fun _ => rfl) fun _ => intrinsicInto _ _ _

/-- A call ends the execution if its callee does. -/
theorem emitCall (callee : Callee) (args : CallArgs) (ty : Ty) :
    EndsBy (emitCall callee args ty) callee.counted := by
  refine (resultFor ty).andThen fun result => (call callee args result).andThen fun _ => ?_
  split
  · next h => exact (revert (exists_counted.2 h)).before fun _ => pure result
  · next h => exact (pure result).idle fun hc => h (exists_counted.1 hc)

theorem emitCreation (created ty : Ty) (arguments : List OperandId) :
    EndsBy (emitCreation created ty arguments) [] := by
  unfold Solidity.emitCreation
  split
  · exact intrinsic _ _ _
  · exact newElementary _ _

/-- A receiver ends the execution if it is used and a callee in it does. -/
theorem receive (use : ReceiverUse) (receiver : Expr) {value : Build (Option OperandId)}
    (hvalue : EndsBy value callees) (args : CallArgs) :
    EndsBy (receive use receiver value args) (if use = .unused then [] else callees) := by
  refine (ensure receiver).andThen fun _ => ?_
  cases use with
  | unused => exact pure args
  | evaluated => exact hvalue.before fun _ => pure args
  | attached => exact before_result receiver hvalue fun _ => pure _

end EndsBy

mutual

theorem endsBy_value (env : Env) : (e : Expr) → EndsBy (value env e) (e.callees env)
  | .absent field nodeType => by
      rw [value]
      exact .throw _
  | .literal text constant => by
      rw [value]
      exact .map (.constant constant _) some
  | .identifier text name declaration => by
      rw [value]
      exact .map (.identifier env text name declaration) some
  | .member text base name declaration => by
      rw [value, Expr.callees]
      refine EndsBy.andThen (.ensure base) fun _ => ?_
      split
      · exact .map (.builtin _ _) some
      · exact .before_result base (endsBy_value env base) fun object => .map (.refer _ _ _ _) some
  | .index text base key => by
      rw [value, Expr.callees]
      refine .bind_result base (endsBy_value env base) fun object => ?_
      exact .before_result key (endsBy_value env key) fun position => .map (.refer _ _ _ _) some
  | .arrayType text base => by
      rw [value]
      exact .map (.builtin _ _) some
  | .typeName text name => by
      rw [value]
      exact .map (.builtin _ _) some
  | .creation text created => by
      rw [value]
      exact .map (.builtin _ _) some
  | .range text base bounds => by
      rw [value, Expr.callees]
      refine .bind_result base (endsBy_value env base) fun object => ?_
      exact (endsBy_values env bounds).before fun limits => .map (.intrinsic _ _ _) some
  | .binary text operator left right => by
      rw [value, Expr.callees]
      refine EndsBy.andThen (.ensure left) fun _ => EndsBy.andThen (.ensure right) fun _ => ?_
      refine .bind_result left (endsBy_value env left) fun first => ?_
      exact .before_result right (endsBy_value env right) fun second => .map (.intrinsic _ _ _) some
  | .unary text form operand => by
      rw [value, Expr.callees]
      exact .before_result operand (endsBy_value env operand) fun id =>
        .map (.applyUnary form _ id) some
  | .assign text operator targetText target source => by
      rw [value, Expr.callees]
      refine EndsBy.andThen (.ensure target) fun _ => ?_
      refine .bind_result source (endsBy_value env source) fun computed => ?_
      refine .before_result target (endsBy_value env target) fun place => ?_
      have hstore (stored : OperandId) :
          EndsBy (do Build.assign place stored (Ty.ofText? targetText); return some place) [] :=
        EndsBy.andThen (.assign _ _ _) fun _ => .pure _
      cases operator with
      | some operator => exact EndsBy.andThen (.intrinsic _ _ _) hstore
      | none => exact EndsBy.andThen (.pure computed) hstore
  | .assignAll text targets source => by
      rw [value, Expr.callees]
      refine .bind_result source (endsBy_value env source) fun computed => ?_
      exact (endsBy_assignComponents env computed 0 targets).before fun _ => .pure _
  | .conditional text condition yes no => by
      rw [value, Expr.callees]
      refine .bind_result condition (endsBy_value env condition) fun test => ?_
      refine .bind_result yes (endsBy_value env yes) fun first => ?_
      exact .before_result no (endsBy_value env no) fun second => .map (.intrinsic _ _ _) some
  | .tuple text isArray components => by
      have hpresent := endsBy_present env components
      rw [Expr.callees]
      -- parentheses: the only component of a tuple stands for the tuple
      by_cases h : ∃ inner, isArray = false ∧ components = [some inner]
      · obtain ⟨inner, hflag, hcomponents⟩ := h
        have hinner := endsBy_component env components inner (by simp [hcomponents])
        subst hflag hcomponents
        rw [value, calleesOfPresent, calleesOfPresent, List.append_nil]
        exact hinner
      · rw [value]
        · exact hpresent.before fun values => .map (.collect isArray _ values) some
        · intro inner hflag hcomponents
          exact h ⟨inner, hflag, hcomponents⟩
  | .call text form options callee arguments names => by
      have hoptions := endsBy_effects env options
      have harguments := endsBy_values env arguments
      rw [value, Expr.callees]
      refine hoptions.bind fun _ => .ensure_bind callee fun hpresent => ?_
      refine harguments.bind fun operands => ?_
      cases form with
      | conversion => exact .map (.intrinsic _ _ _) some
      | construction => exact .map (.newStructure _ _ _) some
      | ordinary =>
          rw [Env.called]
          have hcallee := endsBy_value env callee
          cases callee with
          | absent => cases hpresent
          | creation _ created => exact .map (.emitCreation _ _ operands) some
          | member calleeText base name declaration =>
              rw [Expr.callees, Env.isSignal, env.callees_receiver calleeText]
              refine EndsBy.bind (.receive _ base (endsBy_value env base) _) fun args => ?_
              exact .emitCall _ args _
          | identifier =>
              refine EndsBy.bind (.receive .unused _ hcallee _) fun args => ?_
              exact .emitCall _ args _
          | _ =>
              refine EndsBy.bind (.receive .evaluated _ hcallee _) fun args => ?_
              exact .emitCall _ args _
  | .withOptions text function => by
      rw [value, Expr.callees]
      exact endsBy_value env function
  | .unsupported text nodeType label => by
      rw [value]
      exact .throw _

theorem endsBy_values (env : Env) : (es : List Expr) → EndsBy (values env es) (calleesOf env es)
  | [] => by
      rw [values]
      exact .pure _
  | e :: rest => by
      rw [values, calleesOf]
      refine .bind_result e (endsBy_value env e) fun first => ?_
      exact (endsBy_values env rest).before fun others => .pure _

theorem endsBy_present (env : Env) : (components : List (Option Expr)) →
    EndsBy (present env components) (calleesOfPresent env components)
  | [] => by
      rw [present]
      exact .pure _
  | none :: rest => by
      rw [present, calleesOfPresent]
      exact endsBy_present env rest
  | some e :: rest => by
      rw [present, calleesOfPresent]
      refine .bind_result e (endsBy_value env e) fun first => ?_
      exact (endsBy_present env rest).before fun others => .pure _

theorem endsBy_component (env : Env) : (components : List (Option Expr)) → (e : Expr) →
    some e ∈ components → EndsBy (value env e) (e.callees env)
  | [], _, h => absurd h List.not_mem_nil
  | none :: rest, e, h => by
      rcases List.mem_cons.mp h with h | h
      · cases h
      · exact endsBy_component env rest e h
  | some first :: rest, e, h => by
      rcases List.mem_cons.mp h with h | h
      · cases h
        exact endsBy_value env first
      · exact endsBy_component env rest e h

theorem endsBy_effects (env : Env) : (es : List Expr) → EndsBy (effects env es) (calleesOf env es)
  | [] => by
      rw [effects]
      exact .pure _
  | e :: rest => by
      rw [effects, calleesOf]
      exact (endsBy_value env e).bind fun _ => endsBy_effects env rest

theorem endsBy_assignComponents (env : Env) (source : OperandId) : (position : Nat) →
    (components : List (Option Expr)) →
    EndsBy (assignComponents env source position components) (calleesOfPresent env components)
  | position, [] => by
      rw [assignComponents]
      exact .pure ()
  | position, none :: rest => by
      rw [assignComponents, calleesOfPresent]
      exact endsBy_assignComponents env source (position + 1) rest
  | position, some e :: rest => by
      rw [assignComponents, calleesOfPresent]
      refine .bind_result e (endsBy_value env e) fun place => ?_
      refine EndsBy.andThen (.intrinsicInto _ _ place) fun _ => ?_
      exact endsBy_assignComponents env source (position + 1) rest

end

/-! ## Which calls these are -/

/-- A name begins with `revert`. -/
def beginsRevert (name : String) : Bool := Text.stringStartsWith "revert" name

theorem beginsRevert_signature (name : String) (text : TypeText) :
    beginsRevert (Ty.signature name text) = beginsRevert name := by
  have hparts : (Ty.signature name text).toList = name.toList ++ '(' ::
      (",".intercalate ((text.bind Ty.functionParameters?).getD []) ++ ")").toList := by
    simp [Ty.signature]
  rw [beginsRevert, Text.stringStartsWith, hparts, Text.startsWith_append_cons (by decide)]
  rfl

theorem beginsRevert_member (label name : String) :
    beginsRevert (label ++ "." ++ name) = beginsRevert label := by
  have hparts : (label ++ "." ++ name).toList = label.toList ++ '.' :: name.toList := by simp
  rw [beginsRevert, Text.stringStartsWith, hparts, Text.startsWith_append_cons (by decide)]
  rfl

theorem beginsRevert_error (name : String) (text : TypeText) :
    beginsRevert ("revert " ++ Ty.signature name text) := by
  have hparts : ("revert " ++ Ty.signature name text).toList =
      "revert".toList ++ ' ' :: (Ty.signature name text).toList := by simp
  rw [beginsRevert, Text.stringStartsWith, hparts, Text.startsWith_append_cons (by decide)]
  decide

/-- A call of the expression stands in the other expression. -/
def Expr.Calls (e callee : Expr) : Prop :=
  ∃ text options arguments names, (Expr.call text .ordinary options callee arguments names).Within e

/-- A call in an expression is the expression itself or stands in a part. -/
theorem Expr.Calls.cases {e callee : Expr} (h : e.Calls callee) :
    (∃ text options arguments names, e = .call text .ordinary options callee arguments names) ∨
      ∃ part ∈ e.children, part.Calls callee := by
  obtain ⟨text, options, arguments, names, hwithin⟩ := h
  rcases Relation.ReflTransGen.cases_tail hwithin with heq | ⟨part, hpart, hmem⟩
  · exact .inl ⟨text, options, arguments, names, heq⟩
  · exact .inr ⟨part, hmem, text, options, arguments, names, hpart⟩

/-- A receiver of which every member that is called ends the execution: it is no value, and its name
begins with `revert`. -/
def Expr.namesRevert (base : Expr) : Bool :=
  match base.ty with
  | .contract _ => false
  | _ => base.isNamespace && beginsRevert base.namespaceLabel

/-- A call of the expression ends the execution: it is a name of the compiler that begins with
`revert`, an error, or a member of something that is named that way. -/
def Env.namesRevert (env : Env) : Expr → Bool
  | .identifier _ name declaration =>
      match env.index.declaration? declaration with
      | some (.error _) => true
      | none => Expr.isPredeclared declaration && beginsRevert name
      | some _ => false
  | .member _ base _ declaration =>
      !base.isSuper && match env.index.declaration? declaration with
        | some (.error _) => true
        | some (.event _) | some (.function none) => false
        | some (.function (some declarer)) =>
            (env.library? declarer).isNone && !base.ty.isTypeOf && base.namesRevert
        | _ => base.namesRevert
  | _ => false

theorem isRevert_internalOr (target : Option FunctionId) (label : String) :
    isRevert (Env.internalOr target label) = false := by
  cases target <;> rfl

theorem isRevert_virtual (env : Env) (definition : Int) (name : String) :
    isRevert (env.virtual definition name) = false := by
  unfold Env.virtual
  dsimp only
  split
  · rfl
  · split
    · exact isRevert_internalOr _ _
    · rfl

theorem isRevert_identifierCallee (env : Env) (text : TypeText) (name : String)
    (declaration : Option Int) :
    isRevert (env.identifierCallee text name declaration) =
      env.namesRevert (.identifier text name declaration) := by
  unfold Env.identifierCallee
  rw [Env.namesRevert]
  cases declaration with
  | none => exact beginsRevert_signature name text
  | some definition =>
      cases env.index.declaration? (some definition) with
      | none =>
          cases hpre : Expr.isPredeclared (some definition) with
          | true => exact beginsRevert_signature name text
          | false => rfl
      | some ref =>
          cases ref with
          | function declarer =>
              cases declarer with
              | none => exact isRevert_internalOr _ _
              | some declarer => exact isRevert_virtual env definition name
          | error => exact beginsRevert_error name text
          | _ => rfl

theorem isRevert_receiverCallee (env : Env) (text : TypeText) (base : Expr) (name : String)
    (declaration : Option Int) :
    isRevert (env.receiverCallee text base name declaration).1 = base.namesRevert := by
  unfold Env.receiverCallee Expr.namesRevert
  cases base.ty with
  | contract => rfl
  | _ =>
      cases hnamespace : base.isNamespace with
      | true =>
          exact (beginsRevert_signature _ text).trans (beginsRevert_member base.namespaceLabel name)
      | false =>
          dsimp only
          split
          · contradiction
          · split <;> rfl

theorem isRevert_memberCallee (env : Env) (text : TypeText) (base : Expr) (name : String)
    (declaration : Option Int) :
    isRevert (env.memberCallee text base name declaration).1 =
      env.namesRevert (.member text base name declaration) := by
  have hreceiver := isRevert_receiverCallee env text base name declaration
  unfold Env.memberCallee
  rw [Env.namesRevert]
  cases hsuper : base.isSuper with
  | true => exact isRevert_internalOr _ _
  | false =>
      cases declaration with
      | none => exact hreceiver
      | some definition =>
          cases env.index.declaration? (some definition) with
          | none => exact hreceiver
          | some ref =>
              cases ref with
              | function declarer =>
                  cases declarer with
                  | none => exact isRevert_internalOr _ _
                  | some declarer =>
                      cases hlibrary : env.library? declarer with
                      | some library =>
                          cases hinstance : env.index.instance? (some declarer) definition <;>
                            simp [hlibrary, hinstance, isRevert]
                      | none =>
                          cases hty : base.ty.isTypeOf with
                          | true => simp [hlibrary, isRevert_internalOr]
                          | false => simpa [hlibrary, hty] using hreceiver
              | error => exact beginsRevert_error name text
              | event => rfl
              | _ => exact hreceiver

/-- The callees that end the execution, read off the syntax. -/
theorem isRevert_resolve (env : Env) (callee : Expr) :
    isRevert (env.resolve callee).1 = env.namesRevert callee := by
  cases callee with
  | identifier text name declaration => exact isRevert_identifierCallee env text name declaration
  | member text base name declaration => exact isRevert_memberCallee env text base name declaration
  | _ => rfl

theorem namesRevert_of_mem_targets {env : Env} {callee : Expr} {c : Callee}
    (hc : c ∈ env.targets callee) (h : isRevert c) : env.namesRevert callee := by
  have hcounted : c ∈ (env.resolve callee).1.counted := by
    unfold Env.targets at hc
    split at hc
    · cases hc
    · cases hc
    · exact hc
  obtain rfl := List.mem_singleton.1 (List.mem_filter.1 hcounted).1
  rwa [isRevert_resolve] at h

/-- A callee of an expression is one of a part, or the target of the expression itself. -/
theorem mem_callees {env : Env} {e : Expr} {c : Callee} (h : c ∈ e.callees env) :
    (∃ part ∈ e.children, c ∈ part.callees env) ∨
      ∃ callee, e.Calls callee ∧ c ∈ env.targets callee := by
  cases e with
  | call text form options callee arguments names =>
      simp only [Expr.callees, calleesOf_eq, List.mem_append, List.mem_flatMap] at h
      rcases h with ⟨part, hpart, hc⟩ | ⟨part, hpart, hc⟩ | hc
      · exact .inl ⟨part, by simp [Expr.children, hpart], hc⟩
      · exact .inl ⟨part, by simp [Expr.children, hpart], hc⟩
      · cases form with
        | conversion | construction => cases hc
        | ordinary =>
            rcases List.mem_append.1 hc with hc | hc
            · refine .inl ⟨callee, by simp [Expr.children], ?_⟩
              split at hc
              · cases hc
              · exact hc
            · exact .inr ⟨callee, ⟨text, options, arguments, names, .refl⟩, hc⟩
  | member text base name declaration =>
      refine .inl ⟨base, by simp [Expr.children], ?_⟩
      rw [Expr.callees] at h
      split at h
      · cases h
      · exact h
  | assign _ _ _ target source =>
      refine .inl ?_
      rw [Expr.callees, List.mem_append] at h
      simpa [Expr.children, or_comm] using h
  | _ =>
      refine .inl ?_
      simp_all [Expr.callees, Expr.children, calleesOf_eq, calleesOfPresent_eq]

theorem sizeOf_lt_of_mem_children {e part : Expr} (h : part ∈ e.children) :
    sizeOf part < sizeOf e := by
  have hpresent {components : List (Option Expr)} (hmem : part ∈ components.filterMap id) :
      sizeOf part < sizeOf components := by
    have hlt := List.sizeOf_lt_of_mem (show some part ∈ components by simpa using hmem)
    rw [Option.some.sizeOf_spec] at hlt
    omega
  cases e <;> simp only [Expr.children, List.mem_cons, List.mem_append, List.not_mem_nil,
    or_false] at h
  case range =>
    rw [Expr.range.sizeOf_spec]
    rcases h with rfl | h
    · omega
    · have := List.sizeOf_lt_of_mem h
      omega
  case assignAll =>
    rw [Expr.assignAll.sizeOf_spec]
    rcases h with rfl | h
    · omega
    · have := hpresent h
      omega
  case tuple =>
    rw [Expr.tuple.sizeOf_spec]
    have := hpresent h
    omega
  case call =>
    rw [Expr.call.sizeOf_spec]
    rcases h with rfl | h | h
    · omega
    · have := List.sizeOf_lt_of_mem h
      omega
    · have := List.sizeOf_lt_of_mem h
      omega
  all_goals
    rcases h with rfl | rfl | rfl <;> simp <;> omega

/-- The callees of an expression are targets of calls in it. -/
theorem exists_calls_of_mem_callees {env : Env} {e : Expr} {c : Callee} (h : c ∈ e.callees env) :
    ∃ callee, e.Calls callee ∧ c ∈ env.targets callee := by
  rcases mem_callees h with ⟨part, hpart, hc⟩ | hcalls
  · have hsize := sizeOf_lt_of_mem_children hpart
    obtain ⟨callee, ⟨text, options, arguments, names, hwithin⟩, htarget⟩ :=
      exists_calls_of_mem_callees hc
    exact ⟨callee, ⟨text, options, arguments, names, hwithin.tail hpart⟩, htarget⟩
  · exact hcalls
termination_by sizeOf e

/-! ## Where the lowering goes on -/

/-- Lowering an expression goes on in the node where it stands unless a callee ends the execution, and
then that node is cut off from all that follows.  Only calls in the expression do so that name
`revert`, an error, or a member of something named that way. -/
theorem value_goesOn {env : Env} {e : Expr} {d d' : Draft} {result : Option OperandId}
    (live : d.isTerminated = false) (h : (value env e).run d = (.ok result, d')) :
    ((∀ callee, e.Calls callee → env.namesRevert callee = false) → d.GoesOn d') ∧
    (d.GoesOn d' ↔ ∀ c ∈ e.callees env, isRevert c = false) ∧
    (d.CutOff d' ↔ ∃ c ∈ e.callees env, isRevert c) := by
  obtain ⟨as, hacts, hreverts⟩ := (endsBy_value env e d).of_run h
  have hgoes (hnone : ∀ c ∈ e.callees env, isRevert c = false) : d.GoesOn d' := by
    refine Draft.goesOn_of_acts live hacts fun has => ?_
    obtain ⟨c, hc, hrevert⟩ := hreverts.1 has
    exact absurd ((hnone c hc).symm.trans hrevert) nofun
  have hcut (hsome : ∃ c ∈ e.callees env, isRevert c) : d.CutOff d' :=
    Draft.cutOff_of_acts live hacts (hreverts.2 hsome)
  have hsplit : (∀ c ∈ e.callees env, isRevert c = false) ↔ ¬ ∃ c ∈ e.callees env, isRevert c := by
    simp
  -- a draft does not both go on and end there
  have hapart (hd : d.GoesOn d') (hd' : d.CutOff d') : False := hd'.unreached .nop (hd.reached .nop)
  refine ⟨fun hcalls => hgoes fun c hc => ?_, ⟨fun hd => hsplit.2 fun hsome => ?_, hgoes⟩,
    ⟨fun hd => ?_, hcut⟩⟩
  · obtain ⟨callee, hcallee, htarget⟩ := exists_calls_of_mem_callees hc
    refine eq_false_of_ne_true fun hrevert => ?_
    have hname := namesRevert_of_mem_targets htarget hrevert
    exact absurd ((hcalls callee hcallee).symm.trans hname) nofun
  · exact hapart hd (hcut hsome)
  · by_contra hnone
    exact hapart (hgoes (hsplit.2 hnone)) hd

/-! ## An error as an argument -/

/-- Where a function behind an error `E` is lowered. -/
def rejecting : Env :=
  ⟨.new "c.sol" .solidity, Index.empty.setDeclaration 11 (.error "E"), none⟩

/-- The expression `require(true)`. -/
def requirement : Expr :=
  .call (some "tuple()") .ordinary [] (.identifier (some "function (bool) pure") "require" (some (-18)))
    [.literal (some "bool") (.bool true)] []

/-- A requirement goes on in the node where it stands. -/
theorem requirement_goesOn : ∃ result d',
    (value rejecting requirement).run (.start .start) = (.ok result, d') ∧
      Draft.GoesOn (.start .start) d' := by
  have hrun : ((value rejecting requirement).run (.start .start)).1 = .ok none := by decide +kernel
  cases hvalue : (value rejecting requirement).run (.start .start) with
  | mk outcome d' =>
      rw [hvalue] at hrun
      subst hrun
      refine ⟨none, d', rfl, ((value_goesOn rfl hvalue).2.1).2 ?_⟩
      decide +kernel

/-- The expression `require(true, E())`. -/
def rejection : Expr :=
  .call (some "tuple()") .ordinary []
    (.identifier (some "function (bool,error) pure") "require" (some (-18)))
    [.literal (some "bool") (.bool true),
      .call (some "error") .ordinary []
        (.identifier (some "function () pure returns (error)") "E" (some 11)) [] []] []

/-- The expression is the builtin `revert`. -/
def Env.isRevertBuiltin (env : Env) : Expr → Bool
  | .identifier _ name declaration =>
      name == "revert" && Expr.isPredeclared declaration && (env.index.declaration? declaration).isNone
  | _ => false

/-- What is called in `require(true, E())`. -/
theorem calls_rejection {callee : Expr} (h : rejection.Calls callee) :
    ∃ text name declaration, callee = .identifier text name declaration ∧ name ≠ "revert" := by
  have hnone {e : Expr} (hparts : e.children = [])
      (he : ∀ text options callee arguments names,
        e ≠ .call text .ordinary options callee arguments names) : ¬ e.Calls callee := by
    intro hcalls
    rcases hcalls.cases with ⟨text, options, arguments, names, heq⟩ | ⟨part, hpart, -⟩
    · exact he _ _ _ _ _ heq
    · rw [hparts] at hpart
      cases hpart
  rcases h.cases with ⟨text, options, arguments, names, heq⟩ | ⟨part, hpart, hcalls⟩
  · cases heq
    exact ⟨_, _, _, rfl, by decide⟩
  · rcases hpart with _ | ⟨_, _ | ⟨_, _ | ⟨_, hpart⟩⟩⟩
    · exact absurd hcalls (hnone rfl nofun)
    · exact absurd hcalls (hnone rfl nofun)
    · rcases hcalls.cases with ⟨text, options, arguments, names, heq⟩ | ⟨part, hpart, hcalls⟩
      · cases heq
        exact ⟨_, _, _, rfl, by decide⟩
      · rcases hpart with _ | ⟨_, hpart⟩
        · exact absurd hcalls (hnone rfl nofun)
        · cases hpart
    · cases hpart

/-- An error as an argument cuts off what follows, although nothing calls `revert`. -/
theorem error_argument_cuts_off :
    ¬ ∀ (env : Env) (e : Expr) (d d' : Draft) (result : Option OperandId),
      (∀ callee, e.Calls callee → env.isRevertBuiltin callee = false) → d.isTerminated = false →
      (value env e).run d = (.ok result, d') → d.GoesOn d' := by
  intro h
  have hrun : ((value rejecting rejection).run (.start .start)).1 = .ok none ∧
      ((value rejecting rejection).run (.start .start)).2.current = ⟨1⟩ := by decide +kernel
  cases hvalue : (value rejecting rejection).run (.start .start) with
  | mk outcome d' =>
      rw [hvalue] at hrun
      obtain ⟨rfl, hcurrent⟩ := hrun
      have hcalls (callee : Expr) (hcallee : rejection.Calls callee) :
          rejecting.isRevertBuiltin callee = false := by
        obtain ⟨text, name, declaration, rfl, hname⟩ := calls_rejection hcallee
        simp [Env.isRevertBuiltin, hname]
      have hgoes := h rejecting rejection (.start .start) d' none hcalls rfl hvalue
      exact absurd (hcurrent.symm.trans hgoes.current) (by decide)

end Solidity

end ContractCalls
