/-
# Steps that only go forward

The lowering of an expression never looks at the nodes: it adds operands, and
to the nodes it does two things only, it emits operations and it ends the
execution.  Which operations these are depends on the operands alone.

`d.over e` is the draft with the operands of `d` and the nodes of `e`.  A step
is `Linear` if from the operands of `d` it gives one result and one list of
acts, whatever the nodes are; the acts are then done to the nodes.  So a linear
step can be run on an empty node to see what it emits, and emits just that
wherever it stands.
-/
import ContractCalls.Body.Draft
import ContractCalls.Proofs.Outcome

namespace ContractCalls

/-- What a linear step does to the nodes. -/
inductive Act where
  | emit (op : Operation)
  /-- The end of the execution. -/
  | revert

namespace Draft

/-- The operands of a draft with the nodes, the current node and the loops of another. -/
def onto (d e : Draft) : Draft :=
  { d with
    body := { d.body with nodes := e.body.nodes, entry := e.body.entry }
    current := e.current
    loops := e.loops }

@[simp] theorem onto_self (d : Draft) : d.onto d = d := rfl

@[simp] theorem onto_onto (d e f : Draft) : (d.onto e).onto f = d.onto f := rfl

def act (d : Draft) : Act → Draft
  | .emit op => d.emit op
  | .revert => d.terminate .revert

def acts (d : Draft) (as : List Act) : Draft := as.foldl act d

@[simp] theorem acts_nil (d : Draft) : d.acts [] = d := rfl

@[simp] theorem acts_cons (d : Draft) (a : Act) (as : List Act) :
    d.acts (a :: as) = (d.act a).acts as := rfl

@[simp] theorem acts_append (d : Draft) (as bs : List Act) :
    d.acts (as ++ bs) = (d.acts as).acts bs := List.foldl_append

theorem onto_emit (d e : Draft) (op : Operation) : (d.onto e).emit op = d.onto (e.emit op) := by
  have hopen : (d.onto e).isTerminated = e.isTerminated := rfl
  unfold emit reopen
  rw [hopen]
  split <;> rfl

theorem onto_act (d e : Draft) (a : Act) : (d.onto e).act a = d.onto (e.act a) := by
  cases a with
  | emit op => exact onto_emit d e op
  | revert => rfl

end Draft

/-- The step looks at operands only, and only acts on nodes. -/
def Linear {α : Type} (x : Build α) : Prop :=
  ∀ d : Draft, ∃ (r : Except FrontEndError α) (d' : Draft) (as : List Act), ∀ e : Draft,
    x.run (d.onto e) = (r, d'.onto (e.acts as))

namespace Linear

variable {α β : Type} {x : Build α} {f : α → Build β}

theorem pure (a : α) : Linear (Pure.pure a : Build α) := fun d => ⟨.ok a, d, [], fun _ => rfl⟩

theorem throw (e : FrontEndError) : Linear (MonadExcept.throw e : Build α) :=
  fun d => ⟨.error e, d, [], fun _ => rfl⟩

theorem run_bind_ok {s t : Draft} {a : α} (h : x.run s = (.ok a, t)) :
    (x >>= f).run s = (f a).run t := by
  simp only [bind, ExceptT.run, ExceptT.bind, ExceptT.mk, StateT.bind, ExceptT.bindCont] at h ⊢
  rw [h]

theorem run_bind_error {s t : Draft} {e : FrontEndError} (h : x.run s = (.error e, t)) :
    (x >>= f).run s = (.error e, t) := by
  simp only [bind, ExceptT.run, ExceptT.bind, ExceptT.mk, StateT.bind, ExceptT.bindCont] at h ⊢
  rw [h]
  rfl

/-- A step, and what is done with its value: the acts of one come behind those of the other. -/
theorem bind (hx : Linear x) (hf : ∀ a, Linear (f a)) : Linear (x >>= f) := by
  intro d
  obtain ⟨r, d₁, as, h⟩ := hx d
  cases r with
  | error e => exact ⟨.error e, d₁, as, fun e' => run_bind_error (h e')⟩
  | ok a =>
      obtain ⟨r, d₂, bs, h'⟩ := hf a d₁
      refine ⟨r, d₂, as ++ bs, fun e => ?_⟩
      rw [run_bind_ok (h e), h', Draft.acts_append]

theorem map {g : α → β} (hx : Linear x) : Linear (g <$> x) := hx.bind fun a => pure (g a)

theorem seq {y : Build β} (hx : Linear x) (hy : Linear y) : Linear (x >>= fun _ => y) :=
  hx.bind fun _ => hy

/-- Looking at the operands of a draft. -/
theorem get {f : Draft → Build β} (honto : ∀ d e, f (d.onto e) = f d) (hf : ∀ d, Linear (f d)) :
    Linear (MonadState.get >>= f) := by
  intro d
  obtain ⟨r, d', as, h⟩ := hf d d
  refine ⟨r, d', as, fun e => ?_⟩
  show (f (d.onto e)).run (d.onto e) = _
  rw [honto, h]

/-- A change of the operands. -/
theorem modify {g : Draft → Draft} (honto : ∀ d e, g (d.onto e) = (g d).onto e) :
    Linear (modify g : Build PUnit) := by
  intro d
  refine ⟨.ok ⟨⟩, g d, [], fun e => ?_⟩
  show (Except.ok PUnit.unit, g (d.onto e)) = _
  rw [honto]
  rfl

/-- A change of the operands that gives a value. -/
theorem step {g : Draft → α × Draft}
    (honto : ∀ d e, g (d.onto e) = ((g d).1, (g d).2.onto e)) : Linear (Build.step g) := by
  intro d
  refine ⟨.ok (g d).1, (g d).2, [], fun e => ?_⟩
  show (Except.ok (g (d.onto e)).1, (g (d.onto e)).2) = _
  rw [honto]
  rfl

/-! ### Acts -/

theorem emit (op : Operation) : Linear (Build.emit op) := by
  intro d
  refine ⟨.ok ⟨⟩, d, [.emit op], fun e => ?_⟩
  show (Except.ok PUnit.unit, (d.onto e).emit op) = _
  rw [Draft.onto_emit]
  rfl

theorem revert : Linear (Build.terminate .revert) :=
  fun d => ⟨.ok ⟨⟩, d, [.revert], fun _ => rfl⟩

theorem revertIf (c : Bool) (hx : Linear x) :
    Linear (if c then do Build.terminate .revert; x else x) := by
  cases c with
  | true => exact revert.seq hx
  | false => exact hx

/-! ### Operands -/

theorem declareLocal (name : String) (ty : Ty) : Linear (Build.declareLocal name ty) :=
  step fun _ _ => rfl

theorem state (name : String) (ty : Ty) : Linear (Build.state name ty) := by
  refine step fun d e => ?_
  have hget : (d.onto e).states.get? name = d.states.get? name := rfl
  unfold Draft.state
  rw [hget]
  split <;> rfl

theorem builtin (name : String) (ty : Ty) : Linear (Build.builtin name ty) := by
  refine step fun d e => ?_
  have hget : (d.onto e).builtins.get? name = d.builtins.get? name := rfl
  unfold Draft.builtin
  rw [hget]
  split <;> rfl

theorem constant (value : Constant) (ty : Ty) : Linear (Build.constant value ty) :=
  step fun _ _ => rfl

theorem temporary (ty : Ty) : Linear (Build.temporary ty) := step fun _ _ => rfl

theorem tuple (ty : Ty) : Linear (Build.step (·.tuple ty)) := step fun _ _ => rfl

theorem resultFor (ty : Ty) : Linear (Build.step (·.resultFor ty)) := by
  refine step fun d e => ?_
  unfold Draft.resultFor
  split <;> rfl

theorem arena : Linear Build.arena := get (fun _ _ => rfl) fun _ => pure _

theorem check (result : Except ModelError α) : Linear (Build.check result) := by
  cases result with
  | ok a => exact pure a
  | error e => exact throw _

theorem reference (ty : Ty) (target : OperandId) : Linear (Build.reference ty target) := by
  refine (step fun _ _ => rfl).bind fun id => arena.bind fun a => (check _).bind fun a' => ?_
  exact (modify fun _ _ => rfl).seq (pure id)

/-! ### Operations -/

theorem emitChecked (make : Arena → Except ModelError Operation) :
    Linear (do Build.emit (← Build.check (make (← Build.arena)))) :=
  arena.bind fun _ => (check _).bind emit

theorem assign (lvalue rvalue : OperandId) (declared : Ty) :
    Linear (Build.assign lvalue rvalue declared) := emitChecked _

theorem call (callee : Callee) (args : CallArgs) (lvalue : Option OperandId) :
    Linear (Build.call callee args lvalue) := emitChecked _

theorem delete (lvalue : OperandId) : Linear (Build.delete lvalue) := emitChecked _

theorem intrinsicInto (form : Intrinsic) (arguments : List OperandId) (lvalue : OperandId) :
    Linear (Build.intrinsicInto form arguments lvalue) := call _ _ _

/-- A step that gives an operand, and a step that does something with it. -/
theorem giving {x : Build OperandId} {y : OperandId → Build Unit} (hx : Linear x)
    (hy : ∀ id, Linear (y id)) : Linear (do let id ← x; y id; return id) :=
  hx.bind fun id => (hy id).seq (pure id)

theorem intrinsic (form : Intrinsic) (arguments : List OperandId) (ty : Ty) :
    Linear (Build.intrinsic form arguments ty) :=
  giving (temporary ty) fun _ => intrinsicInto _ _ _

theorem refer (form : Intrinsic) (ty : Ty) (object : OperandId) (arguments : List OperandId) :
    Linear (Build.refer form ty object arguments) :=
  giving (reference ty object) fun _ => intrinsicInto _ _ _

theorem emitInto (ty : Ty) (make : OperandId → Arena → Except ModelError Operation) :
    Linear (do
      let id ← Build.temporary ty
      Build.emit (← Build.check (make id (← Build.arena)))
      return id) :=
  (temporary ty).bind fun id => arena.bind fun _ => (check _).bind fun op => (emit op).seq (pure id)

theorem unary (token : String) (operand : OperandId) (ty : Ty) :
    Linear (Build.unary token operand ty) := emitInto ty _

theorem newElementary (ty : Ty) (arguments : List OperandId) :
    Linear (Build.newElementary ty arguments) := emitInto ty _

theorem newStructure (name : String) (args : CallArgs) (ty : Ty) :
    Linear (Build.newStructure name args ty) := emitInto ty _

end Linear

end ContractCalls
