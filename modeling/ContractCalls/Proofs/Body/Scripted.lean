/-
# Programs that are calls on a draft

A step is scripted if it changes a draft only by calls: from every draft it
ends, by success or by failure, in one that some calls lead to.  What every
call keeps, a scripted step therefore keeps, on all its ways out.

There is one rule for each way of composing steps and one lemma for each step
there is, so that a lowering is scripted by a walk along its lines.
-/
import ContractCalls.Proofs.Body.Edit

namespace ContractCalls

/-- The step leaves drafts that calls lead to. -/
def Scripted {α : Type} (x : Build α) : Prop :=
  ∀ d : Draft, ∃ es, (x.run d).2 = Edit.afterAll es d

namespace Scripted

variable {α β : Type} {x : Build α} {f : α → Build β}

theorem pure (a : α) : Scripted (Pure.pure a : Build α) := fun _ => ⟨[], rfl⟩

theorem throw (e : FrontEndError) : Scripted (MonadExcept.throw e : Build α) := fun _ => ⟨[], rfl⟩

/-- A step, and what is done with its value: the calls of one come behind those of the other. -/
theorem bind (hx : Scripted x) (hf : ∀ a, Scripted (f a)) : Scripted (x >>= f) := by
  intro d
  obtain ⟨es, hes⟩ := hx d
  cases hrun : x.run d with
  | mk r t =>
      rw [hrun] at hes
      cases r with
      | error e => exact ⟨es, by rw [Linear.run_bind_error hrun, ← hes]⟩
      | ok a =>
          obtain ⟨fs, hfs⟩ := hf a t
          refine ⟨es ++ fs, ?_⟩
          rw [Linear.run_bind_ok hrun, hfs, Edit.afterAll_append, ← hes]

theorem seq {y : Build β} (hx : Scripted x) (hy : Scripted y) : Scripted (x >>= fun _ => y) :=
  hx.bind fun _ => hy

theorem map {g : α → β} (hx : Scripted x) : Scripted (g <$> x) := hx.bind fun a => pure (g a)

/-- Looking at the draft. -/
theorem get {f : Draft → Build β} (hf : ∀ d, Scripted (f d)) :
    Scripted (MonadState.get >>= f) := by
  intro d
  obtain ⟨es, hes⟩ := hf d d
  exact ⟨es, hes⟩

/-- A step that does what a call does. -/
theorem one (e : Edit) (h : ∀ d, (x.run d).2 = e.after d) : Scripted x :=
  fun d => ⟨[e], h d⟩

/-- A step that gives a value beside what a call does. -/
theorem giving (e : Edit) (h : e.perform = do let _ ← x) : Scripted x :=
  one e fun d => by rw [Edit.after, h, Edit.run_discard]

/-- A check that something holds before going on. -/
theorem check (result : Except ModelError α) : Scripted (Build.check result) := by
  cases result with
  | ok a => exact pure a
  | error e => exact throw _

theorem arena : Scripted Build.arena := get fun _ => pure _

theorem tyOf (id : OperandId) : Scripted (Build.tyOf id) := arena.bind fun _ => pure _

/-! ### Nodes -/

theorem newNode : Scripted Build.newNode := giving .newNode rfl

theorem switchTo (n : NodeId) : Scripted (Build.switchTo n) := one (.switchTo n) fun _ => rfl

theorem terminate (t : Terminator) : Scripted (Build.terminate t) := one (.terminate t) fun _ => rfl

theorem goto (n : NodeId) : Scripted (Build.goto n) := one (Edit.goto n) fun _ => rfl

theorem branch (condition : OperandId) (yes no : NodeId) : Scripted (Build.branch condition yes no) :=
  one (Edit.branch condition yes no) fun _ => rfl

theorem annotate (span : Option Span) : Scripted (Build.annotate span) :=
  one (.annotate span) fun _ => rfl

theorem nop : Scripted (Build.emit .nop) := one Edit.nop fun _ => rfl

/-! ### Operands -/

theorem declareLocal (name : String) (ty : Ty) : Scripted (Build.declareLocal name ty) :=
  giving (.declareLocal name ty) rfl

theorem state (name : String) (ty : Ty) : Scripted (Build.state name ty) :=
  giving (.state name ty) rfl

theorem builtin (name : String) (ty : Ty) : Scripted (Build.builtin name ty) :=
  giving (.builtin name ty) rfl

theorem constant (value : Constant) (ty : Ty) : Scripted (Build.constant value ty) :=
  giving (.constant value ty) rfl

theorem temporary (ty : Ty) : Scripted (Build.temporary ty) := giving (.temporary ty) rfl

theorem tuple (ty : Ty) : Scripted (Build.step (·.tuple ty)) := giving (.tuple ty) rfl

theorem resultFor (ty : Ty) : Scripted (Build.step (·.resultFor ty)) := giving (.resultFor ty) rfl

theorem reference (ty : Ty) (target : OperandId) : Scripted (Build.reference ty target) :=
  giving (.reference ty target) rfl

/-! ### Operations -/

theorem assign (lvalue rvalue : OperandId) (declared : Ty) :
    Scripted (Build.assign lvalue rvalue declared) :=
  one (Edit.assign lvalue rvalue declared) fun _ => rfl

theorem call (callee : Callee) (args : CallArgs) (lvalue : Option OperandId) :
    Scripted (Build.call callee args lvalue) :=
  one (Edit.call callee args lvalue) fun _ => rfl

theorem delete (lvalue : OperandId) : Scripted (Build.delete lvalue) :=
  one (Edit.delete lvalue) fun _ => rfl

theorem intrinsicInto (form : Intrinsic) (arguments : List OperandId) (lvalue : OperandId) :
    Scripted (Build.intrinsicInto form arguments lvalue) := call _ _ _

/-- An operation that is checked and writes a fresh temporary, given beside the call. -/
theorem run_emitInto (ty : Ty) (make : OperandId → Arena → Except ModelError Operation) (d : Draft) :
    (ExceptT.run (do
      let id ← Build.temporary ty
      Build.emit (← Build.check (make id (← Build.arena)))
      return id : Build OperandId) d).2 = (Edit.emitInto ty make).after d := by
  rw [Edit.after_emitInto]
  show (ExceptT.run (do
    let op ← Build.check (make (d.temporary ty).1 (d.temporary ty).2.body.arena)
    Build.emit op
    return (d.temporary ty).1 : Build OperandId) (d.temporary ty).2).2 = _
  cases make (d.temporary ty).1 (d.temporary ty).2.body.arena with
  | ok op => rfl
  | error e => rfl

theorem intrinsic (form : Intrinsic) (arguments : List OperandId) (ty : Ty) :
    Scripted (Build.intrinsic form arguments ty) := by
  refine one (Edit.intrinsic form arguments ty) fun d => ?_
  rw [Edit.intrinsic, Edit.after_emitInto]
  show (ExceptT.run (do
    Build.check (Operation.mkCall (d.temporary ty).2.body.arena (.intrinsic form)
      (.positional arguments) (some (d.temporary ty).1)) >>= Build.emit
    return (d.temporary ty).1 : Build OperandId) (d.temporary ty).2).2 = _
  cases Operation.mkCall (d.temporary ty).2.body.arena (.intrinsic form) (.positional arguments)
    (some (d.temporary ty).1) with
  | ok op => rfl
  | error e => rfl

theorem unary (token : String) (operand : OperandId) (ty : Ty) :
    Scripted (Build.unary token operand ty) :=
  one (Edit.unary token operand ty) (run_emitInto ty _)

theorem newElementary (ty : Ty) (arguments : List OperandId) :
    Scripted (Build.newElementary ty arguments) :=
  one (Edit.newElementary ty arguments) (run_emitInto ty _)

theorem newStructure (name : String) (args : CallArgs) (ty : Ty) :
    Scripted (Build.newStructure name args ty) :=
  one (Edit.newStructure name args ty) (run_emitInto ty _)

theorem refer (form : Intrinsic) (ty : Ty) (object : OperandId) (arguments : List OperandId) :
    Scripted (Build.refer form ty object arguments) :=
  (reference ty object).bind fun id => (intrinsicInto _ _ id).seq (pure id)

/-! ### Scopes and loops -/

theorem inScope {y : Build Unit} (hy : Scripted y) : Scripted (Build.inScope y) :=
  (one .pushScope fun _ => rfl).seq (hy.seq (one .popScope fun _ => rfl))

theorem inLoop (continueTo breakTo : NodeId) {y : Build Unit} (hy : Scripted y) :
    Scripted (Build.inLoop continueTo breakTo y) :=
  (one (.pushLoop ⟨continueTo, breakTo⟩) fun _ => rfl).seq (hy.seq (one .popLoop fun _ => rfl))

theorem leaveTo (target : LoopTargets → NodeId) : Scripted (Build.leaveTo target) := by
  refine get fun d => ?_
  split
  · exact goto _
  · exact pure _

end Scripted

end ContractCalls
