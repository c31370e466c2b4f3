/-
# Statements of Solidity keep their structure

The lowering lays a statement out in nodes.  `program` reads the same statement
as a structured program without nodes: it goes through the statement in the
order of the lowering, since names and numbers of operands depend on that
order, and takes the operations of each expression from a run of it on an empty
node.

The paths of a lowered body read exactly what the program of its statement
runs.  Both go through the statement together; each form of statement is one
rule for laying out nodes.
-/
import ContractCalls.Proofs.Body.Layout
import ContractCalls.Proofs.Solidity.Linear
import ContractCalls.Proofs.Solidity.Lowering
import ContractCalls.Proofs.Solidity.Node
import ContractCalls.Solidity.Loader
import Mathlib

namespace ContractCalls

theorem Draft.onto_popScope (d e : Draft) : (d.onto e).popScope = d.popScope.onto e := by
  have hscopes : (d.onto e).scopes = d.scopes := rfl
  unfold popScope
  rw [hscopes]
  split <;> rfl

theorem Draft.Lowered.inScope {d d' : Draft} {p : Program} (h : d.pushScope.Lowered d' p) :
    d.Lowered d'.popScope p := by
  have hpop : d'.popScope = d'.popScope.onto d' := by
    rw [← onto_popScope]
    rfl
  rw [hpop]
  exact (Lowered.of_onto (f := d.pushScope) h).onto _

namespace Build

/-- Runs a step in a scope of its own and keeps its value. -/
def withScope {α : Type} (x : Build α) : Build α := do
  modify (·.pushScope)
  let a ← x
  modify (·.popScope)
  return a

namespace Elaborates

variable {α β : Type} {x : Build α} {f : α → Build β} {d d₁ d₂ : Draft} {a : α} {b : β}

theorem pure : (Pure.pure a : Build α).Elaborates d a d := fun _ => rfl

/-- Only operands matter. -/
theorem congr (hx : x.Elaborates d a d₂) (h : ∀ e, d.onto e = d₁.onto e) :
    x.Elaborates d₁ a d₂ := fun e => h e ▸ hx e

theorem bind (hx : x.Elaborates d a d₁) (hf : (f a).Elaborates d₁ b d₂) :
    (x >>= f).Elaborates d b d₂ := fun e => (Linear.run_bind_ok (hx e)).trans (hf e)

theorem map (hx : x.Elaborates d a d₁) {g : α → β} : (g <$> x).Elaborates d (g a) d₁ :=
  hx.bind (f := fun a => Pure.pure (g a)) pure

theorem withScope (hx : x.Elaborates d.pushScope a d₁) :
    (Build.withScope x).Elaborates d a d₁.popScope := by
  intro e
  have hrun : (x >>= fun a => (do modify (·.popScope); return a : Build α)).run (d.pushScope.onto e) =
      (.ok a, (d₁.onto e).popScope) := Linear.run_bind_ok (hx e)
  rw [Draft.onto_popScope] at hrun
  exact hrun

end Elaborates

end Build

namespace Solidity

open Build

/-! ## The program of a statement -/

mutual

/-- The statement is made of structured statements, with `break` and `continue` in loops only. -/
def Stmt.isStructured (inLoop : Bool) : Stmt → Bool
  | .located _ inner => inner.isStructured inLoop
  | .block body => Stmt.areStructured inLoop body
  | .ifThen _ yes => yes.isStructured inLoop
  | .ifElse _ yes no => yes.isStructured inLoop && no.isStructured inLoop
  | .whileLoop _ body => body.isStructured true
  | .doWhile body _ => body.isStructured true
  | .forLoop start _ next body =>
      start.isStructured inLoop && next.isStructured false && body.isStructured true
  | .continueLoop | .breakLoop => inLoop
  | .skip | .expression _ | .declare _ _ | .ret _ | .revert _ | .nop => true
  | .tryCatch _ _ | .unsupported _ => false

def Stmt.areStructured (inLoop : Bool) : List Stmt → Bool
  | [] => true
  | s :: rest => s.isStructured inLoop && Stmt.areStructured inLoop rest

end

/-- The program of a condition, if there is one. -/
def test? (env : Env) : Option Expr → Build (Option Program)
  | some e => (some ·.2) <$> record (expression env e)
  | none => pure none

mutual

/-- The program of a structured statement. -/
def program (env : Env) : Stmt → Build Program
  | .located _ inner => program env inner
  | .skip => return .skip
  | .block body => withScope (programs env body)
  | .expression e => (·.2) <$> record (value env e)
  | .declare declarations initial =>
      (·.2) <$> record (do declareVariables declarations (← expression? env initial))
  | .ifThen condition yes => do
      let (_, test) ← record (expression env condition)
      return test.seq ((← program env yes).either .skip)
  | .ifElse condition yes no => do
      let (_, test) ← record (expression env condition)
      let p ← program env yes
      let q ← program env no
      return test.seq (p.either q)
  | .whileLoop condition body => do
      let (_, test) ← record (expression env condition)
      return .whileLoop test (← program env body)
  | .doWhile body condition => do
      let p ← program env body
      let (_, test) ← record (expression env condition)
      return .doWhile p test
  | .forLoop start condition next body => withScope do
      let first ← program env start
      let test ← test? env condition
      let p ← program env body
      let step ← program env next
      return first.seq (.forLoop test step p)
  | .continueLoop => return .leave (.goes .continued)
  | .breakLoop => return .leave (.goes .broke)
  | .ret es => do
      let (values, p) ← record (returned env es)
      return p.seq (.leave (.ends (.returned values)))
  | .revert none => return .leave (.ends .reverted)
  | .revert (some e) => do
      let (_, p) ← record (value env e)
      return p.seq (.leave (.ends .reverted))
  | .nop => return .operation .nop
  | .tryCatch _ _ => throw (.unsupported "statement TryStatement")
  | .unsupported nodeType => throw (.unsupported ("statement " ++ nodeType))

/-- The program of statements in order. -/
def programs (env : Env) : List Stmt → Build Program
  | [] => return .skip
  | s :: rest => do
      let first ← program env s
      return first.seq (← programs env rest)

end

/-- Declares parameters and return variables. -/
def Definition.declareSignature (definition : Definition) : Build Unit := do
  let parameters ← declareAll definition.parameters
  let returns ← declareAll definition.returns
  modify (·.setSignature parameters returns)

/-- The program of a definition: behind the body the return variables are returned. -/
def Definition.program (env : Env) (definition : Definition) : Build Program := do
  definition.declareSignature
  let body ← Solidity.program env definition.body
  return body.seq (.leave (.ends (.returned (← get).body.returns)))

/-- The program that a definition has with these counters, if it has one. -/
def Definition.program? (env : Env) (definition : Definition) (counters : Counters) :
    Option Program :=
  ((definition.program env).run (.start counters)).1.toOption

/-! ## Laying out statements -/

/-- The step lays out the program that the other step gives. -/
def Compiles (looped : Bool) (x : Build Unit) (twin : Build Program) : Prop :=
  ∀ d : Draft, d.current.index < d.body.nodes.size → (looped = true → d.loops ≠ []) →
    Leads x d (fun _ d' => ∃ p, twin.Elaborates d p d' ∧ d.Lowered d' p ∧
      (looped = false → p.Stays)) fun _ => True

section Rules

variable {looped : Bool} {x : Build Unit} {twin : Build Program} {d : Draft} {n m : NodeId}

/-- A step in a node that is set aside, and what is done behind it. -/
theorem Compiles.armThen (h : Compiles looped x twin) (fresh : d.Fresh n)
    (hloops : looped = true → d.loops ≠ []) {β : Type} {y : Build β} {ok : β → Draft → Prop}
    (hy : ∀ p d', twin.Elaborates d p d' → d.Arm [] n m p d' → (looped = false → p.Stays) →
      Leads y d' ok fun _ => True) :
    Leads (do switchTo n; x; goto m; y) d ok fun _ => True := by
  refine leads_bind (leads_modify ?_)
  refine (h (d.switchTo n) fresh.size hloops).bind fun _ d' ⟨p, htwin, hlow, hstays⟩ => ?_
  exact leads_bind (leads_modify (hy p _ htwin (hlow.arm fresh m) hstays))

/-- The body of a loop in a node that is set aside. -/
theorem Compiles.armInLoop (h : Compiles true x twin) {next exit : NodeId} (fresh : d.Fresh n) :
    Leads (inLoop next exit do switchTo n; x; goto next) d
      (fun _ d' => ∃ p, twin.Elaborates d p d' ∧ d.Arm [⟨next, exit⟩] n next p d')
      fun _ => True := by
  refine leads_bind (leads_modify (leads_bind (leads_bind (leads_modify ?_))))
  refine (h _ fresh.size fun _ => List.cons_ne_nil _ _).bind fun _ d' ⟨p, htwin, hlow, _⟩ => ?_
  have harm := Draft.Lowered.arm (d := d.pushLoop ⟨next, exit⟩) hlow fresh next
  exact leads_modify (leads_modify ⟨p, htwin, harm.inLoop⟩)

/-- Leaving the innermost loop or its iteration. -/
theorem compiles_leaveTo {target : LoopTargets → NodeId} {w : Way} (hlooped : looped = true)
    (hw : w ≠ .done)
    (h : ∀ targets loops a, waysOut (targets :: loops) a w = .into (target targets)) :
    Compiles looped (leaveTo target) (pure (.leave (.goes w))) := by
  intro d here hloops
  refine leads_bind (leads_get ?_)
  split
  · next targets outer hd =>
      refine leads_modify ⟨_, .pure, Draft.lowered_goes here hw fun a => hd ▸ h targets outer a, ?_⟩
      exact fun hfalse => absurd (hlooped.symm.trans hfalse) nofun
  · next hd => exact absurd hd (hloops hlooped)

theorem Compiles.inScope (h : Compiles looped x twin) :
    Compiles looped (inScope x) (withScope twin) := by
  intro d here hloops
  refine leads_bind (leads_modify ?_)
  refine (h d.pushScope here hloops).bind fun _ d' ⟨p, htwin, hlow, hstays⟩ => leads_modify ?_
  exact ⟨p, htwin.withScope, hlow.inScope, hstays⟩

end Rules

section Forms

variable {env : Env} {looped : Bool} {condition : Expr} {yes no body start next : Stmt}

theorem compiles_ifThen (hyes : Compiles looped (statement env yes) (program env yes)) :
    Compiles looped (statement env (.ifThen condition yes))
      (program env (.ifThen condition yes)) := by
  intro d here hloops
  rw [statement, program]
  refine ((linear_expression env condition).leads here).bind
    fun test d₁ ⟨p, htwin, hlow, hstays⟩ => ?_
  refine leads_bind (leads_modifyGet (leads_bind (leads_modifyGet (leads_bind (leads_modify ?_)))))
  have hfork := (Draft.Ahead.nil hlow.stage.here).cons.cons.fork hlow.stage.here
    (.branch test d₁.newNode.1 d₁.newNode.2.newNode.1)
  refine hyes.armThen (hfork.fresh _ (by simp)) (hlow.loops ▸ hloops)
    fun q d₂ htwin' harm hstays' => leads_modify ?_
  have htwin₁ := htwin'.congr hfork.operands
  exact ⟨_, htwin.bind (htwin₁.bind .pure), hlow.seq (hfork.ifThen harm),
    fun h => hstays.seq ((hstays' h).either Program.stays_skip)⟩

theorem compiles_ifElse (hyes : Compiles looped (statement env yes) (program env yes))
    (hno : Compiles looped (statement env no) (program env no)) :
    Compiles looped (statement env (.ifElse condition yes no))
      (program env (.ifElse condition yes no)) := by
  intro d here hloops
  rw [statement, program]
  refine ((linear_expression env condition).leads here).bind
    fun test d₁ ⟨p, htwin, hlow, hstays⟩ => ?_
  refine leads_bind (leads_modifyGet (leads_bind (leads_modifyGet (leads_bind (leads_modifyGet
    (leads_bind (leads_modify ?_)))))))
  have hloops₁ : looped = true → d₁.loops ≠ [] := hlow.loops ▸ hloops
  have hfork := (Draft.Ahead.nil hlow.stage.here).cons.cons.cons.fork hlow.stage.here
    (.branch test d₁.newNode.1 d₁.newNode.2.newNode.2.newNode.1)
  refine hyes.armThen (hfork.fresh _ (by simp)) hloops₁ fun q d₂ htwin' harm hstays' => ?_
  obtain ⟨⟨-, hne⟩, -⟩ : (_ ≠ _ ∧ _ ≠ _) ∧ _ ≠ _ := by simpa using hfork.distinct
  refine hno.armThen (harm.fresh (hfork.fresh _ (by simp)) hne) (harm.loops ▸ hloops₁)
    fun r d₃ htwin'' harm' hstays'' => leads_modify ?_
  have htwin₁ := htwin'.congr hfork.operands
  exact ⟨_, htwin.bind (htwin₁.bind (htwin''.bind .pure)), hlow.seq (hfork.ifElse harm harm'),
    fun h => hstays.seq ((hstays' h).either (hstays'' h))⟩

theorem compiles_whileLoop (hbody : Compiles true (statement env body) (program env body)) :
    Compiles looped (statement env (.whileLoop condition body))
      (program env (.whileLoop condition body)) := by
  intro d here _
  rw [statement, program]
  refine leads_bind (leads_modifyGet (leads_bind (leads_modify (leads_bind (leads_modify ?_)))))
  have hfork := (Draft.Ahead.nil here).cons.fork here (.goto d.newNode.1)
  have hheader := hfork.fresh _ (List.mem_singleton.mpr rfl)
  refine ((linear_expression env condition).leads hheader.size).bind
    fun test d₁ ⟨p, htwin, hlow, hstays⟩ => ?_
  refine leads_bind (leads_modifyGet (leads_bind (leads_modifyGet (leads_bind (leads_modify ?_)))))
  have hfork' := (Draft.Ahead.nil hlow.stage.here).cons.cons.fork hlow.stage.here
    (.branch test d₁.newNode.1 d₁.newNode.2.newNode.1)
  refine (hbody.armInLoop (hfork'.fresh _ (by simp))).bind
    fun _ d₂ ⟨q, htwin', harm⟩ => leads_modify ?_
  have htwin₁ := htwin.congr hfork.operands
  have htwin₂ := htwin'.congr hfork'.operands
  exact ⟨_, htwin₁.bind (htwin₂.bind .pure), hfork.whileLoop hlow hstays hfork' harm,
    fun _ => Program.stays_loop hstays fun _ => Program.MayGo.of_iteration⟩

theorem compiles_doWhile (hbody : Compiles true (statement env body) (program env body)) :
    Compiles looped (statement env (.doWhile body condition))
      (program env (.doWhile body condition)) := by
  intro d here _
  rw [statement, program]
  refine leads_bind (leads_modifyGet (leads_bind (leads_modifyGet (leads_bind (leads_modifyGet
    (leads_bind (leads_modify ?_)))))))
  have hfork := (Draft.Ahead.nil here).cons.cons.cons.fork here (.goto d.newNode.1)
  refine (hbody.armInLoop (hfork.fresh _ (by simp))).bind
    fun _ d₁ ⟨q, htwin', harm⟩ => leads_bind (leads_modify ?_)
  obtain ⟨-, hne⟩ : (_ ≠ _ ∧ _ ≠ _) ∧ _ ≠ _ := by simpa using hfork.distinct
  have hcheck := harm.fresh (hfork.fresh _ (by simp)) hne
  refine ((linear_expression env condition).leads hcheck.size).bind
    fun test d₂ ⟨p, htwin, hlow, hstays⟩ => leads_bind (leads_modify (leads_modify ?_))
  have htwin₁ := htwin'.congr hfork.operands
  exact ⟨_, htwin₁.bind (htwin.bind .pure), hfork.doWhile harm hlow hstays test,
    fun _ => Program.stays_doWhile hstays⟩

/-- The body of a loop and its step, in nodes that are set aside. -/
theorem leads_bodyAndStep (hbody : Compiles true (statement env body) (program env body))
    (hnext : Compiles false (statement env next) (program env next)) {d : Draft}
    {header once step exit : NodeId} (honce : d.Fresh once) (hstep : d.Fresh step)
    (hne : step ≠ once) :
    Leads (do
        inLoop step exit do
          switchTo once
          statement env body
          goto step
        switchTo step
        statement env next
        goto header
        switchTo exit) d
      (fun _ d' => ∃ p q d₁ d₂, (program env body).Elaborates d p d₁ ∧
        (program env next).Elaborates d₁ q d₂ ∧ d.Arm [⟨step, exit⟩] once step p d₁ ∧
        d₁.Arm [] step header q d₂ ∧ q.Stays ∧ d' = d₂.switchTo exit) fun _ => True := by
  refine (hbody.armInLoop honce).bind fun _ d₁ ⟨p, htwin, harm⟩ => ?_
  refine hnext.armThen (harm.fresh hstep hne) nofun fun q d₂ htwin' harm' hstays => leads_modify ?_
  exact ⟨p, q, d₁, d₂, htwin, htwin', harm, harm', hstays rfl, rfl⟩

/-- A loop with a step.  Its nodes are set aside before the condition is evaluated. -/
theorem compiles_forLoop {condition : Option Expr}
    (hstart : Compiles looped (statement env start) (program env start))
    (hnext : Compiles false (statement env next) (program env next))
    (hbody : Compiles true (statement env body) (program env body)) :
    Compiles looped (statement env (.forLoop start condition next body))
      (program env (.forLoop start condition next body)) := by
  rw [statement, program]
  refine Compiles.inScope fun d here hloops => ?_
  refine (hstart d here hloops).bind fun _ d₁ ⟨p, htwin, hlow, hstays⟩ => ?_
  refine leads_bind (leads_modifyGet (leads_bind (leads_modify (leads_bind (leads_modify ?_)))))
  refine leads_bind (leads_modifyGet (leads_bind (leads_modifyGet (leads_bind (leads_modifyGet ?_)))))
  have hfork := (Draft.Ahead.nil hlow.stage.here).cons.fork hlow.stage.here (.goto d₁.newNode.1)
  have hheader := hfork.fresh _ (List.mem_singleton.mpr rfl)
  have hahead := (Draft.Ahead.nil
    (d := (d₁.newNode.2.terminate (.goto d₁.newNode.1)).switchTo d₁.newNode.1)
    hheader.size).cons.cons.cons
  obtain ⟨-, hne⟩ : (_ ≠ _ ∧ _ ≠ _) ∧ _ ≠ _ := by simpa using hahead.distinct
  cases condition with
  | none =>
      refine leads_bind (leads_pure (leads_bind (leads_modify ?_)))
      have hstage (t : Terminator) := (Draft.Stage.refl hahead.stage.here).terminate t
      refine (leads_bodyAndStep hbody hnext (hahead.beside hheader.size (hstage _) (by simp))
        (hahead.beside hheader.size (hstage _) (by simp)) hne).mono ?_
      rintro _ _ ⟨q, r, d₄, d₅, htwin', htwin'', harm, harm', hstays', rfl⟩
      have hlow' := hfork.forEver hahead harm harm' hstays'
      have hoperands (e : Draft) := (hahead.operands e).trans (hfork.operands e)
      have htwin₁ := htwin'.congr hoperands
      exact ⟨_, htwin.bind (.bind (x := test? env none) .pure (htwin₁.bind (htwin''.bind .pure))),
        hlow.seq hlow', fun h => (hstays h).seq (Program.stays_forLoop nofun hstays')⟩
  | some e =>
      refine leads_bind (leads_bind (((linear_expression env e).leads hahead.stage.here).mono
        fun test d₃ ⟨t, htwin₀, hlow₀, hstays₀⟩ => leads_pure (leads_bind (leads_modify ?_))))
      have hstage (t : Terminator) := hlow₀.stage.terminate t
      refine (leads_bodyAndStep hbody hnext (hahead.beside hheader.size (hstage _) (by simp))
        (hahead.beside hheader.size (hstage _) (by simp)) hne).mono ?_
      rintro _ _ ⟨q, r, d₄, d₅, htwin', htwin'', harm, harm', hstays', rfl⟩
      have hlow' := hfork.forTest hahead hlow₀ hstays₀ harm harm' hstays'
      have htest : ∀ r ∈ some t, r.Stays := fun r hr => Option.some.inj hr ▸ hstays₀
      have hoperands (e : Draft) := (hahead.operands e).trans (hfork.operands e)
      have htwin₁ := (htwin₀.congr hoperands).map (g := (some ·.2))
      exact ⟨_, htwin.bind (.bind (x := test? env (some e)) htwin₁ (htwin'.bind (htwin''.bind .pure))),
        hlow.seq hlow', fun h => (hstays h).seq (Program.stays_forLoop htest hstays')⟩

end Forms

mutual

theorem compiles_statement (env : Env) : (s : Stmt) → (looped : Bool) →
    s.isStructured looped = true → Compiles looped (statement env s) (program env s)
  | .located span inner, looped, hs => by
      intro d here hloops
      rw [Stmt.isStructured] at hs
      rw [statement, program]
      refine leads_bind (leads_modify ?_)
      have here' := (Draft.Stage.refl here).annotate span |>.here
      refine (compiles_statement env inner looped hs _ here' hloops).mono
        fun _ d' ⟨p, htwin, hlow, hstays⟩ => ?_
      exact ⟨p, htwin, hlow.annotate here, hstays⟩
  | .skip, looped, _ => by
      intro d here _
      rw [statement, program]
      exact leads_pure ⟨.skip, .pure, .skip here, fun _ => Program.stays_skip⟩
  | .block body, looped, hs => by
      rw [Stmt.isStructured] at hs
      rw [statement, program]
      exact (compiles_statements env body looped hs).inScope
  | .expression e, looped, _ => by
      intro d here _
      rw [statement, program]
      refine ((linear_value env e).leads here).bind fun _ d' ⟨p, htwin, hlow, hstays⟩ => ?_
      exact leads_pure ⟨p, htwin.map, hlow, fun _ => hstays⟩
  | .declare declarations initial, looped, _ => by
      intro d here _
      have hlinear := (linear_expression? env initial).bind (linear_declareVariables declarations)
      rw [statement, program]
      exact (hlinear.leads here).mono fun _ d' ⟨p, htwin, hlow, hstays⟩ =>
        ⟨p, htwin.map, hlow, fun _ => hstays⟩
  | .ifThen condition yes, looped, hs => by
      rw [Stmt.isStructured] at hs
      exact compiles_ifThen (compiles_statement env yes looped hs)
  | .ifElse condition yes no, looped, hs => by
      rw [Stmt.isStructured, Bool.and_eq_true] at hs
      exact compiles_ifElse (compiles_statement env yes looped hs.1)
        (compiles_statement env no looped hs.2)
  | .whileLoop condition body, looped, hs => by
      rw [Stmt.isStructured] at hs
      exact compiles_whileLoop (compiles_statement env body true hs)
  | .doWhile body condition, looped, hs => by
      rw [Stmt.isStructured] at hs
      exact compiles_doWhile (compiles_statement env body true hs)
  | .forLoop start condition next body, looped, hs => by
      rw [Stmt.isStructured, Bool.and_eq_true, Bool.and_eq_true] at hs
      exact compiles_forLoop (compiles_statement env start looped hs.1.1)
        (compiles_statement env next false hs.1.2) (compiles_statement env body true hs.2)
  | .continueLoop, looped, hs => by
      rw [Stmt.isStructured] at hs
      rw [statement, program]
      exact compiles_leaveTo hs (w := .continued) nofun fun _ _ _ => rfl
  | .breakLoop, looped, hs => by
      rw [Stmt.isStructured] at hs
      rw [statement, program]
      exact compiles_leaveTo hs (w := .broke) nofun fun _ _ _ => rfl
  | .ret es, looped, _ => by
      intro d here _
      rw [statement, program]
      refine ((linear_returned env es).leads here).bind
        fun values d₁ ⟨p, htwin, hlow, hstays⟩ => leads_modify ?_
      exact ⟨_, htwin.bind .pure,
        hlow.seq (Draft.lowered_ends hlow.stage.here (.returned values) rfl),
        fun _ => hstays.seq (Program.stays_leave nofun)⟩
  | .revert none, looped, _ => by
      intro d here _
      rw [statement, program]
      exact leads_modify ⟨_, .pure, Draft.lowered_ends here .reverted rfl,
        fun _ => Program.stays_leave nofun⟩
  | .revert (some e), looped, _ => by
      intro d here _
      rw [statement, program]
      refine ((linear_value env e).leads here).bind
        fun _ d₁ ⟨p, htwin, hlow, hstays⟩ => leads_modify ?_
      exact ⟨_, htwin.bind .pure,
        hlow.seq (Draft.lowered_ends hlow.stage.here .reverted rfl),
        fun _ => hstays.seq (Program.stays_leave nofun)⟩
  | .nop, looped, _ => by
      intro d here _
      rw [statement, program]
      refine leads_modify ⟨.operation .nop, fun e => ?_, Draft.lowered_emit here .nop,
        fun _ _ h => h.of_operation⟩
      rw [Draft.onto_of_emit]
      rfl

theorem compiles_statements (env : Env) : (ss : List Stmt) → (looped : Bool) →
    Stmt.areStructured looped ss = true → Compiles looped (statements env ss) (programs env ss)
  | [], looped, _ => by
      intro d here _
      rw [statements, programs]
      exact leads_pure ⟨.skip, .pure, .skip here, fun _ => Program.stays_skip⟩
  | s :: rest, looped, hs => by
      intro d here hloops
      rw [Stmt.areStructured, Bool.and_eq_true] at hs
      rw [statements, programs]
      refine (compiles_statement env s looped hs.1 d here hloops).bind
        fun _ d₁ ⟨p, htwin, hlow, hstays⟩ => ?_
      refine (compiles_statements env rest looped hs.2 d₁ hlow.stage.here
        (hlow.loops ▸ hloops)).mono fun _ d₂ ⟨q, htwin', hlow', hstays'⟩ => ?_
      exact ⟨p.seq q, htwin.bind (htwin'.bind .pure), hlow.seq hlow',
        fun h => (hstays h).seq (hstays' h)⟩

end

/-! ## Definitions -/

theorem Definition.lower_eq (env : Env) (definition : Definition) :
    definition.lower env = definition.declareSignature >>= fun _ => statement env definition.body := by
  simp only [Definition.lower, Definition.declareSignature, bind_assoc]

theorem leads_declare (decl : VarDecl) (d : Draft) :
    Leads (declare decl) d (fun _ d' => d' = d'.onto d) fun _ => True := by
  unfold declare
  split
  · exact leads_pure rfl
  · refine leads_bind (leads_modifyGet ?_)
    split
    · exact leads_bind (leads_modify (leads_pure rfl))
    · exact leads_pure rfl

theorem leads_declareAll (decls : List VarDecl) (d : Draft) :
    Leads (declareAll decls) d (fun _ d' => d' = d'.onto d) fun _ => True := by
  induction decls generalizing d with
  | nil => exact leads_pure rfl
  | cons decl rest ih =>
      refine (leads_declare decl d).bind fun first d₁ h₁ => ?_
      refine (ih d₁).bind fun others d₂ h₂ => leads_pure ?_
      rw [h₂, h₁]
      rfl

/-- A signature is declared without a node. -/
theorem Definition.leads_declareSignature (definition : Definition) (d : Draft) :
    Leads definition.declareSignature d (fun _ d' => d' = d'.onto d) fun _ => True := by
  refine (leads_declareAll definition.parameters d).bind fun parameters d₁ h₁ => ?_
  refine (leads_declareAll definition.returns d₁).bind fun returns d₂ h₂ => leads_modify ?_
  rw [h₂, h₁]
  rfl

theorem Definition.leads_lower (env : Env) (definition : Definition)
    (hs : definition.body.isStructured false = true) (counters : Counters) :
    Leads (definition.lower env) (.start counters)
      (fun _ d => ∃ p : Program, (Draft.start counters).Lowered d p ∧ p.Stays ∧
        definition.program? env counters =
          some (p.seq (.leave (.ends (.returned d.body.returns))))) fun _ => True := by
  rw [definition.lower_eq]
  refine (definition.leads_declareSignature (.start counters)).run.bind ?_
  rintro _ d₁ ⟨honto, hrun⟩
  have here : d₁.current.index < d₁.body.nodes.size := by
    rw [honto]
    exact Nat.zero_lt_one
  refine (compiles_statement env definition.body false hs d₁ here nofun).mono ?_
  rintro _ d₂ ⟨p, htwin, hlow, hstays⟩
  refine ⟨p, .of_onto (honto ▸ hlow), hstays rfl, ?_⟩
  have hprogram : (Solidity.program env definition.body).run d₁ = (.ok p, d₂.onto d₁) := htwin d₁
  rw [Definition.program?, Definition.program, Linear.run_bind_ok hrun,
    Linear.run_bind_ok hprogram]
  rfl

/-- The paths of a lowered body read what the program of the definition runs. -/
theorem Definition.reads_iff_runs (env : Env) (definition : Definition)
    (hs : definition.body.isStructured false = true) {counters after : Counters} {body : Body}
    (h : runBody (definition.lower env) counters = (.ok body, after)) :
    ∃ p, definition.program? env counters = some p ∧
      ∀ operations ending, body.Reads operations ending ↔ p.Runs operations (.ends ending) := by
  have hentry : body.entry = some ⟨0⟩ :=
    (runBody_wellFormed (fun d inv => definition.builds_lower env inv) h).entry
  have hleads := definition.leads_lower env hs counters
  unfold Leads at hleads
  unfold runBody at h
  split at h
  · next d hrun =>
      rw [hrun] at hleads
      obtain ⟨rfl, -⟩ : d.finish = body ∧ d.counters = after := by simpa using h
      obtain ⟨p, hlow, hstays, hprogram⟩ := hleads
      refine ⟨_, hprogram, fun operations ending => ?_⟩
      rw [Body.reads_iff_walk hentry]
      exact hlow.returning hstays
  · simp at h

/-- Structured control flow is kept: what is read along the paths of a lowered definition, to its
ends and up to any point, is what its program runs. -/
theorem structured_reads (l : Loader) (context : Option ContractId) (file : String) (n : Node)
    (definition : Definition) (counters after : Counters) (body : Body)
    (hdefinition : Definition.ofNode? (·.span? l.unit.sourceList file) n = some definition)
    (hs : definition.body.isStructured false = true)
    (h : l.lowerDefinition context file n counters = (.ok (some body), after)) :
    ∃ p, definition.program? ⟨l.unit, l.index, context⟩ counters = some p ∧
      ∀ operations ending, body.Reads operations ending ↔ p.Runs operations (.ends ending) := by
  unfold Loader.lowerDefinition at h
  rw [hdefinition] at h
  cases hrun : runBody (definition.lower ⟨l.unit, l.index, context⟩) counters with
  | mk result rest =>
      simp only [hrun] at h
      cases result with
      | error e => cases h
      | ok lowered =>
          cases h
          exact definition.reads_iff_runs _ hs hrun

/-! ### A loop that goes on and breaks -/

/-- The tree of a truth value. -/
def truthTree : Json :=
  .object [("kind", .string "bool"), ("nodeType", .string "Literal"), ("value", .string "true")]

/-- The tree of a node without parts. -/
def leafTree (nodeType : String) : Json := .object [("nodeType", .string nodeType)]

/-- The tree of `if (true) continue;`. -/
def continuingTree : Json :=
  .object [("condition", truthTree), ("nodeType", .string "IfStatement"),
    ("trueBody", leafTree "Continue")]

/-- The tree of a block. -/
def blockTree (statements : List Json) : Json :=
  .object [("nodeType", .string "Block"), ("statements", .array statements)]

/-- The tree of `while (true) { if (true) continue; _; break; }`. -/
def loopingTree : Json :=
  .object [("body", blockTree [continuingTree, leafTree "PlaceholderStatement", leafTree "Break"]),
    ("condition", truthTree), ("nodeType", .string "WhileStatement")]

/-- A definition of that loop, a return and a statement behind it. -/
def looping : Node :=
  ⟨.compact, .object [("body",
    blockTree [loopingTree, leafTree "Return", leafTree "PlaceholderStatement"])]⟩

/-- The statement that is read from it. -/
def loopingStatement : Stmt :=
  let truth : Expr := .literal none (.bool true)
  .located none (.block [
    .located none (.whileLoop truth (.located none (.block [
      .located none (.ifThen truth (.located none .continueLoop)),
      .located none .nop, .located none .breakLoop]))),
    .located none (.ret none), .located none .nop])

/-- What is lowered: the entry, the header of the loop and its body, the exit, the two ways behind
the condition, and a node that is not reached. -/
def loopingBody : Body where
  arena := ⟨#[⟨⟨.constant (.bool true), .unknown, none⟩, none, none, 0⟩,
    ⟨⟨.constant (.bool true), .unknown, none⟩, none, none, 0⟩], 0⟩
  nodes := #[⟨⟨0⟩, [], [], .goto ⟨1⟩, none⟩, ⟨⟨1⟩, [], [], .branch ⟨0⟩ ⟨2⟩ ⟨3⟩, none⟩,
    ⟨⟨2⟩, [], [], .branch ⟨1⟩ ⟨4⟩ ⟨5⟩, none⟩, ⟨⟨3⟩, [], [], .ret [], none⟩,
    ⟨⟨4⟩, [], [], .goto ⟨1⟩, none⟩, ⟨⟨5⟩, [], [.nop], .goto ⟨3⟩, none⟩,
    ⟨⟨6⟩, [], [.nop], .ret [], none⟩]
  entry := some ⟨0⟩
  parameters := []
  returns := []
  isSsa := false

theorem looping_reads :
    Definition.ofNode? (·.span? [] "") looping = some ⟨[], [], loopingStatement⟩ ∧
    loopingStatement.isStructured false = true ∧
    (Loader.new "" [] .stopOnFirst).lowerDefinition none "" looping .start =
      (.ok (some loopingBody), .start) ∧
    ∃ p, Definition.program? ⟨(Loader.new "" [] .stopOnFirst).unit,
        (Loader.new "" [] .stopOnFirst).index, none⟩ ⟨[], [], loopingStatement⟩ .start = some p ∧
      ∀ operations ending,
        loopingBody.Reads operations ending ↔ p.Runs operations (.ends ending) := by
  have hdefinition : Definition.ofNode? (·.span? [] "") looping =
      some ⟨[], [], loopingStatement⟩ := by cbv
  have hlowered : (Loader.new "" [] .stopOnFirst).lowerDefinition none "" looping .start =
      (.ok (some loopingBody), .start) := by cbv
  exact ⟨hdefinition, by decide, hlowered,
    structured_reads _ none "" looping _ .start .start _ hdefinition (by decide) hlowered⟩

end Solidity

end ContractCalls
