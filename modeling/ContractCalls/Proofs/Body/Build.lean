/-
# Programs that build bodies

`Builds d x ok` says of a step `x` from the draft `d` that it fails, or ends in
a draft that `d` reaches with a value that satisfies `ok`.  There is a rule for
each way of composing steps and a lemma for each step there is, so that a proof
about a program is a chain of `Builds.bind` along its lines: what an earlier
line gave is carried over the later ones by `Reaches.knows` and
`Reaches.target`.

Operations need no condition, since they are checked where they are emitted.
What has to be known is what no check looks at: the operand a reference
aliases, the condition of a branch, the values that are returned, and the nodes
that control goes to.
-/
import ContractCalls.Proofs.Body.Draft
import ContractCalls.Proofs.Outcome

namespace ContractCalls

/-- The step fails, or leads from the draft to one it reaches, with a value that satisfies `ok`
together with the body by then. -/
def Builds {α : Type} (d : Draft) (x : Build α) (ok : α → Body → Prop) : Prop :=
  Leads x d (fun a d' => d.Reaches d' ∧ ok a d'.body) fun _ => True

/-- Nothing is said of a value. -/
def Done {α : Type} (_ : α) (_ : Body) : Prop := True

namespace Builds

variable {α β : Type} {d : Draft} {x : Build α} {f : α → Build β} {ok : α → Body → Prop}
  {ok' : β → Body → Prop}

theorem pure (inv : d.Inv) {a : α} (h : ok a d.body) : Builds d (Pure.pure a) ok :=
  leads_pure ⟨.refl inv, h⟩

theorem done (inv : d.Inv) {a : α} : Builds d (Pure.pure a) Done := .pure inv trivial

theorem throw {e : FrontEndError} : Builds d (MonadExcept.throw e) ok := leads_throw trivial

/-- A step, and what is done with its value. -/
theorem bind (h : Builds d x ok)
    (hf : ∀ a d', d.Reaches d' → ok a d'.body → Builds d' (f a) ok') : Builds d (x >>= f) ok' := by
  refine Leads.bind h fun a d' ha => (hf a d' ha.1 ha.2).mono fun b d'' hb => ?_
  exact ⟨ha.1.trans hb.1, hb.2⟩

/-- A step whose value does not matter, and the next one. -/
theorem seq {y : Build β} (h : Builds d x ok) (hy : ∀ d', d.Reaches d' → Builds d' y ok') :
    Builds d (x >>= fun _ => y) ok' :=
  h.bind fun _ d' r _ => hy d' r

/-- A value that is there, and what is done with it. -/
theorem pureBind {a : α} (h : Builds d (f a) ok') : Builds d (Pure.pure a >>= f) ok' := h

theorem map {g : α → β} (h : Builds d x ok) (hg : ∀ a b, ok a b → ok' (g a) b) :
    Builds d (g <$> x) ok' :=
  Leads.map h fun a d' ha => ⟨ha.1, hg a d'.body ha.2⟩

/-- An operand that is known, as a result. -/
theorem mapSome {x : Build OperandId} (h : Builds d x fun id b => b.Knows id) :
    Builds d (some <$> x) fun r b => ∀ id ∈ r, b.Knows id :=
  h.map fun _ _ hid _ hmem => Option.some.inj hmem ▸ hid

/-- A step that may have no result, a check that it has one, and what is done with it. -/
theorem require {y : Build (Option OperandId)} {result : Option OperandId → Build OperandId}
    {g : OperandId → Build β} (hy : Builds d y fun r b => ∀ id ∈ r, b.Knows id)
    (hresult : ∀ {d' : Draft} {r : Option OperandId}, d'.Inv → (∀ id ∈ r, d'.body.Knows id) →
      Builds d' (result r) fun id b => b.Knows id)
    (hg : ∀ id d', d.Reaches d' → d'.body.Knows id → Builds d' (g id) ok') :
    Builds d (y >>= fun r => result r >>= g) ok' := by
  refine hy.bind fun r d₁ r₁ hr => ?_
  refine (hresult r₁.inv hr).bind fun id d₂ r₂ hid => ?_
  exact hg id d₂ (r₁.trans r₂) hid

/-- Looking at the draft changes nothing. -/
theorem get {f : Draft → Build β} (h : Builds d (f d) ok') :
    Builds d (MonadState.get >>= f) ok' :=
  leads_bind (leads_get h)

theorem modify {g : Draft → Draft} (h : d.Reaches (g d)) : Builds d (modify g) Done :=
  leads_modify ⟨h, trivial⟩

theorem step {g : Draft → α × Draft} (h : d.Reaches (g d).2 ∧ ok (g d).1 (g d).2.body) :
    Builds d (Build.step g) ok :=
  leads_modifyGet h

/-! ### Nodes -/

theorem newNode (inv : d.Inv) : Builds d Build.newNode fun n b => b.Target n := step inv.newNode

theorem switchTo (inv : d.Inv) {n : NodeId} (hn : d.body.Target n) :
    Builds d (Build.switchTo n) Done := modify (inv.switchTo hn)

theorem goto (inv : d.Inv) {n : NodeId} (hn : d.body.Target n) : Builds d (Build.goto n) Done := by
  refine modify (inv.terminate (fun _ h => absurd h List.not_mem_nil) ?_)
  intro m hm
  obtain rfl := List.mem_singleton.mp hm
  exact hn

theorem branch (inv : d.Inv) {condition : OperandId} {yes no : NodeId}
    (hcondition : d.body.Knows condition) (hyes : d.body.Target yes) (hno : d.body.Target no) :
    Builds d (Build.branch condition yes no) Done := by
  refine modify (inv.terminate ?_ ?_)
  · intro id hid
    obtain rfl := List.mem_singleton.mp hid
    exact hcondition
  · intro m hm
    simp only [Terminator.successors] at hm
    split at hm
    · obtain rfl := List.mem_singleton.mp hm
      exact hyes
    · rcases List.mem_pair.mp hm with rfl | rfl
      · exact hyes
      · exact hno

theorem ret (inv : d.Inv) {values : List OperandId} (hvalues : ∀ id ∈ values, d.body.Knows id) :
    Builds d (Build.terminate (.ret values)) Done :=
  modify (inv.terminate hvalues fun _ h => absurd h List.not_mem_nil)

theorem revert (inv : d.Inv) : Builds d (Build.terminate .revert) Done :=
  modify (inv.terminate (fun _ h => absurd h List.not_mem_nil) fun _ h => absurd h List.not_mem_nil)

/-- Something done behind the end of the execution, if that is where it is. -/
theorem revertIf (inv : d.Inv) (c : Bool) (h : ∀ d', d.Reaches d' → Builds d' x ok) :
    Builds d (if c then do Build.terminate .revert; x else x) ok := by
  cases c with
  | true => exact (revert inv).seq h
  | false => exact h d (.refl inv)

theorem annotate (inv : d.Inv) (span : Option Span) : Builds d (Build.annotate span) Done :=
  modify (inv.annotate span)

theorem nop (inv : d.Inv) : Builds d (Build.emit .nop) Done :=
  modify (inv.emit (Operation.valid_nop _))

/-- An arm: code in a node of its own, from which control goes on to another node. -/
theorem arm (inv : d.Inv) {n m : NodeId} (hn : d.body.Target n) (hm : d.body.Target m)
    {y : Build Unit} (hy : ∀ d', d.Reaches d' → Builds d' y Done) :
    Builds d (do Build.switchTo n; y; Build.goto m) Done := by
  refine (switchTo inv hn).seq fun d₁ r₁ => (hy d₁ r₁).seq fun d₂ r₂ => ?_
  exact goto r₂.inv ((r₁.trans r₂).target hm)

/-- An arm, and what comes behind it. -/
theorem armThen (inv : d.Inv) {n m : NodeId} (hn : d.body.Target n) (hm : d.body.Target m)
    {y : Build Unit} (hy : ∀ d', d.Reaches d' → Builds d' y Done) {z : Build β}
    (hz : ∀ d', d.Reaches d' → Builds d' z ok') :
    Builds d (do Build.switchTo n; y; Build.goto m; z) ok' := by
  refine (switchTo inv hn).seq fun d₁ r₁ => (hy d₁ r₁).seq fun d₂ r₂ => ?_
  refine (goto r₂.inv ((r₁.trans r₂).target hm)).seq fun d₃ r₃ => ?_
  exact hz d₃ ((r₁.trans r₂).trans r₃)

/-! ### Operands -/

/-- The operands stay the ones that are looked at. -/
theorem arena (inv : d.Inv) : Builds d Build.arena fun a b => a.Includes b.arena :=
  get (pure inv (.refl d.body.arena))

theorem check (inv : d.Inv) {result : Except ModelError α} :
    Builds d (Build.check result) fun a _ => result = .ok a := by
  cases result with
  | error e => exact throw
  | ok a => exact pure inv rfl

theorem tyOf (inv : d.Inv) (id : OperandId) : Builds d (Build.tyOf id) Done := get (done inv)

theorem declareLocal (inv : d.Inv) (name : String) (ty : Ty) :
    Builds d (Build.declareLocal name ty) fun id b => b.Knows id := step (inv.declareLocal name ty)

theorem state (inv : d.Inv) (name : String) (ty : Ty) :
    Builds d (Build.state name ty) fun id b => b.Knows id := step (inv.state name ty)

theorem builtin (inv : d.Inv) (name : String) (ty : Ty) :
    Builds d (Build.builtin name ty) fun id b => b.Knows id := step (inv.builtin name ty)

theorem constant (inv : d.Inv) (value : Constant) (ty : Ty) :
    Builds d (Build.constant value ty) fun id b => b.Knows id :=
  step (inv.addOperand (.constant value) ty (by simp))

theorem temporary (inv : d.Inv) (ty : Ty) :
    Builds d (Build.temporary ty) fun id b => b.Knows id := step (inv.temporary ty)

theorem tuple (inv : d.Inv) (ty : Ty) :
    Builds d (Build.step (·.tuple ty)) fun id b => b.Knows id := step (inv.tuple ty)

theorem resultFor (inv : d.Inv) (ty : Ty) :
    Builds d (Build.step (·.resultFor ty)) fun r b => ∀ id ∈ r, b.Knows id :=
  step (inv.resultFor ty)

/-- A reference to a known operand. -/
theorem reference (inv : d.Inv) (ty : Ty) {target : OperandId} (htarget : d.body.Knows target) :
    Builds d (Build.reference ty target) fun id b => b.Knows id := by
  obtain ⟨r, hid⟩ := inv.add (o := ⟨.reference d.counters.reference (some target), ty, none⟩) rfl
    (by
      intro index other h
      cases h
      exact htarget)
    { d.counters with reference := d.counters.reference + 1 }
  -- the two changes of the arena are one, so the draft between them needs no invariant
  have hbind := Arena.bindReference_add d.body.arena d.counters.reference ty htarget
  refine leads_bind (leads_modifyGet (leads_bind ?_))
  refine leads_bind (leads_get (leads_pure ?_))
  show Leads (Build.check ((d.body.arena.add ⟨.reference d.counters.reference none, ty, none⟩).2
    |>.bindReference ⟨d.body.arena.size⟩ target) >>= _) _ _ _
  rw [hbind]
  exact leads_bind (leads_pure (leads_bind (leads_modify (leads_pure ⟨r, hid⟩))))

/-! ### Operations -/

/-- Emitting an operation that is checked first asks for nothing. -/
theorem emitChecked (inv : d.Inv) {make : Arena → Except ModelError Operation}
    (hmake : ∀ {a op}, make a = .ok op → op.Valid a) :
    Builds d (do Build.emit (← Build.check (make (← Build.arena)))) Done := by
  refine (arena inv).bind fun a d' r ha => ?_
  refine (check r.inv).bind fun op d'' r' hop => ?_
  exact modify (r'.inv.emit ((hmake hop).includes (ha.trans r'.body.arena)))

theorem assign (inv : d.Inv) (lvalue rvalue : OperandId) (declared : Ty) :
    Builds d (Build.assign lvalue rvalue declared) Done :=
  emitChecked inv Operation.valid_mkAssignment

theorem call (inv : d.Inv) (callee : Callee) (args : CallArgs) (lvalue : Option OperandId) :
    Builds d (Build.call callee args lvalue) Done :=
  emitChecked inv Operation.valid_mkCall

theorem delete (inv : d.Inv) (lvalue : OperandId) : Builds d (Build.delete lvalue) Done :=
  emitChecked inv Operation.valid_mkDelete

theorem intrinsicInto (inv : d.Inv) (form : Intrinsic) (arguments : List OperandId)
    (lvalue : OperandId) : Builds d (Build.intrinsicInto form arguments lvalue) Done :=
  call inv _ _ _

/-- A step that gives an operand, and a step that does something with it. -/
theorem giving {x : Build OperandId} {y : OperandId → Build Unit}
    (hx : Builds d x fun id b => b.Knows id) (hy : ∀ id d', d'.Inv → Builds d' (y id) Done) :
    Builds d (do let id ← x; y id; return id) fun id b => b.Knows id := by
  refine hx.bind fun id d' r hid => (hy id d' r.inv).seq fun d'' r' => ?_
  exact pure r'.inv (r'.knows hid)

theorem intrinsic (inv : d.Inv) (form : Intrinsic) (arguments : List OperandId) (ty : Ty) :
    Builds d (Build.intrinsic form arguments ty) fun id b => b.Knows id :=
  giving (temporary inv ty) fun _ _ inv' => intrinsicInto inv' _ _ _

theorem refer (inv : d.Inv) (form : Intrinsic) (ty : Ty) {object : OperandId}
    (hobject : d.body.Knows object) (arguments : List OperandId) :
    Builds d (Build.refer form ty object arguments) fun id b => b.Knows id :=
  giving (reference inv ty hobject) fun _ _ inv' => intrinsicInto inv' _ _ _

/-- An operation that is checked and writes a fresh temporary. -/
theorem emitInto (inv : d.Inv) (ty : Ty) {make : OperandId → Arena → Except ModelError Operation}
    (hmake : ∀ {id a op}, make id a = .ok op → op.Valid a) :
    Builds d (do
      let id ← Build.temporary ty
      Build.emit (← Build.check (make id (← Build.arena)))
      return id) fun id b => b.Knows id := by
  refine (temporary inv ty).bind fun id d₁ r₁ hid => ?_
  refine (arena r₁.inv).bind fun a d₂ r₂ ha => ?_
  refine (check r₂.inv).bind fun op d₃ r₃ hop => ?_
  have hvalid := (hmake hop).includes (ha.trans r₃.body.arena)
  refine (modify (r₃.inv.emit hvalid)).seq fun d₄ r₄ => ?_
  exact pure r₄.inv (((r₂.trans r₃).trans r₄).knows hid)

theorem unary (inv : d.Inv) (token : String) (operand : OperandId) (ty : Ty) :
    Builds d (Build.unary token operand ty) fun id b => b.Knows id :=
  emitInto inv ty Operation.valid_mkUnary

theorem newElementary (inv : d.Inv) (ty : Ty) (arguments : List OperandId) :
    Builds d (Build.newElementary ty arguments) fun id b => b.Knows id :=
  emitInto inv ty Operation.valid_mkNewElementary

theorem newStructure (inv : d.Inv) (name : String) (args : CallArgs) (ty : Ty) :
    Builds d (Build.newStructure name args ty) fun id b => b.Knows id :=
  emitInto inv ty Operation.valid_mkNewStructure

/-! ### Scopes and loops -/

theorem inScope (inv : d.Inv) {y : Build Unit} (hy : ∀ d', d.Reaches d' → Builds d' y Done) :
    Builds d (Build.inScope y) Done :=
  (modify inv.pushScope).seq fun d₁ r₁ => (hy d₁ r₁).seq fun _ r₂ => modify r₂.inv.popScope

theorem inLoop (inv : d.Inv) {continueTo breakTo : NodeId} (hcontinue : d.body.Target continueTo)
    (hbreak : d.body.Target breakTo) {y : Build Unit}
    (hy : ∀ d', d.Reaches d' → Builds d' y Done) :
    Builds d (Build.inLoop continueTo breakTo y) Done :=
  (modify (inv.pushLoop hcontinue hbreak)).seq fun d₁ r₁ =>
    (hy d₁ r₁).seq fun _ r₂ => modify r₂.inv.popLoop

/-- Leaving for a target of the innermost loop, or staying outside of all loops. -/
theorem leaveTo (inv : d.Inv) {target : LoopTargets → NodeId}
    (htarget : ∀ targets, target targets = targets.continueTo ∨ target targets = targets.breakTo) :
    Builds d (Build.leaveTo target) Done := by
  refine get ?_
  split
  · next targets outer hloops =>
      have hmem : targets ∈ d.loops := hloops ▸ List.mem_cons_self
      refine goto inv ?_
      rcases htarget targets with h | h
      · exact h ▸ (inv.loops targets hmem).1
      · exact h ▸ (inv.loops targets hmem).2
  · exact done inv

end Builds

/-- A construction that keeps the invariant ends in a well-formed body, if it ends in one. -/
theorem Build.runBody_wellFormed {build : Build Unit}
    (hbuild : ∀ d : Draft, d.Inv → Builds d build Done) {counters after : Counters} {body : Body}
    (h : Build.runBody build counters = (.ok body, after)) : body.WellFormed := by
  have hb : Builds (.start counters) build Done := hbuild _ (Draft.inv_start counters)
  unfold Builds Leads at hb
  unfold Build.runBody at h
  split at h
  · next draft hrun =>
      rw [hrun] at hb
      obtain ⟨rfl, -⟩ : draft.finish = body ∧ draft.counters = after := by simpa using h
      exact hb.1.inv.finish
  · simp at h

end ContractCalls
