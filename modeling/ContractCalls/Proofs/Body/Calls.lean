/-
# The calls of a body under construction

What a body calls are the callees of its operations, those of expression forms
apart.  Only emitting an operation changes them, and an emitted operation is
never lost: a terminated or missing node is replaced by a fresh one first.
`Adds x added` says of a step that, wherever it starts and if it succeeds, it
adds the callees of `added`, each as often as it is listed, and no others; each
way of composing steps and each primitive of constructions has its rule.

Collecting the call sites of a function sorts the callees of its body into
lists and loses none of them either.
-/
import ContractCalls.Body.Draft
import ContractCalls.Pipeline
import ContractCalls.Proofs.Body.WellFormed
import ContractCalls.Proofs.Compilation
import ContractCalls.Proofs.Outcome

namespace ContractCalls

/-- The callee, unless it stands for an expression form. -/
def Callee.counted (c : Callee) : List Callee := [c].filter fun c => !c.isIntrinsic

theorem Callee.counted_of_not_isIntrinsic {c : Callee} (h : c.isIntrinsic = false) :
    c.counted = [c] := by
  simp [counted, h]

/-- What an operation calls, expression forms apart. -/
def Operation.callees (op : Operation) : List Callee :=
  ([op].filterMap (·.callee?)).filter fun c => !c.isIntrinsic

namespace Body

/-- The callees of the operations of a body, expression forms apart. -/
def callees (b : Body) : List Callee :=
  (b.operations.filterMap (·.callee?)).filter fun c => !c.isIntrinsic

theorem operations_eq (b : Body) :
    b.operations = (b.nodes.map (·.operations)).toList.flatten := by
  rw [Array.toList_map, ← List.flatMap_def]
  rfl

/-- A body is called by what its nodes do, whatever else changes. -/
theorem callees_congr {b b' : Body}
    (h : b'.nodes.map (·.operations) = b.nodes.map (·.operations)) : b'.callees = b.callees := by
  rw [callees, callees, operations_eq, operations_eq, h]

theorem callees_modifyNode {f : Node → Node} (hf : ∀ node, (f node).operations = node.operations)
    (b : Body) (n : NodeId) : (b.modifyNode n f).callees = b.callees :=
  callees_congr (map_modify_eq hf b.nodes n.index)

theorem callees_addNode (b : Body) : b.addNode.2.callees = b.callees := by
  simp [callees, operations, addNode, Node.new]

/-- An operation that is appended to a node stands beside those that were there. -/
theorem operations_append_perm {b : Body} {n : NodeId} {node : Node} (hn : b.node? n = some node)
    (op : Operation) :
    (b.modifyNode n fun node => { node with operations := node.operations ++ [op] }).operations.Perm
      (b.operations ++ [op]) := by
  have hindex : n.index < b.nodes.toList.length := (Array.getElem?_eq_some_iff.1 hn).1
  obtain ⟨before, k, behind, hnodes, -, hmodified⟩ :=
    List.exists_of_modify (fun node : Node => { node with operations := node.operations ++ [op] })
      hindex
  rw [operations, operations, modifyNode, Array.toList_modify, hmodified, hnodes]
  simp only [List.flatMap_append, List.flatMap_cons, List.append_assoc]
  exact (List.perm_append_comm.append_left _).append_left _

end Body

namespace Draft

theorem callees_reopen (d : Draft) : d.reopen.body.callees = d.body.callees := by
  unfold reopen
  split
  · exact d.body.callees_addNode
  · rfl

/-- The node that takes the next operation is there. -/
theorem node_reopen (d : Draft) : ∃ node, d.reopen.body.node? d.reopen.current = some node := by
  unfold reopen
  split
  · exact ⟨.new ⟨d.body.nodes.size⟩, by simp [newNode, switchTo, Body.addNode, Body.node?]⟩
  · next hopen =>
      unfold isTerminated at hopen
      split at hopen
      · next node hnode => exact ⟨node, hnode⟩
      · exact absurd rfl hopen

theorem callees_emit_perm (d : Draft) (op : Operation) :
    (d.emit op).body.callees.Perm (d.body.callees ++ op.callees) := by
  obtain ⟨node, hnode⟩ := d.node_reopen
  have happend := ((Body.operations_append_perm hnode op).filterMap (·.callee?)).filter
    fun c => !c.isIntrinsic
  rw [List.filterMap_append, List.filter_append] at happend
  rw [← d.callees_reopen]
  exact happend

theorem callees_finish (d : Draft) : d.finish.callees = d.body.callees := by
  refine Body.callees_congr ?_
  simp only [finish, Array.map_map]
  congr 1
  funext node
  simp only [Function.comp_apply]
  split <;> rfl

end Draft

namespace Build

/-- Where the step succeeds, it has added the callees of the list, each as often as it is listed. -/
def Adds {α : Type} (x : Build α) (added : List Callee) : Prop :=
  ∀ d : Draft, Leads x d
    (fun _ d' => d'.body.callees.Perm (d.body.callees ++ added)) fun _ => True

section Rules

variable {α β : Type} {x : Build α} {f : α → Build β} {added more : List Callee}

theorem adds_pure (a : α) : Adds (pure a) [] := fun _ => leads_pure (by rw [List.append_nil])

theorem adds_throw (e : FrontEndError) : Adds (throw e : Build α) added :=
  fun _ => leads_throw trivial

theorem Adds.bind (hx : Adds x added) (hf : ∀ a, Adds (f a) more) :
    Adds (x >>= f) (added ++ more) := by
  intro d
  refine (hx d).bind fun a t ht => (hf a t).mono fun _ r hr => ?_
  rw [← List.append_assoc]
  exact hr.trans (ht.append_right more)

/-- A step whose callees come from what follows it. -/
theorem Adds.then (hx : Adds x []) (hf : ∀ a, Adds (f a) more) : Adds (x >>= f) more :=
  hx.bind hf

theorem Adds.map (hx : Adds x added) (g : α → β) : Adds (g <$> x) added := by
  have h : Adds (x >>= fun a => pure (g a)) (added ++ []) := hx.bind fun a => adds_pure (g a)
  rwa [List.append_nil] at h

/-- A step of which nothing follows but its value. -/
theorem Adds.before (hx : Adds x added) {g : α → Build β} (hg : ∀ a, Adds (g a) []) :
    Adds (x >>= g) added := by
  have h := hx.bind hg
  rwa [List.append_nil] at h

theorem adds_get {g : Draft → Build β} (h : ∀ d, Adds (g d) added) : Adds (get >>= g) added :=
  fun d => leads_bind (leads_get (h d d))

theorem adds_modify {g : Draft → Draft} (h : ∀ d, (g d).body.callees = d.body.callees) :
    Adds (modify g) [] :=
  fun d => leads_modify (by rw [h d, List.append_nil])

theorem adds_step {g : Draft → α × Draft} (h : ∀ d, (g d).2.body.callees = d.body.callees) :
    Adds (step g) [] :=
  fun d => leads_modifyGet (by rw [h d, List.append_nil])

end Rules

/-! ## Primitives -/

section Primitives

variable {x : Build Unit} {added : List Callee}

theorem adds_newNode : Adds newNode [] := adds_step fun d => d.body.callees_addNode

theorem adds_switchTo (n : NodeId) : Adds (switchTo n) [] := adds_modify fun _ => rfl

theorem adds_terminate (t : Terminator) : Adds (terminate t) [] := by
  refine adds_modify fun d => Body.callees_modifyNode (fun node => ?_) d.body d.current
  split <;> rfl

theorem adds_annotate (span : Option Span) : Adds (annotate span) [] := by
  refine adds_modify fun d => Body.callees_modifyNode ?_ d.body d.current
  exact fun _ => rfl

theorem adds_declareLocal (name : String) (ty : Ty) : Adds (declareLocal name ty) [] :=
  adds_step fun _ => rfl

theorem adds_state (name : String) (ty : Ty) : Adds (state name ty) [] := by
  refine adds_step fun d => ?_
  unfold Draft.state
  split <;> rfl

theorem adds_builtin (name : String) (ty : Ty) : Adds (builtin name ty) [] := by
  refine adds_step fun d => ?_
  unfold Draft.builtin
  split <;> rfl

theorem adds_constant (value : Constant) (ty : Ty) : Adds (constant value ty) [] :=
  adds_step fun _ => rfl

theorem adds_temporary (ty : Ty) : Adds (temporary ty) [] := adds_step fun _ => rfl

theorem adds_resultFor (ty : Ty) : Adds (step (·.resultFor ty)) [] := by
  refine adds_step fun d => ?_
  unfold Draft.resultFor
  split <;> rfl

theorem adds_arena : Adds arena [] := adds_get fun _ => adds_pure _

theorem adds_tyOf (id : OperandId) : Adds (tyOf id) [] := adds_arena.then fun _ => adds_pure _

theorem adds_check {α : Type} (result : Except ModelError α) : Adds (check result) [] := by
  cases result with
  | ok a => exact adds_pure a
  | error e => exact adds_throw _

theorem adds_reference (ty : Ty) (target : OperandId) : Adds (reference ty target) [] := by
  refine Adds.then (adds_step fun _ => rfl) fun id => adds_arena.then fun arena => ?_
  refine (adds_check _).then fun bound => Adds.then (adds_modify fun _ => rfl) fun _ => ?_
  exact adds_pure id

/-- Emitting an operation adds its callee. -/
theorem adds_emit (op : Operation) : Adds (emit op) op.callees :=
  fun d => leads_modify (d.callees_emit_perm op)

/-- An operation that is checked first. -/
theorem adds_emitChecked {make : Arena → Except ModelError Operation}
    (h : ∀ a op, make a = .ok op → op.callees = added) :
    Adds (do emit (← check (make (← arena)))) added := by
  refine adds_arena.then fun a => ?_
  cases hmake : make a with
  | error e => exact adds_throw _
  | ok op => exact h a op hmake ▸ adds_emit op

theorem adds_assign (lvalue rvalue : OperandId) (declared : Ty) :
    Adds (assign lvalue rvalue declared) [] := by
  refine adds_emitChecked fun a op h => ?_
  obtain ⟨_, _, h⟩ := bind_eq_ok h
  obtain ⟨_, _, h⟩ := bind_eq_ok h
  cases h
  rfl

/-- A call adds its callee, if that counts. -/
theorem adds_call (callee : Callee) (args : CallArgs) (lvalue : Option OperandId) :
    Adds (call callee args lvalue) callee.counted := by
  refine adds_emitChecked fun a op hop => ?_
  obtain ⟨_, _, hop⟩ := bind_eq_ok hop
  obtain ⟨_, _, hop⟩ := bind_eq_ok hop
  cases hop
  rfl

theorem adds_intrinsicInto (form : Intrinsic) (arguments : List OperandId) (lvalue : OperandId) :
    Adds (intrinsicInto form arguments lvalue) [] := by
  refine adds_emitChecked fun a op hop => ?_
  obtain ⟨_, _, hop⟩ := bind_eq_ok hop
  obtain ⟨_, _, hop⟩ := bind_eq_ok hop
  cases hop
  rfl

/-- A step that gives an operand, and a step that does something with it. -/
theorem adds_giving {x : Build OperandId} {y : OperandId → Build Unit} (hx : Adds x [])
    (hy : ∀ id, Adds (y id) []) : Adds (do let id ← x; y id; return id) [] :=
  hx.then fun id => (hy id).then fun _ => adds_pure id

theorem adds_intrinsic (form : Intrinsic) (arguments : List OperandId) (ty : Ty) :
    Adds (intrinsic form arguments ty) [] :=
  adds_giving (adds_temporary ty) fun id => adds_intrinsicInto form arguments id

theorem adds_refer (form : Intrinsic) (ty : Ty) (object : OperandId) (arguments : List OperandId) :
    Adds (refer form ty object arguments) [] :=
  adds_giving (adds_reference ty object) fun id => adds_intrinsicInto form arguments id

/-- An operation without a callee that is checked and writes a fresh temporary. -/
theorem adds_emitInto (ty : Ty) {make : OperandId → Arena → Except ModelError Operation}
    (h : ∀ id a op, make id a = .ok op → op.callees = []) :
    Adds (do
      let id ← temporary ty
      emit (← check (make id (← arena)))
      return id) [] := by
  refine (adds_temporary ty).then fun id => adds_arena.then fun a => ?_
  cases hmake : make id a with
  | error e => exact adds_throw _
  | ok op =>
      show Adds (emit op >>= fun _ => pure id) []
      exact Adds.then (h id a op hmake ▸ adds_emit op) fun _ => adds_pure id

theorem adds_unary (token : String) (operand : OperandId) (ty : Ty) :
    Adds (unary token operand ty) [] := by
  refine adds_emitInto ty fun id a op h => ?_
  obtain ⟨_, _, h⟩ := bind_eq_ok h
  obtain ⟨_, _, h⟩ := bind_eq_ok h
  obtain ⟨_, _, h⟩ := bind_eq_ok h
  cases h
  rfl

theorem adds_delete (lvalue : OperandId) : Adds (delete lvalue) [] := by
  refine adds_emitChecked fun a op h => ?_
  obtain ⟨_, _, h⟩ := bind_eq_ok h
  obtain ⟨_, _, h⟩ := bind_eq_ok h
  cases h
  rfl

theorem adds_newElementary (ty : Ty) (arguments : List OperandId) :
    Adds (newElementary ty arguments) [] := by
  refine adds_emitInto ty fun id a op h => ?_
  obtain ⟨_, _, h⟩ := bind_eq_ok h
  obtain ⟨_, _, h⟩ := bind_eq_ok h
  cases h
  rfl

theorem adds_newStructure (name : String) (args : CallArgs) (ty : Ty) :
    Adds (newStructure name args ty) [] := by
  refine adds_emitInto ty fun id a op h => ?_
  obtain ⟨_, _, h⟩ := bind_eq_ok h
  obtain ⟨_, _, h⟩ := bind_eq_ok h
  cases h
  rfl

/-! ## Scopes and loops -/

theorem adds_inScope (hx : Adds x added) : Adds (inScope x) added := by
  refine Adds.then (adds_modify fun _ => rfl) fun _ => hx.before fun _ => adds_modify fun d => ?_
  unfold Draft.popScope
  split <;> rfl

theorem adds_inLoop (continueTo breakTo : NodeId) (hx : Adds x added) :
    Adds (inLoop continueTo breakTo x) added :=
  Adds.then (adds_modify fun _ => rfl) fun _ => hx.before fun _ => adds_modify fun _ => rfl

theorem adds_leaveTo (target : LoopTargets → NodeId) : Adds (leaveTo target) [] := by
  refine adds_get fun d => ?_
  split
  · exact adds_terminate _
  · exact adds_pure ()

end Primitives

/-- A finished construction calls what it added. -/
theorem callees_runBody_perm {x : Build Unit} {added : List Callee} (hx : Adds x added)
    {counters after : Counters} {body : Body} (h : runBody x counters = (.ok body, after)) :
    body.callees.Perm added := by
  unfold runBody at h
  split at h
  · next d hrun =>
      cases h
      have hadded := (hx (.start counters)).of_run hrun
      have hstart : (Draft.start counters).body.callees = [] := Body.empty.callees_addNode
      rwa [hstart, List.nil_append, ← d.callees_finish] at hadded
  · cases h

end Build

/-! ## Call sites -/

namespace Callee

/-- The callee is listed among the internal ones. -/
def isInternal : Callee → Bool
  | .internal _ | .builtin _ | .unresolved .internal _ => true
  | _ => false

/-- The callee is listed among those on other contracts. -/
def isHighLevel : Callee → Bool
  | .highLevel _ _ => true
  | _ => false

end Callee

namespace Function

theorem mem_addOnce {callees : List Callee} {callee c : Callee} :
    c ∈ addOnce callees callee ↔ c ∈ callees ∨ c = callee := by
  unfold addOnce
  split
  · next h =>
      refine ⟨.inl, ?_⟩
      rintro (hc | rfl)
      · exact hc
      · exact List.contains_iff_mem.1 h
  · simp

theorem mem_internal_recordCallee (calls : CallSites) (callee c : Callee) :
    c ∈ (recordCallee calls callee).internal ↔
      c ∈ calls.internal ∨ (c = callee ∧ c.isInternal) := by
  unfold recordCallee
  split <;> grind [mem_addOnce, Callee.isInternal]

theorem mem_highLevel_recordCallee (calls : CallSites) (callee c : Callee) :
    c ∈ (recordCallee calls callee).highLevel ↔
      c ∈ calls.highLevel ∨ (c = callee ∧ c.isHighLevel) := by
  unfold recordCallee
  split <;> grind [mem_addOnce, Callee.isHighLevel]

/-- Recording callees one after another puts each of a kind into the list of the kind. -/
theorem mem_foldl_recordCallee {list : CallSites → List Callee} {kind : Callee → Bool}
    (hrecord : ∀ calls callee c, c ∈ list (recordCallee calls callee) ↔
      c ∈ list calls ∨ (c = callee ∧ kind c))
    (callees : List Callee) (calls : CallSites) (c : Callee) :
    c ∈ list (callees.foldl recordCallee calls) ↔ c ∈ list calls ∨ (c ∈ callees ∧ kind c) := by
  induction callees generalizing calls with
  | nil => simp
  | cons callee rest ih =>
      rw [List.foldl_cons, ih, hrecord, or_assoc, ← or_and_right, List.mem_cons]

theorem mem_collectCalls {f : Function} {body : Body} (hbody : f.body = some body)
    {list : CallSites → List Callee} {kind : Callee → Bool}
    (hrecord : ∀ calls callee c, c ∈ list (recordCallee calls callee) ↔
      c ∈ list calls ∨ (c = callee ∧ kind c))
    (hempty : list { f.calls with internal := [], library := [], highLevel := [] } = [])
    (hkind : ∀ c, kind c → c.isIntrinsic = false) (c : Callee) :
    c ∈ list f.collectCalls.calls ↔ c ∈ body.callees ∧ kind c := by
  have hcalls : f.collectCalls.calls = (body.operations.filterMap (·.callee?)).foldl recordCallee
      { f.calls with internal := [], library := [], highLevel := [] } := by
    unfold collectCalls
    rw [hbody]
  rw [hcalls, mem_foldl_recordCallee hrecord, hempty, Body.callees, List.mem_filter]
  constructor
  · rintro (h | ⟨h, hk⟩)
    · cases h
    · exact ⟨⟨h, by rw [hkind c hk]; rfl⟩, hk⟩
  · rintro ⟨⟨h, -⟩, hk⟩
    exact .inr ⟨h, hk⟩

/-- The internal callees of a function are those of its body. -/
theorem mem_internal_collectCalls {f : Function} {body : Body} (hbody : f.body = some body)
    (c : Callee) : c ∈ f.collectCalls.calls.internal ↔ c ∈ body.callees ∧ c.isInternal := by
  refine mem_collectCalls hbody mem_internal_recordCallee rfl ?_ c
  intro c hc
  cases c <;> first | rfl | cases hc

/-- The callees of a function on other contracts are those of its body. -/
theorem mem_highLevel_collectCalls {f : Function} {body : Body} (hbody : f.body = some body)
    (c : Callee) : c ∈ f.collectCalls.calls.highLevel ↔ c ∈ body.callees ∧ c.isHighLevel := by
  refine mem_collectCalls hbody mem_highLevel_recordCallee rfl ?_ c
  intro c hc
  cases c <;> first | rfl | cases hc

theorem collectCalls_name (f : Function) : f.collectCalls.name = f.name := by
  unfold collectCalls
  split <;> rfl

theorem collectCalls_body (f : Function) : f.collectCalls.body = f.body := by
  unfold collectCalls
  split <;> rfl

end Function

namespace Compilation

/-- The pass over the call sites collects the calls of every function. -/
theorem leads_callSites (policy : FailurePolicy) (u : Compilation) :
    Leads (runPass policy .callSites) u (fun _ u' => u' = u.collectCalls) fun _ => True := by
  unfold runPass
  refine leads_bind (leads_get ?_)
  dsimp only
  split
  · exact leads_bind (leads_throw trivial)
  · exact leads_modify rfl

theorem function?_collectCalls (u : Compilation) (id : FunctionId) :
    u.collectCalls.function? id = (u.function? id).map Function.collectCalls := Array.getElem?_map ..

theorem names_collectCalls (u : Compilation) :
    u.collectCalls.functions.map (·.name) = u.functions.map (·.name) := by
  rw [collectCalls, Array.map_map]
  congr 1
  funext f
  exact f.collectCalls_name

end Compilation

end ContractCalls
