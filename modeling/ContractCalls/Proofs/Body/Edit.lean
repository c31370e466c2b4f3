/-
# Calls on a draft

A body is built by calls on a draft, in any order and with any arguments.
`Edit` lists the calls, `Edit.perform` makes them, and `Edit.Effect` says once
what a call can do to the nodes: it emits one operation, terminates the current
node, adds a node, moves to one, annotates one, or leaves them alone.

The history of a construction is read off its calls: where each operation was
emitted, which terminators were set while a node was current, and the return
variables declared last.  The finished body is that history: its operations are
the emitted ones, each where it was emitted, a terminated node is as it was when
it was terminated, and the terminator of a node is the first one set there, or
the return of the declared variables where none was.
-/
import ContractCalls.Proofs.Body.Stage

namespace ContractCalls

/-- A call on a draft. -/
inductive Edit where
  | newNode
  | switchTo (node : NodeId)
  | terminate (t : Terminator)
  | annotate (span : Option Span)
  | emit (op : Operation)
  /-- Emits an operation that is checked against the operands, if it passes. -/
  | emitChecked (make : Arena → Except ModelError Operation)
  /-- The same for an operation that writes a fresh temporary. -/
  | emitInto (ty : Ty) (make : OperandId → Arena → Except ModelError Operation)
  | pushScope
  | popScope
  | pushLoop (targets : LoopTargets)
  | popLoop
  | declareLocal (name : String) (ty : Ty)
  /-- Notes the operand of a declaration. -/
  | declare (id : Int) (operand : OperandId)
  | state (name : String) (ty : Ty)
  | builtin (name : String) (ty : Ty)
  | constant (value : Constant) (ty : Ty)
  | temporary (ty : Ty)
  | tuple (ty : Ty)
  | resultFor (ty : Ty)
  | reference (ty : Ty) (target : OperandId)
  | setSignature (parameters returns : List OperandId)

namespace Edit

/-- Makes a call. -/
def perform : Edit → Build Unit
  | .newNode => do let _ ← Build.newNode
  | .switchTo node => Build.switchTo node
  | .terminate t => Build.terminate t
  | .annotate span => Build.annotate span
  | .emit op => Build.emit op
  | .emitChecked make => do Build.emit (← Build.check (make (← Build.arena)))
  | .emitInto ty make => do
      let id ← Build.temporary ty
      Build.emit (← Build.check (make id (← Build.arena)))
  | .pushScope => modify (·.pushScope)
  | .popScope => modify (·.popScope)
  | .pushLoop targets => modify (·.pushLoop targets)
  | .popLoop => modify (·.popLoop)
  | .declareLocal name ty => do let _ ← Build.declareLocal name ty
  | .declare id operand => modify fun d => { d with declared := d.declared.insert id operand }
  | .state name ty => do let _ ← Build.state name ty
  | .builtin name ty => do let _ ← Build.builtin name ty
  | .constant value ty => do let _ ← Build.constant value ty
  | .temporary ty => do let _ ← Build.temporary ty
  | .tuple ty => do let _ ← Build.step (·.tuple ty)
  | .resultFor ty => do let _ ← Build.step (·.resultFor ty)
  | .reference ty target => do let _ ← Build.reference ty target
  | .setSignature parameters returns => modify (·.setSignature parameters returns)

/-- The draft after a call, whether it failed or not. -/
def after (e : Edit) (d : Draft) : Draft := (e.perform.run d).2

/-- The draft after calls. -/
def afterAll (es : List Edit) (d : Draft) : Draft := es.foldl (fun d e => e.after d) d

/-! ## The calls by name -/

def goto (target : NodeId) : Edit := .terminate (.goto target)

def branch (condition : OperandId) (thenNode elseNode : NodeId) : Edit :=
  .terminate (.branch condition thenNode elseNode)

def nop : Edit := .emit .nop

def assign (lvalue rvalue : OperandId) (declared : Ty) : Edit :=
  .emitChecked fun a => Operation.mkAssignment a lvalue rvalue declared

def call (callee : Callee) (args : CallArgs) (lvalue : Option OperandId) : Edit :=
  .emitChecked fun a => Operation.mkCall a callee args lvalue

def delete (lvalue : OperandId) : Edit := .emitChecked fun a => Operation.mkDelete a lvalue lvalue

def intrinsic (form : Intrinsic) (arguments : List OperandId) (ty : Ty) : Edit :=
  .emitInto ty fun id a => Operation.mkCall a (.intrinsic form) (.positional arguments) (some id)

def unary (token : String) (operand : OperandId) (ty : Ty) : Edit :=
  .emitInto ty fun id a => Operation.mkUnary a id operand token

def newElementary (ty : Ty) (arguments : List OperandId) : Edit :=
  .emitInto ty fun id a => Operation.mkNewElementary a ty (.positional arguments) id

def newStructure (name : String) (args : CallArgs) (ty : Ty) : Edit :=
  .emitInto ty fun id a => Operation.mkNewStructure a name args id

/-! ## What a call does -/

variable {d d' : Draft}

theorem after_emitChecked (make : Arena → Except ModelError Operation) (d : Draft) :
    (Edit.emitChecked make).after d =
      match make d.body.arena with
      | .ok op => d.emit op
      | .error _ => d := by
  show ((Build.check (make d.body.arena) >>= Build.emit).run d).2 = _
  cases make d.body.arena with
  | ok op => rfl
  | error e => rfl

theorem after_emitInto (ty : Ty) (make : OperandId → Arena → Except ModelError Operation)
    (d : Draft) :
    (Edit.emitInto ty make).after d =
      match make (d.temporary ty).1 (d.temporary ty).2.body.arena with
      | .ok op => (d.temporary ty).2.emit op
      | .error _ => (d.temporary ty).2 := by
  show ((Build.check (make (d.temporary ty).1 (d.temporary ty).2.body.arena) >>= Build.emit).run
    (d.temporary ty).2).2 = _
  cases make (d.temporary ty).1 (d.temporary ty).2.body.arena with
  | ok op => rfl
  | error e => rfl

/-- Dropping the value of a step leaves its draft. -/
theorem run_discard {α : Type} (x : Build α) (d : Draft) :
    (ExceptT.run (do let _ ← x : Build Unit) d).2 = (x.run d).2 := by
  cases hx : x.run d with
  | mk r t =>
      cases r with
      | ok a => rw [Linear.run_bind_ok hx]; rfl
      | error e => rw [Linear.run_bind_error hx]

theorem after_reference (ty : Ty) (target : OperandId) (d : Draft) :
    (Edit.reference ty target).after d =
      match (d.unboundReference ty).2.body.arena.bindReference (d.unboundReference ty).1 target with
      | .ok arena =>
          { (d.unboundReference ty).2 with body := { (d.unboundReference ty).2.body with arena } }
      | .error _ => (d.unboundReference ty).2 := by
  refine (run_discard _ d).trans ?_
  show (ExceptT.run (do
    let arena ← Build.check
      ((d.unboundReference ty).2.body.arena.bindReference (d.unboundReference ty).1 target)
    modify fun d => { d with body := { d.body with arena } }
    return (d.unboundReference ty).1 : Build OperandId) (d.unboundReference ty).2).2 = _
  cases (d.unboundReference ty).2.body.arena.bindReference (d.unboundReference ty).1 target with
  | ok arena => rfl
  | error e => rfl

end Edit

/-! ## What may happen to the nodes -/

namespace Draft

variable {d d' : Draft}

/-- The nodes are the same, and so is the place among them. -/
structure SameNodes (d d' : Draft) : Prop where
  nodes : d'.body.nodes = d.body.nodes
  current : d'.current = d.current

namespace SameNodes

theorem refl (d : Draft) : d.SameNodes d := ⟨rfl, rfl⟩

theorem node? (h : d.SameNodes d') (n : NodeId) : d'.body.node? n = d.body.node? n := by
  rw [Body.node?, h.nodes, Body.node?]

theorem operationsOf (h : d.SameNodes d') (n : NodeId) :
    d'.body.operationsOf n = d.body.operationsOf n := by
  rw [Body.operationsOf, h.node?, Body.operationsOf]

theorem isTerminated (h : d.SameNodes d') : d'.isTerminated = d.isTerminated := by
  unfold Draft.isTerminated
  rw [h.current, h.node?]

theorem liesIn (h : d.SameNodes d') : d.body.LiesIn d'.body :=
  fun n node hnode => ⟨node, (h.node? n).trans hnode, .refl node⟩

end SameNodes

/-- The node that the next operation goes to: the current one, or a fresh one behind all others. -/
def landing (d : Draft) : NodeId := if d.isTerminated then ⟨d.body.nodes.size⟩ else d.current

theorem SameNodes.landing (h : d.SameNodes d') : d'.landing = d.landing := by
  unfold Draft.landing
  rw [h.isTerminated, h.nodes, h.current]

theorem current_reopen (d : Draft) : d.reopen.current = d.landing := by
  unfold reopen landing
  split
  · rfl
  · rfl

theorem liesIn_reopen (d : Draft) : d.body.LiesIn d.reopen.body := by
  unfold reopen
  split
  · exact .addNode d.body
  · exact .refl d.body

theorem liesIn_emit (d : Draft) (op : Operation) : d.body.LiesIn (d.emit op).body := by
  refine d.liesIn_reopen.trans (.modifyNode _ fun node hnode => ?_)
  -- behind a terminator the operation goes to a fresh node, so this one is open
  obtain ⟨node', hnode', hopen⟩ := isTerminated_eq_false.mp (Stage.isTerminated_reopen (d := d))
  cases hnode.symm.trans hnode'
  exact .of_open hopen (List.prefix_append _ _)

theorem liesIn_terminate (d : Draft) (t : Terminator) : d.body.LiesIn (d.terminate t).body := by
  refine .modifyNode _ fun node _ => ?_
  split
  · exact .refl node
  · next ht => exact .of_open (by simpa [Node.isTerminated] using ht) (List.prefix_refl _)

theorem liesIn_annotate (d : Draft) (span : Option Span) : d.body.LiesIn (d.annotate span).body :=
  .modifyNode _ fun _ _ => ⟨List.prefix_refl _, fun _ => ⟨rfl, rfl⟩⟩

/-! ### Operations -/

theorem operationsOf_addNode (b : Body) (n : NodeId) :
    b.addNode.2.operationsOf n = b.operationsOf n := by
  rw [Body.operationsOf, Body.operationsOf, Body.node?_addNode]
  split
  · next h =>
      have hnone : b.node? n = none := by simp [h, Body.node?, Body.addNode]
      rw [hnone]
      rfl
  · rfl

theorem operationsOf_modifyNode {b : Body} {f : Node → Node}
    (hf : ∀ node, (f node).operations = node.operations) (m n : NodeId) :
    (b.modifyNode m f).operationsOf n = b.operationsOf n := by
  rw [Body.operationsOf, Body.operationsOf, Body.node?_modifyNode]
  split
  · cases b.node? n with
    | none => rfl
    | some node => exact hf node
  · rfl

theorem operationsOf_reopen (d : Draft) (n : NodeId) :
    d.reopen.body.operationsOf n = d.body.operationsOf n := by
  unfold reopen
  split
  · exact operationsOf_addNode d.body n
  · rfl

theorem operationsOf_emit (d : Draft) (op : Operation) (n : NodeId) :
    (d.emit op).body.operationsOf n =
      d.body.operationsOf n ++ if n = d.landing then [op] else [] := by
  obtain ⟨node, hnode, -⟩ := isTerminated_eq_false.mp (Stage.isTerminated_reopen (d := d))
  rw [← d.operationsOf_reopen n, ← d.current_reopen]
  show (d.reopen.body.modifyNode d.reopen.current _).operationsOf n = _
  rw [Body.operationsOf, Body.operationsOf, Body.node?_modifyNode]
  by_cases h : n = d.reopen.current
  · rw [if_pos h, if_pos h.symm, h, hnode]
    rfl
  · rw [if_neg h, if_neg (Ne.symm h), List.append_nil]

theorem operationsOf_terminate (d : Draft) (t : Terminator) (n : NodeId) :
    (d.terminate t).body.operationsOf n = d.body.operationsOf n := by
  refine operationsOf_modifyNode (fun node => ?_) _ n
  split
  · rfl
  · rfl

theorem operationsOf_annotate (d : Draft) (span : Option Span) (n : NodeId) :
    (d.annotate span).body.operationsOf n = d.body.operationsOf n := by
  show (d.body.modifyNode d.current _).operationsOf n = _
  refine operationsOf_modifyNode (fun node => ?_) _ n
  rfl

theorem operationsOf_finish (d : Draft) (n : NodeId) :
    d.finish.operationsOf n = d.body.operationsOf n := by
  rw [Body.operationsOf, Body.operationsOf, node?_finish]
  cases d.body.node? n with
  | none => rfl
  | some node =>
      show (if node.isTerminated then node else _).operations = node.operations
      split
      · rfl
      · rfl

end Draft

/-! ### Terminators -/

/-- The terminator of a node that has one. -/
def Body.exit? (b : Body) (n : NodeId) : Option Terminator :=
  (b.node? n).bind fun node => if node.isTerminated then some node.terminator else none

namespace Draft

variable {d d' : Draft}

theorem SameNodes.exit? (h : d.SameNodes d') (n : NodeId) : d'.body.exit? n = d.body.exit? n := by
  rw [Body.exit?, h.node?, Body.exit?]

theorem exit?_addNode (b : Body) (n : NodeId) : b.addNode.2.exit? n = b.exit? n := by
  rw [Body.exit?, Body.exit?, Body.node?_addNode]
  split
  · next h =>
      have hnone : b.node? n = none := by simp [h, Body.node?, Body.addNode]
      rw [hnone]
      rfl
  · rfl

theorem exit?_modifyNode {b : Body} {f : Node → Node}
    (hf : ∀ node, (f node).terminator = node.terminator) (m n : NodeId) :
    (b.modifyNode m f).exit? n = b.exit? n := by
  rw [Body.exit?, Body.exit?, Body.node?_modifyNode]
  split
  · cases b.node? n with
    | none => rfl
    | some node =>
        show (if (f node).isTerminated then some (f node).terminator else none) = _
        rw [Node.isTerminated, hf]
        rfl
  · rfl

theorem exit?_emit (d : Draft) (op : Operation) (n : NodeId) :
    (d.emit op).body.exit? n = d.body.exit? n := by
  have hreopen : (d.emit op).body.exit? n = d.reopen.body.exit? n := by
    show (d.reopen.body.modifyNode d.reopen.current _).exit? n = _
    refine exit?_modifyNode (fun node => ?_) _ n
    rfl
  rw [hreopen]
  unfold reopen
  split
  · exact exit?_addNode d.body n
  · rfl

theorem exit?_annotate (d : Draft) (span : Option Span) (n : NodeId) :
    (d.annotate span).body.exit? n = d.body.exit? n := by
  show (d.body.modifyNode d.current _).exit? n = _
  refine exit?_modifyNode (fun node => ?_) _ n
  rfl

/-- The terminator a call sets where none is set, with the node it is meant for. -/
def closing? (d : Draft) (t : Terminator) : Option (NodeId × Terminator) :=
  if (d.body.node? d.current).isSome && t != .open_ then some (d.current, t) else none

theorem exit?_terminate (d : Draft) (t : Terminator) (n : NodeId) :
    (d.terminate t).body.exit? n = (d.body.exit? n).or ((d.closing? t).toList.lookup n) := by
  show (d.body.modifyNode d.current _).exit? n = _
  rw [Body.exit?, Body.exit?, Body.node?_modifyNode, closing?]
  by_cases h : d.current = n
  · rw [if_pos h, h]
    cases d.body.node? n with
    | none => rfl
    | some node =>
        cases ht : node.isTerminated with
        | true => simp [ht]
        | false =>
            have hopen : node.terminator = .open_ := by simpa [Node.isTerminated] using ht
            cases t <;> simp [hopen, Node.isTerminated]
  · rw [if_neg h]
    have hlookup : (List.lookup n
        (if (d.body.node? d.current).isSome && t != .open_ then some (d.current, t)
          else none).toList) = none := by
      split
      · simp [List.lookup_cons, show (n == d.current) = false from beq_false_of_ne (Ne.symm h)]
      · rfl
    rw [hlookup, Option.or_none]

/-- A node of the finished body has the terminator it got, or returns the return variables. -/
theorem terminator_finish {n : NodeId} {node : Node} (h : d.finish.node? n = some node) :
    node.isTerminated = true ∧ node.terminator = (d.body.exit? n).getD (.ret d.body.returns) := by
  obtain ⟨old, hold, rfl⟩ := exists_of_node_finish h
  rw [Body.exit?, hold, Option.bind_some]
  split
  · next ht => exact ⟨ht, rfl⟩
  · exact ⟨rfl, rfl⟩

end Draft

/-! ## What a call does to the nodes -/

namespace Edit

variable {d d' : Draft}

/-- The operation a call emits, if it emits one. -/
def emitted? : Edit → Draft → Option Operation
  | .emit op, _ => some op
  | .emitChecked make, d => (make d.body.arena).toOption
  | .emitInto ty make, d => (make (d.temporary ty).1 (d.temporary ty).2.body.arena).toOption
  | _, _ => none

/-- The terminator a call sets where none is set, with the node it is meant for. -/
def closing? : Edit → Draft → Option (NodeId × Terminator)
  | .terminate t, d => d.closing? t
  | _, _ => none

/-- What a call may do to the nodes. -/
inductive Effect (e : Edit) (d : Draft) : Draft → Prop where
  | emits {d₁ : Draft} {op : Operation} (same : d.SameNodes d₁) (emitted : e.emitted? d = some op)
      (closing : e.closing? d = none) : Effect e d (d₁.emit op)
  | terminates (t : Terminator) (h : e = .terminate t) : Effect e d (d.terminate t)
  | adds (h : e = .newNode) : Effect e d d.newNode.2
  | moves (n : NodeId) (h : e = .switchTo n) : Effect e d (d.switchTo n)
  | annotates (span : Option Span) (h : e = .annotate span) : Effect e d (d.annotate span)
  | spares {d' : Draft} (same : d.SameNodes d') (emitted : e.emitted? d = none)
      (closing : e.closing? d = none) : Effect e d d'

theorem sameNodes_popScope (d : Draft) : d.SameNodes d.popScope := by
  unfold Draft.popScope
  split
  · exact ⟨rfl, rfl⟩
  · exact .refl d

theorem sameNodes_state (d : Draft) (name : String) (ty : Ty) :
    d.SameNodes (d.state name ty).2 := by
  unfold Draft.state
  split
  · exact .refl d
  · exact ⟨rfl, rfl⟩

theorem sameNodes_builtin (d : Draft) (name : String) (ty : Ty) :
    d.SameNodes (d.builtin name ty).2 := by
  unfold Draft.builtin
  split
  · exact .refl d
  · exact ⟨rfl, rfl⟩

theorem sameNodes_resultFor (d : Draft) (ty : Ty) : d.SameNodes (d.resultFor ty).2 := by
  unfold Draft.resultFor
  split
  · exact .refl d
  · exact ⟨rfl, rfl⟩
  · exact ⟨rfl, rfl⟩
  · exact ⟨rfl, rfl⟩

theorem sameNodes_reference (d : Draft) (ty : Ty) (target : OperandId) :
    d.SameNodes ((Edit.reference ty target).after d) := by
  rw [after_reference]
  split
  · exact ⟨rfl, rfl⟩
  · exact ⟨rfl, rfl⟩

/-- Each call has one of the effects. -/
theorem effect (e : Edit) (d : Draft) : e.Effect d (e.after d) := by
  cases e with
  | newNode => exact .adds rfl
  | switchTo n => exact .moves n rfl
  | terminate t => exact .terminates t rfl
  | annotate span => exact .annotates span rfl
  | emit op => exact .emits (.refl d) rfl rfl
  | emitChecked make =>
      rw [after_emitChecked]
      split
      · next op hop => exact .emits (.refl d) (by rw [emitted?, hop]; rfl) rfl
      · next e he => exact .spares (.refl d) (by rw [emitted?, he]; rfl) rfl
  | emitInto ty make =>
      rw [after_emitInto]
      split
      · next op hop => exact .emits ⟨rfl, rfl⟩ (by rw [emitted?, hop]; rfl) rfl
      · next e he => exact .spares ⟨rfl, rfl⟩ (by rw [emitted?, he]; rfl) rfl
  | popScope => exact .spares (sameNodes_popScope d) rfl rfl
  | state name ty => exact .spares (sameNodes_state d name ty) rfl rfl
  | builtin name ty => exact .spares (sameNodes_builtin d name ty) rfl rfl
  | resultFor ty => exact .spares (sameNodes_resultFor d ty) rfl rfl
  | reference ty target => exact .spares (sameNodes_reference d ty target) rfl rfl
  | _ => exact .spares ⟨rfl, rfl⟩ rfl rfl

/-- What is written at a node stays, and a terminated node is as it was. -/
theorem liesIn_after (e : Edit) (d : Draft) : d.body.LiesIn (e.after d).body := by
  have heffect := e.effect d
  generalize e.after d = d' at heffect ⊢
  cases heffect with
  | emits same => exact same.liesIn.trans (Draft.liesIn_emit _ _)
  | terminates t => exact d.liesIn_terminate t
  | adds => exact .addNode d.body
  | moves => exact .refl d.body
  | annotates span => exact d.liesIn_annotate span
  | spares same => exact same.liesIn

/-- A node gets the operation that is emitted to it behind those it has. -/
theorem operationsOf_after (e : Edit) (d : Draft) (n : NodeId) :
    (e.after d).body.operationsOf n =
      d.body.operationsOf n ++ if n = d.landing then (e.emitted? d).toList else [] := by
  -- an effect that emits nothing leaves the operations
  have hnone : e.emitted? d = none → (if n = d.landing then (e.emitted? d).toList else []) = [] := by
    intro h
    rw [h]
    split
    · rfl
    · rfl
  have heffect := e.effect d
  generalize e.after d = d' at heffect ⊢
  cases heffect with
  | emits same hop _ =>
      rw [Draft.operationsOf_emit, same.operationsOf, same.landing, hop]
      rfl
  | terminates t h => rw [hnone (by rw [h]; rfl), List.append_nil, Draft.operationsOf_terminate]
  | adds h =>
      rw [hnone (by rw [h]; rfl), List.append_nil]
      exact Draft.operationsOf_addNode d.body n
  | moves m h => rw [hnone (by rw [h]; rfl), List.append_nil]; rfl
  | annotates span h =>
      rw [hnone (by rw [h]; rfl), List.append_nil, Draft.operationsOf_annotate]
  | spares same hop _ => rw [hnone hop, List.append_nil, same.operationsOf]

/-- A node that has a terminator keeps it. -/
theorem exit?_after (e : Edit) (d : Draft) (n : NodeId) :
    (e.after d).body.exit? n = (d.body.exit? n).or ((e.closing? d).toList.lookup n) := by
  have hnone : e.closing? d = none → (e.closing? d).toList.lookup n = none := by
    intro h
    rw [h]
    rfl
  have heffect := e.effect d
  generalize e.after d = d' at heffect ⊢
  cases heffect with
  | emits same _ hclosing =>
      rw [hnone hclosing, Option.or_none, Draft.exit?_emit, same.exit?]
  | terminates t h => rw [h, closing?, Draft.exit?_terminate]
  | adds h =>
      rw [hnone (by rw [h]; rfl), Option.or_none]
      exact Draft.exit?_addNode d.body n
  | moves m h => rw [hnone (by rw [h]; rfl), Option.or_none]; rfl
  | annotates span h => rw [hnone (by rw [h]; rfl), Option.or_none, Draft.exit?_annotate]
  | spares same _ hclosing => rw [hnone hclosing, Option.or_none, same.exit?]

/-! ## The history of a construction -/

/-- An operation with the node it was emitted to and the number of operations it found there. -/
structure Emission where
  node : NodeId
  position : Nat
  operation : Operation

namespace Emission

/-- Where the operation is. -/
def place (m : Emission) : NodeId × Nat := (m.node, m.position)

/-- The operation stands in the body where it was emitted. -/
def StandsIn (m : Emission) (b : Body) : Prop :=
  (b.operationsOf m.node)[m.position]? = some m.operation

end Emission

/-- What a call emits, and where. -/
def emission? (e : Edit) (d : Draft) : Option Emission :=
  (e.emitted? d).map fun op => ⟨d.landing, (d.body.operationsOf d.landing).length, op⟩

/-- What calls emit, and where. -/
def emissions : List Edit → Draft → List Emission
  | [], _ => []
  | e :: rest, d => (e.emission? d).toList ++ emissions rest (e.after d)

/-- The terminators calls set where none is set. -/
def closings : List Edit → Draft → List (NodeId × Terminator)
  | [], _ => []
  | e :: rest, d => (e.closing? d).toList ++ closings rest (e.after d)

/-- The return variables a call declares. -/
def returns? : Edit → Option (List OperandId)
  | .setSignature _ returns => some returns
  | _ => none

/-- The return variables that calls declare last. -/
def declaredReturns (es : List Edit) : List OperandId :=
  es.foldl (fun returns e => e.returns?.getD returns) []

theorem standsIn_after (e : Edit) (d : Draft) (m : Emission) :
    m.StandsIn (e.after d).body ↔ m.StandsIn d.body ∨ e.emission? d = some m := by
  obtain ⟨n, i, op⟩ := m
  simp only [Emission.StandsIn, operationsOf_after, emission?]
  by_cases hn : n = d.landing
  · subst hn
    cases he : e.emitted? d with
    | none => simp
    | some op' =>
        simp only [if_true, Option.toList_some, Option.map_some, Option.some.injEq,
          Emission.mk.injEq, true_and, List.getElem?_append]
        split
        · next hlt =>
            constructor
            · exact Or.inl
            · rintro (h | ⟨rfl, -⟩)
              · exact h
              · exact absurd hlt (Nat.lt_irrefl _)
        · next hlt =>
            have hout : (d.body.operationsOf d.landing)[i]? = none :=
              List.getElem?_eq_none (Nat.not_lt.mp hlt)
            rw [hout, List.getElem?_singleton]
            constructor
            · intro h
              split at h
              · exact Or.inr ⟨by omega, Option.some.inj h⟩
              · cases h
            · rintro (h | ⟨rfl, rfl⟩)
              · cases h
              · simp
  · rw [if_neg hn, List.append_nil]
    constructor
    · exact Or.inl
    · rintro (h | h)
      · exact h
      · cases he : e.emitted? d with
        | none => rw [he] at h; cases h
        | some op' =>
            rw [he] at h
            obtain ⟨rfl, -, -⟩ := Emission.mk.inj (Option.some.inj h)
            exact absurd rfl hn

theorem returns_emit (d : Draft) (op : Operation) : (d.emit op).body.returns = d.body.returns := by
  have hreopen : d.reopen.body.returns = d.body.returns := by
    unfold Draft.reopen
    split
    · rfl
    · rfl
  exact hreopen

theorem returns_after (e : Edit) (d : Draft) :
    (e.after d).body.returns = e.returns?.getD d.body.returns := by
  cases e with
  | emit op => exact returns_emit d op
  | emitChecked make =>
      rw [after_emitChecked]
      split
      · exact returns_emit d _
      · rfl
  | emitInto ty make =>
      rw [after_emitInto]
      split
      · exact returns_emit _ _
      · rfl
  | popScope =>
      show d.popScope.body.returns = _
      unfold Draft.popScope
      split
      · rfl
      · rfl
  | state name ty =>
      show (d.state name ty).2.body.returns = _
      unfold Draft.state
      split
      · rfl
      · rfl
  | builtin name ty =>
      show (d.builtin name ty).2.body.returns = _
      unfold Draft.builtin
      split
      · rfl
      · rfl
  | resultFor ty =>
      show (d.resultFor ty).2.body.returns = _
      unfold Draft.resultFor
      split <;> rfl
  | reference ty target =>
      rw [after_reference]
      split
      · rfl
      · rfl
  | _ => rfl

/-! ## Runs of calls -/

theorem afterAll_cons (e : Edit) (es : List Edit) (d : Draft) :
    afterAll (e :: es) d = afterAll es (e.after d) := rfl

theorem afterAll_append (es fs : List Edit) (d : Draft) :
    afterAll (es ++ fs) d = afterAll fs (afterAll es d) := List.foldl_append

theorem liesIn_afterAll (es : List Edit) (d : Draft) : d.body.LiesIn (afterAll es d).body := by
  induction es generalizing d with
  | nil => exact .refl d.body
  | cons e es ih => exact (e.liesIn_after d).trans (ih (e.after d))

theorem standsIn_afterAll (es : List Edit) (d : Draft) (m : Emission) :
    m.StandsIn (afterAll es d).body ↔ m.StandsIn d.body ∨ m ∈ emissions es d := by
  induction es generalizing d with
  | nil => simp [afterAll, emissions]
  | cons e es ih =>
      rw [afterAll_cons, ih, standsIn_after, emissions, List.mem_append, Option.mem_toList,
        or_assoc]

/-- What is emitted finds its place empty. -/
theorem vacant_of_mem_emissions {es : List Edit} {d : Draft} {m : Emission}
    (hm : m ∈ emissions es d) : (d.body.operationsOf m.node).length ≤ m.position := by
  induction es generalizing d with
  | nil => exact absurd hm List.not_mem_nil
  | cons e es ih =>
      rcases List.mem_append.mp hm with hm | hm
      · obtain ⟨op, -, rfl⟩ := Option.map_eq_some_iff.mp (Option.mem_toList.mp hm)
        exact Nat.le_refl _
      · exact ((e.liesIn_after d).operationsOf m.node).length_le.trans (ih hm)

/-- No two operations are emitted to one place. -/
theorem nodup_places (es : List Edit) (d : Draft) :
    ((emissions es d).map Emission.place).Nodup := by
  induction es generalizing d with
  | nil => exact List.nodup_nil
  | cons e es ih =>
      rw [emissions]
      cases he : e.emission? d with
      | none => exact ih (e.after d)
      | some first =>
          refine List.nodup_cons.mpr ⟨fun hmem => ?_, ih (e.after d)⟩
          obtain ⟨m, hm, hplace⟩ := List.mem_map.mp hmem
          obtain ⟨hnode, hposition⟩ := Prod.mk.inj hplace
          -- the first operation stands where a later one would find an empty place
          have hfirst : first.StandsIn (e.after d).body := (e.standsIn_after d first).mpr (.inr he)
          have hlt := (List.getElem?_eq_some_iff.mp hfirst).1
          have hle := vacant_of_mem_emissions hm
          rw [hnode, hposition] at hle
          exact absurd hlt (Nat.not_lt.mpr hle)

theorem exit?_afterAll (es : List Edit) (d : Draft) (n : NodeId) :
    (afterAll es d).body.exit? n = (d.body.exit? n).or ((closings es d).lookup n) := by
  induction es generalizing d with
  | nil => rw [closings, List.lookup_nil, Option.or_none]; rfl
  | cons e es ih =>
      rw [afterAll_cons, ih, exit?_after, closings, List.lookup_append, Option.or_assoc]

theorem returns_afterAll (es : List Edit) (d : Draft) :
    (afterAll es d).body.returns =
      es.foldl (fun returns e => e.returns?.getD returns) d.body.returns := by
  induction es generalizing d with
  | nil => rfl
  | cons e es ih => rw [afterAll_cons, ih, returns_after, List.foldl_cons]

/-! ## From an empty draft -/

theorem operationsOf_start (counters : Counters) (n : NodeId) :
    (Draft.start counters).body.operationsOf n = [] := by
  cases hnode : (Draft.start counters).body.node? n with
  | none => rw [Body.operationsOf, hnode]; rfl
  | some node =>
      obtain ⟨-, rfl⟩ := Draft.node_start hnode
      exact Body.operationsOf_eq hnode

theorem exit?_start (counters : Counters) (n : NodeId) :
    (Draft.start counters).body.exit? n = none := by
  cases hnode : (Draft.start counters).body.node? n with
  | none => rw [Body.exit?, hnode]; rfl
  | some node =>
      obtain ⟨-, rfl⟩ := Draft.node_start hnode
      rw [Body.exit?, hnode]
      rfl

theorem standsIn_draft (counters : Counters) (es : List Edit) (m : Emission) :
    m.StandsIn (afterAll es (.start counters)).body ↔ m ∈ emissions es (.start counters) := by
  have hstart : ¬ m.StandsIn (Draft.start counters).body := by
    rw [Emission.StandsIn, operationsOf_start]
    simp
  rw [standsIn_afterAll, or_iff_right hstart]

theorem standsIn_finish (d : Draft) (m : Emission) : m.StandsIn d.finish ↔ m.StandsIn d.body := by
  rw [Emission.StandsIn, Draft.operationsOf_finish, Emission.StandsIn]

end Edit

/-- The body has the node with the same operations and the same terminator. -/
def Body.Keeps (b : Body) (n : NodeId) (node : Node) : Prop :=
  ∃ node', b.node? n = some node' ∧ node'.operations = node.operations ∧
    node'.terminator = node.terminator

theorem Body.LiesIn.keeps {b later : Body} (h : b.LiesIn later) {n : NodeId} {node : Node}
    (hnode : b.node? n = some node) (ht : node.isTerminated = true) : later.Keeps n node := by
  obtain ⟨node', hnode', hwithin⟩ := h n node hnode
  have hset : node.terminator ≠ .open_ := by
    intro hopen
    rw [Node.isTerminated, hopen] at ht
    exact Bool.noConfusion ht
  exact ⟨node', hnode', hwithin.terminated hset⟩

namespace Edit

/-- A node that is terminated after some of the calls is the same after all of them and in the
finished body.  The operations that stand in either are those that were emitted, each where it was
emitted and no two in one place.  Every node of the finished body is terminated: by the first
terminator that was set there or, if none was, by returning the return variables declared last. -/
theorem terminated_nodes_frozen (counters : Counters) (es : List Edit) :
    (∀ before later, es = before ++ later → ∀ n node,
      (afterAll before (.start counters)).body.node? n = some node → node.isTerminated = true →
        (afterAll es (.start counters)).body.Keeps n node ∧
          (afterAll es (.start counters)).finish.Keeps n node) ∧
    (((emissions es (.start counters)).map Emission.place).Nodup ∧
      ∀ m : Emission,
        (m.StandsIn (afterAll es (.start counters)).body ↔ m ∈ emissions es (.start counters)) ∧
        (m.StandsIn (afterAll es (.start counters)).finish ↔ m ∈ emissions es (.start counters))) ∧
    ∀ n node, (afterAll es (.start counters)).finish.node? n = some node →
      node.isTerminated = true ∧
        node.terminator =
          ((closings es (.start counters)).lookup n).getD (.ret (declaredReturns es)) := by
  refine ⟨?_, ⟨nodup_places es _, fun m => ?_⟩, ?_⟩
  · rintro before later rfl n node hnode ht
    have hlater : (afterAll before (.start counters)).body.LiesIn
        (afterAll (before ++ later) (.start counters)).body := by
      rw [afterAll_append]
      exact liesIn_afterAll later _
    exact ⟨hlater.keeps hnode ht, (hlater.trans (Draft.liesIn_finish _)).keeps hnode ht⟩
  · rw [standsIn_finish]
    exact ⟨standsIn_draft counters es m, standsIn_draft counters es m⟩
  · intro n node hnode
    obtain ⟨ht, hterminator⟩ := Draft.terminator_finish hnode
    rw [exit?_afterAll, exit?_start, Option.none_or, returns_afterAll] at hterminator
    exact ⟨ht, hterminator⟩

/-- Goes back to a node that reverts, and on to another one. -/
def lateGoto : List Edit := [.terminate .revert, nop, switchTo ⟨0⟩, goto ⟨1⟩]

/-- The node still reverts; what was emitted behind it went to a fresh node, which returns. -/
theorem revert_frozen : ∃ node,
    (afterAll [.terminate .revert] (.start .start)).body.node? ⟨0⟩ = some node ∧
    node.isTerminated = true ∧ (afterAll lateGoto (.start .start)).finish.Keeps ⟨0⟩ node ∧
    (afterAll lateGoto (.start .start)).finish.nodes.map
        (fun node => (node.operations, node.terminator)) =
      #[([], .revert), ([.nop], .ret [])] := by
  have hnodes : (afterAll lateGoto (.start .start)).finish.nodes.map
      (fun node => (node.operations, node.terminator)) =
        #[([], .revert), ([.nop], .ret [])] := by decide +kernel
  obtain ⟨frozen, -⟩ := terminated_nodes_frozen .start lateGoto
  refine ⟨_, rfl, rfl, ?_, hnodes⟩
  exact (frozen [.terminate .revert] [nop, switchTo ⟨0⟩, goto ⟨1⟩] rfl ⟨0⟩ _ rfl rfl).2

end Edit

end ContractCalls
