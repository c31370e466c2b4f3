/-
# Laying out a program in a draft

`Lowered d d' p` says that from `d` to `d'` a program has been laid out: in
every body that the nodes of `d'` lie within, the walks from where `d` stands
are the runs of `p`, and those that come through go on where `d'` stands.
Nothing is said of code laid out behind a terminator, which no walk reaches.

Each way of laying out nodes has its rule: a linear step, an arm that ends with
a jump, a choice of two arms, and the loops.
-/
import ContractCalls.Proofs.Body.Stage

namespace ContractCalls

/-- Where the ways out of a piece of code lead, by the loops around it and the place behind it. -/
def waysOut (loops : List LoopTargets) (done : Place) : Way → Place
  | .done => done
  | .broke => .into (loops.head?.elim ⟨0⟩ (·.breakTo))
  | .continued => .into (loops.head?.elim ⟨0⟩ (·.continueTo))

theorem update_waysOut (loops : List LoopTargets) (a c : Place) :
    Function.update (waysOut loops a) .done c = waysOut loops c := by
  funext w
  cases w <;> rfl

namespace Draft

variable {d d' d'' : Draft} {n m : NodeId} {p q : Program}

/-- From the first draft to the second the program has been laid out. -/
structure Lowered (d d' : Draft) (p : Program) : Prop where
  stage : d.Stage d'
  loops : d'.loops = d.loops
  realised {b : Body} (within : d'.body.LiesIn b) (live : d.isTerminated = false) :
    b.Realises p d.place (waysOut d.loops d'.place)
  ended (live : d.isTerminated = false) (dead : d'.isTerminated = true) : ¬ p.MayGo .done

namespace Lowered

theorem skip (h : d.current.index < d.body.nodes.size) : d.Lowered d .skip where
  stage := .refl h
  loops := rfl
  realised _ _ := .goes (.refl _)
  ended live dead := absurd (live.symm.trans dead) nofun

theorem live (h : d.Lowered d' p) (live : d.isTerminated = false)
    (hdone : p.MayGo .done) : d'.isTerminated = false := by
  cases dead : d'.isTerminated with
  | false => rfl
  | true => exact absurd hdone (h.ended live dead)

/-- One piece of code behind another; if the first never comes through, the second is dead. -/
theorem seq (hp : d.Lowered d' p) (hq : d'.Lowered d'' q) : d.Lowered d'' (p.seq q) := by
  refine ⟨hp.stage.trans hq.stage, hq.loops.trans hp.loops, ?_, ?_⟩
  · intro b within live
    refine .seq (c := d'.place) ?_ fun hdone => ?_
    · rw [update_waysOut]
      exact hp.realised (hq.stage.within.trans within) live
    · rw [← hp.loops]
      exact hq.realised within (hp.live live hdone)
  · intro live dead hdone
    rcases hdone.of_seq with ⟨-, h⟩ | ⟨hp', hq'⟩
    · exact h rfl
    · exact hq.ended (hp.live live hp') dead hq'

/-- Only nodes matter. -/
theorem onto (h : d.Lowered d' p) (f : Draft) : d.Lowered (f.onto d') p :=
  ⟨⟨h.stage.within, h.stage.kept, h.stage.current, h.stage.size, h.stage.here⟩, h.loops,
    h.realised, h.ended⟩

theorem of_onto {f : Draft} (h : (f.onto d).Lowered d' p) : d.Lowered d' p :=
  ⟨⟨h.stage.within, h.stage.kept, h.stage.current, h.stage.size, h.stage.here⟩, h.loops,
    h.realised, h.ended⟩

theorem annotate {span : Option Span} (here : d.current.index < d.body.nodes.size)
    (h : (d.annotate span).Lowered d' p) : d.Lowered d' p := by
  have hnode : (d.annotate span).body.node? d.current =
      (d.body.node? d.current).map fun node => { node with source := node.source.or span } := by
    show (d.body.modifyNode d.current _).node? d.current = _
    rw [Body.node?_modifyNode, if_pos rfl]
  have hops : (d.annotate span).body.operationsOf d.current = d.body.operationsOf d.current := by
    simp only [Body.operationsOf, hnode, Option.map_map]
    rfl
  have hplace : (d.annotate span).place = d.place := by
    show Place.behind d.current ((d.annotate span).body.operationsOf d.current).length = _
    rw [hops]
    rfl
  have hlive : (d.annotate span).isTerminated = d.isTerminated := by
    unfold isTerminated
    rw [show (d.annotate span).current = d.current from rfl, hnode]
    cases d.body.node? d.current <;> rfl
  refine ⟨((Stage.refl here).annotate span).trans h.stage, h.loops, fun within live => ?_,
    fun live => h.ended (hlive.trans live)⟩
  rw [← hplace]
  exact h.realised within (hlive.trans live)

end Lowered

/-! ## Linear steps -/

/-- Code that never comes through, and dead code behind it. -/
theorem Lowered.dead (hp : d.Lowered d' p) (s : d'.Stage d'') (hloops : d''.loops = d'.loops)
    (h : ¬ p.MayGo .done) : d.Lowered d'' p where
  stage := hp.stage.trans s
  loops := hloops.trans hp.loops
  realised within live := by
    refine (hp.realised (s.within.trans within) live).redirect fun w hw => ?_
    cases w with
    | done => exact absurd hw h
    | broke => exact .refl _
    | continued => exact .refl _
  ended _ _ := h

/-- The end of the execution. -/
theorem lowered_ends (h : d.current.index < d.body.nodes.size) (ending : Ending) {t : Terminator}
    (ht : ending.terminator? = some t) : d.Lowered (d.terminate t) (.leave (.ends ending)) where
  stage := (Stage.refl h).terminate t
  loops := rfl
  realised within live := by
    have hopen : t ≠ .open_ := by
      rintro rfl
      cases ending <;> cases ht
    exact .ends (within.ends (ends_terminate live t) hopen) ht
  ended _ _ hdone := nomatch hdone.of_leave

/-- Going where one of the ways out leads. -/
theorem lowered_goes (here : d.current.index < d.body.nodes.size) {w : Way} (hw : w ≠ .done)
    (h : ∀ a, waysOut d.loops a w = .into n) :
    d.Lowered (d.terminate (.goto n)) (.leave (.goes w)) where
  stage := (Stage.refl here).terminate _
  loops := rfl
  realised within live := by
    refine .goes ?_
    rw [h]
    exact .goto (within.ends (ends_terminate live _) nofun)
  ended _ _ hdone := hw (Exit.goes.inj hdone.of_leave)

theorem onto_of_emit (d e : Draft) (op : Operation) : (d.emit op).onto e = d.onto e := by
  unfold emit reopen
  split <;> rfl

theorem emit_of_live (live : d.isTerminated = false) (op : Operation) :
    d.emit op = { d with
      body := d.body.modifyNode d.current fun node =>
        { node with operations := node.operations ++ [op] } } := by
  simp [emit, reopen, live]

theorem node?_emit {node : Node} (hnode : d.body.node? d.current = some node)
    (hopen : node.terminator = .open_) (op : Operation) :
    (d.emit op).current = d.current ∧ (d.emit op).body.node? d.current =
      some { node with operations := node.operations ++ [op] } := by
  rw [emit_of_live (isTerminated_eq_false.mpr ⟨node, hnode, hopen⟩)]
  refine ⟨rfl, ?_⟩
  show (d.body.modifyNode _ _).node? _ = _
  rw [Body.node?_modifyNode, if_pos rfl, hnode]
  rfl

theorem lowered_emit (h : d.current.index < d.body.nodes.size) (op : Operation) :
    d.Lowered (d.emit op) (.operation op) := by
  refine ⟨(Stage.refl h).emit op, ?_, ?_, ?_⟩
  · unfold emit reopen
    split <;> rfl
  · intro b within live
    obtain ⟨node, hnode, hopen⟩ := isTerminated_eq_false.mp live
    obtain ⟨hcurrent, hemit⟩ := node?_emit hnode hopen op
    have hplace : (d.emit op).place = .behind d.current (node.operations.length + 1) := by
      rw [place, hcurrent, Body.operationsOf_eq hemit]
      simp
    obtain ⟨rest, hrest⟩ := within.operationsOf d.current
    rw [Body.operationsOf_eq hemit] at hrest
    rw [place, Body.operationsOf_eq hnode, hplace, ← update_waysOut d.loops d.place]
    refine .operation ?_
    rw [← hrest]
    simp
  · intro live dead
    obtain ⟨node, hnode, hopen⟩ := isTerminated_eq_false.mp live
    obtain ⟨hcurrent, hemit⟩ := node?_emit hnode hopen op
    rw [← hcurrent] at hemit
    have hlive := isTerminated_eq_false.mpr ⟨_, hemit, hopen⟩
    exact absurd (hlive.symm.trans dead) nofun

end Draft

/-- What acts lay out: the operations up to the end of the execution. -/
def Act.program : List Act → Program
  | [] => .skip
  | .emit op :: as => .seq (.operation op) (Act.program as)
  | .revert :: _ => .leave (.ends .reverted)

theorem Act.stays_program (as : List Act) : (Act.program as).Stays := by
  induction as with
  | nil => exact Program.stays_skip
  | cons a as ih =>
      cases a with
      | emit op => exact Program.Stays.seq (fun _ h => h.of_operation) ih
      | revert => exact Program.stays_leave nofun

theorem Draft.loops_acts (d : Draft) (as : List Act) : (d.acts as).loops = d.loops := by
  induction as generalizing d with
  | nil => rfl
  | cons a as ih =>
      rw [acts_cons, ih]
      cases a with
      | emit op =>
          simp only [act, emit, reopen]
          split <;> rfl
      | revert => rfl

theorem Draft.lowered_acts {d : Draft} (h : d.current.index < d.body.nodes.size)
    (as : List Act) : d.Lowered (d.acts as) (Act.program as) := by
  induction as generalizing d with
  | nil => exact .skip h
  | cons a as ih =>
      cases a with
      | emit op =>
          have hop := lowered_emit h op
          exact hop.seq (ih hop.stage.here)
      | revert =>
          have hend := lowered_ends h .reverted rfl
          exact hend.dead ((Stage.refl hend.stage.here).acts as) (loops_acts _ as)
            fun hdone => nomatch hdone.of_leave

/-! ## Reading off what a linear step lays out -/

/-- The operations of a node, and the end of the execution if that is behind them. -/
def Node.program (node : Node) : Program :=
  .after node.operations (if node.terminator = .revert then .leave (.ends .reverted) else .skip)

/-- Runs a step on an empty node: its value, and the program it leaves there. -/
def Build.record {α : Type} (x : Build α) : Build (α × Program) := ExceptT.mk fun d =>
  match x.run (d.onto (.start .start)) with
  | (.ok a, d') => (.ok (a, (d'.body.node? ⟨0⟩).elim .skip Node.program), d'.onto d)
  | (.error e, d') => (.error e, d'.onto d)

/-- A node that is terminated stays as it is. -/
theorem Draft.node?_act {d : Draft} {n : NodeId} {node : Node} (hnode : d.body.node? n = some node)
    (ht : node.terminator ≠ .open_) (a : Act) : (d.act a).body.node? n = some node := by
  have hcurrent (live : d.isTerminated = false) : d.current ≠ n := by
    rintro rfl
    obtain ⟨node', hnode', hopen⟩ := isTerminated_eq_false.mp live
    cases hnode.symm.trans hnode'
    exact ht hopen
  cases a with
  | revert =>
      show (d.body.modifyNode d.current _).node? n = _
      rw [Body.node?_modifyNode]
      split
      · simp [hnode, Node.isTerminated, ht]
      · exact hnode
  | emit op =>
      cases hd : d.isTerminated with
      | false =>
          show (d.emit op).body.node? n = _
          rw [emit_of_live hd]
          show (d.body.modifyNode d.current _).node? n = _
          rw [Body.node?_modifyNode, if_neg (hcurrent hd), hnode]
      | true =>
          have hnew : n ≠ d.body.addNode.1 := by
            rintro rfl
            simp [Body.node?, Body.addNode] at hnode
          simp only [act, emit, reopen, hd, if_true]
          show (d.body.addNode.2.modifyNode d.body.addNode.1 _).node? n = _
          rw [Body.node?_modifyNode, if_neg hnew.symm, Body.node?_addNode, if_neg hnew, hnode]

theorem Draft.node?_acts {d : Draft} {n : NodeId} {node : Node} (as : List Act)
    (hnode : d.body.node? n = some node) (ht : node.terminator ≠ .open_) :
    (d.acts as).body.node? n = some node := by
  induction as generalizing d with
  | nil => exact hnode
  | cons a as ih => exact ih (node?_act hnode ht a)

theorem Program.after_append (before ops : List Operation) (last : Program) :
    after (before ++ ops) last = after before (after ops last) := List.foldr_append

/-- Acts leave their program behind what the node holds. -/
theorem Draft.program_acts {d : Draft} {node : Node} (as : List Act)
    (hnode : d.body.node? d.current = some node) (hopen : node.terminator = .open_) :
    ∃ node', (d.acts as).body.node? d.current = some node' ∧
      node'.program = .after node.operations (Act.program as) := by
  induction as generalizing d node with
  | nil => exact ⟨node, hnode, by simp [Node.program, hopen, Act.program]⟩
  | cons a as ih =>
      cases a with
      | emit op =>
          obtain ⟨hcurrent, hemit⟩ := node?_emit hnode hopen op
          rw [← hcurrent] at hemit
          obtain ⟨node', hnode', hprogram⟩ := ih hemit hopen
          rw [hcurrent] at hnode'
          refine ⟨node', hnode', ?_⟩
          rw [hprogram, Program.after_append]
          rfl
      | revert =>
          refine ⟨{ node with terminator := .revert }, node?_acts as ?_ nofun, ?_⟩
          · show (d.body.modifyNode d.current _).node? d.current = _
            rw [Body.node?_modifyNode, if_pos rfl, hnode]
            simp [Node.isTerminated, hopen]
          · simp [Node.program, Act.program]

/-- The step gives the value and leads from the operands of one draft to those of the other,
whatever the nodes are, which it leaves as they are. -/
def Build.Elaborates {α : Type} (x : Build α) (d : Draft) (a : α) (d' : Draft) : Prop :=
  ∀ e : Draft, x.run (d.onto e) = (.ok a, d'.onto e)

/-- A linear step lays out what it leaves on an empty node. -/
theorem Linear.leads {α : Type} {x : Build α} (hx : Linear x) {d : Draft}
    (h : d.current.index < d.body.nodes.size) :
    Leads x d (fun a d' => ∃ p : Program, x.record.Elaborates d (a, p) d' ∧ d.Lowered d' p ∧ p.Stays)
      fun _ => True := by
  obtain ⟨r, d₁, as, hrun⟩ := hx d
  have hd : x.run d = (r, d₁.onto (d.acts as)) := hrun d
  unfold Leads
  rw [hd]
  cases r with
  | error e => trivial
  | ok a =>
      refine ⟨Act.program as, fun e => ?_, (Draft.lowered_acts h as).onto d₁, Act.stays_program as⟩
      obtain ⟨node, hnode, hprogram⟩ :=
        Draft.program_acts (d := .start .start) as rfl (show (Node.new ⟨0⟩).terminator = _ from rfl)
      have hnode' : (d₁.onto ((Draft.start .start).acts as)).body.node? ⟨0⟩ = some node := hnode
      have hrun' : x ((d.onto e).onto (.start .start)) =
        (.ok a, d₁.onto ((Draft.start .start).acts as)) := hrun (.start .start)
      show (match x ((d.onto e).onto (.start .start)) with | (.ok _, _) => _ | (.error _, _) => _) = _
      rw [hrun']
      simp only [hnode', Option.elim, hprogram]
      rfl

/-! ## Arms -/

namespace Draft

variable {d d' d'' d₁ d₂ d₃ : Draft} {n m j : NodeId} {p q test body : Program} {c : OperandId}

/-- Code in a node of its own, inside further loops, from which control jumps to another node. -/
structure Arm (d : Draft) (inner : List LoopTargets) (n m : NodeId) (p : Program) (d' : Draft) :
    Prop where
  stage : (d.switchTo n).Stage d'
  loops : d'.loops = d.loops
  realised {b : Body} (within : d'.body.LiesIn b) :
    b.Realises p (.behind n 0) (waysOut (inner ++ d.loops) (.into m))

/-- Where code comes through, the draft stands at the terminator that is set next. -/
theorem Lowered.ends_terminate (h : d.Lowered d' p) (live : d.isTerminated = false)
    {t : Terminator} {b : Body} (within : (d'.terminate t).body.LiesIn b)
    (hdone : p.MayGo .done) (ht : t ≠ .open_) :
    b.Ends d'.current (d'.body.operationsOf d'.current).length t :=
  within.ends (Draft.ends_terminate (h.live live hdone) t) ht

theorem Lowered.arm (h : (d.switchTo n).Lowered d' p) (fresh : d.Fresh n) (m : NodeId) :
    d.Arm [] n m p (d'.terminate (.goto m)) where
  stage := h.stage.terminate _
  loops := h.loops
  realised {b} within := by
    have hwithin := ((Stage.refl h.stage.here).terminate (.goto m)).within.trans within
    have hp := h.realised hwithin fresh.isTerminated
    rw [fresh.place] at hp
    refine hp.redirect fun w hw => ?_
    cases w with
    | done => exact .goto (h.ends_terminate fresh.isTerminated within hw nofun)
    | broke => exact .refl _
    | continued => exact .refl _

theorem Arm.inLoop {targets : LoopTargets} (arm : (d.pushLoop targets).Arm [] n m p d') :
    d.Arm [targets] n m p d'.popLoop where
  stage := ⟨arm.stage.within, arm.stage.kept, arm.stage.current, arm.stage.size, arm.stage.here⟩
  loops := congrArg List.tail arm.loops
  realised := arm.realised

/-- Code that goes on in a node that is still empty. -/
theorem lowered_join (stage : d.Stage d') (hloops : d'.loops = d.loops) (hj : d.Owns j)
    (fresh : d'.Fresh j)
    (realised : ∀ {b : Body}, d'.body.LiesIn b → d.isTerminated = false →
      b.Realises p d.place (waysOut d.loops (.into j))) : d.Lowered (d'.switchTo j) p where
  stage := stage.switchTo hj fresh.size
  loops := hloops
  realised within live := by
    rw [fresh.place]
    refine (realised within live).redirect fun w _ => ?_
    cases w with
    | done => exact .enter j
    | broke => exact .refl _
    | continued => exact .refl _
  ended _ dead := absurd (fresh.isTerminated.symm.trans dead) nofun

theorem Arm.fresh {inner : List LoopTargets} (arm : d.Arm inner n m p d') (fresh : d.Fresh j)
    (hj : j ≠ n) : d'.Fresh j :=
  Fresh.beside (d := d.switchTo n) fresh arm.stage hj

theorem Arm.stage_from {inner : List LoopTargets} (arm : d.Arm inner n m p d')
    (stage : d''.Stage d) (hn : d''.Owns n) (fresh : d.Fresh n) : d''.Stage d' :=
  (stage.switchTo hn fresh.size).trans arm.stage

/-! ## Nodes set aside -/

/-- Empty nodes have been set aside, and nothing else has changed. -/
structure Ahead (d : Draft) (nodes : List NodeId) (d' : Draft) : Prop where
  stage : d.Stage d'
  loops : d'.loops = d.loops
  current : d'.current = d.current
  same : d'.body.node? d.current = d.body.node? d.current
  new : ∀ n ∈ nodes, d.body.nodes.size ≤ n.index
  fresh : ∀ n ∈ nodes, d'.Fresh n
  distinct : nodes.Nodup
  operands (e : Draft) : d'.onto e = d.onto e

theorem Ahead.nil (here : d.current.index < d.body.nodes.size) : d.Ahead [] d :=
  ⟨.refl here, rfl, rfl, rfl, nofun, nofun, List.nodup_nil, fun _ => rfl⟩

theorem Ahead.cons {nodes : List NodeId} (h : d.Ahead nodes d') :
    d.Ahead (d'.newNode.1 :: nodes) d'.newNode.2 := by
  refine ⟨h.stage.newNode, h.loops, h.current, ?_, ?_, ?_, ?_, h.operands⟩
  · have hne : d.current ≠ d'.body.addNode.1 := by
      intro he
      have := h.current ▸ h.stage.here
      simp [he, Body.addNode] at this
    show d'.body.addNode.2.node? d.current = _
    rw [Body.node?_addNode, if_neg hne, h.same]
  · intro n hn
    rcases List.mem_cons.mp hn with rfl | hn
    · exact h.stage.size
    · exact h.new n hn
  · intro n hn
    rcases List.mem_cons.mp hn with rfl | hn
    · exact .new d'
    · exact (h.fresh n hn).newNode
  · exact List.nodup_cons.mpr ⟨fun hn => absurd (h.fresh _ hn).size (Nat.lt_irrefl _), h.distinct⟩

theorem Ahead.isTerminated {nodes : List NodeId} (h : d.Ahead nodes d') :
    d'.isTerminated = d.isTerminated := by
  rw [Draft.isTerminated, h.current, h.same]
  rfl

theorem Ahead.operationsOf {nodes : List NodeId} (h : d.Ahead nodes d') :
    d'.body.operationsOf d.current = d.body.operationsOf d.current := by
  rw [Body.operationsOf, h.same]
  rfl

theorem Ahead.place {nodes : List NodeId} (h : d.Ahead nodes d') : d'.place = d.place := by
  rw [Draft.place, h.current, h.operationsOf]
  rfl

/-- The nodes are empty as long as the construction does not move to them. -/
theorem Ahead.beside {nodes : List NodeId} (h : d.Ahead nodes d')
    (here : d.current.index < d.body.nodes.size) (s : d'.Stage d'') (hn : n ∈ nodes) :
    d''.Fresh n := by
  refine (h.fresh n hn).beside s ?_
  rintro rfl
  exact absurd here (Nat.not_lt.mpr (h.current ▸ h.new _ hn))

/-- Nodes have been set aside, and control leaves to some of them. -/
structure Fork (d : Draft) (t : Terminator) (nodes : List NodeId) (d' : Draft) : Prop where
  stage : d.Stage d'
  loops : d'.loops = d.loops
  new : ∀ n ∈ nodes, d.Owns n
  fresh : ∀ n ∈ nodes, d'.Fresh n
  distinct : nodes.Nodup
  operands (e : Draft) : d'.onto e = d.onto e
  ends : d.isTerminated = false → d'.body.Ends d.current (d.body.operationsOf d.current).length t

theorem Ahead.fork {nodes : List NodeId} (h : d.Ahead nodes d')
    (here : d.current.index < d.body.nodes.size) (t : Terminator) :
    d.Fork t nodes (d'.terminate t) where
  stage := h.stage.terminate t
  loops := h.loops
  new n hn := .inr (h.new n hn)
  fresh n hn := h.beside here ((Stage.refl h.stage.here).terminate t) hn
  distinct := h.distinct
  operands := h.operands
  ends live := by
    have hends := ends_terminate (h.isTerminated.trans live) t
    rwa [h.current, h.operationsOf] at hends

/-! ## Choices -/

theorem Fork.ifThen {yes join : NodeId} (fork : d.Fork (.branch c yes join) [join, yes] d₁)
    (arm : d₁.Arm [] yes join p d₂) : d.Lowered (d₂.switchTo join) (p.either .skip) := by
  obtain ⟨hjoin, hyes⟩ : d₁.Fresh join ∧ d₁.Fresh yes := by simpa using fork.fresh
  obtain ⟨hjoin', hyes'⟩ : d.Owns join ∧ d.Owns yes := by simpa using fork.new
  have hne : join ≠ yes := by simpa using fork.distinct
  refine lowered_join (arm.stage_from fork.stage hyes' hyes) (arm.loops.trans fork.loops) hjoin'
    (arm.fresh hjoin hne) fun {b} within live => ?_
  have hends := (arm.stage.within.trans within).ends (fork.ends live) nofun
  refine .either hends (.slide (.enter yes) ?_) (.goes (.refl _))
  rw [← fork.loops]
  exact arm.realised within

theorem Fork.ifElse {yes no join : NodeId} (fork : d.Fork (.branch c yes no) [no, join, yes] d₁)
    (hp : d₁.Arm [] yes join p d₂) (hq : d₂.Arm [] no join q d₃) :
    d.Lowered (d₃.switchTo join) (p.either q) := by
  obtain ⟨hno, hjoin, hyes⟩ : d₁.Fresh no ∧ d₁.Fresh join ∧ d₁.Fresh yes := by
    simpa using fork.fresh
  obtain ⟨hno', hjoin', hyes'⟩ : d.Owns no ∧ d.Owns join ∧ d.Owns yes := by simpa using fork.new
  obtain ⟨⟨hnj, hny⟩, hjy⟩ : (no ≠ join ∧ no ≠ yes) ∧ join ≠ yes := by simpa using fork.distinct
  have hstage := hp.stage_from fork.stage hyes' hyes
  have hloops : d₂.loops = d.loops := hp.loops.trans fork.loops
  refine lowered_join (hq.stage_from hstage hno' (hp.fresh hno hny)) (hq.loops.trans hloops) hjoin'
    (hq.fresh (hp.fresh hjoin hjy) hnj.symm) fun {b} within live => ?_
  have hwithin := hq.stage.within.trans within
  have hends := (hp.stage.within.trans hwithin).ends (fork.ends live) nofun
  refine .either hends (.slide (.enter yes) ?_) (.slide (.enter no) ?_)
  · rw [← fork.loops]
    exact hp.realised hwithin
  · rw [← hloops]
    exact hq.realised within

/-! ## Loops -/

/-- The body of a loop once. -/
theorem Arm.iteration {next exit : NodeId} (arm : d.Arm [⟨next, exit⟩] n next p d') {b : Body}
    (within : d'.body.LiesIn b) (ways : Way → Place) :
    b.Realises p.iteration (.behind n 0)
      (Body.Realises.inside ways (.into next) (.into exit)) := by
  refine .iteration ((arm.realised within).redirect fun w _ => ?_)
  cases w <;> exact .refl _

/-- The body of a loop once, and what comes before the next time. -/
theorem Arm.iteration_seq {next exit : NodeId} (arm : d.Arm [⟨next, exit⟩] n next p d') {b : Body}
    (within : d'.body.LiesIn b) (ways : Way → Place) {around : Place}
    (hq : b.Realises q (.into next) (Body.Realises.inside ways around (.into exit))) :
    b.Realises (p.iteration.seq q) (.behind n 0)
      (Body.Realises.inside ways around (.into exit)) := by
  refine .seq (c := .into next) ((arm.iteration within ways).redirect fun w _ => ?_) fun _ => hq
  cases w <;> exact .refl _

theorem Fork.whileLoop {header once exit : NodeId} (fork : d.Fork (.goto header) [header] d₁)
    (htest : (d₁.switchTo header).Lowered d₂ test) (hstays : test.Stays)
    (fork' : d₂.Fork (.branch c once exit) [exit, once] d₃)
    (arm : d₃.Arm [⟨header, exit⟩] once header body d') :
    d.Lowered (d'.switchTo exit) (.whileLoop test body) := by
  have hheader : d₁.Fresh header := by simpa using fork.fresh
  have hheader' : d.Owns header := by simpa using fork.new
  obtain ⟨hexit, honce⟩ : d₃.Fresh exit ∧ d₃.Fresh once := by simpa using fork'.fresh
  obtain ⟨hexit', honce'⟩ : d₂.Owns exit ∧ d₂.Owns once := by simpa using fork'.new
  have hne : exit ≠ once := by simpa using fork'.distinct
  have hstage := (fork.stage.switchTo hheader' hheader.size).trans htest.stage
  refine lowered_join (arm.stage_from (hstage.trans fork'.stage) (hstage.owns honce') honce)
    (arm.loops.trans (fork'.loops.trans (htest.loops.trans fork.loops))) (hstage.owns hexit')
    (arm.fresh hexit hne) fun {b} within live => ?_
  have hwithin₃ := arm.stage.within.trans within
  have hwithin₂ := fork'.stage.within.trans hwithin₃
  have hgoto := (htest.stage.within.trans hwithin₂).ends (fork.ends live) nofun
  have hbranch (hdone : test.MayGo .done) :=
    hwithin₃.ends (fork'.ends (htest.live hheader.isTerminated hdone)) nofun
  have hp := htest.realised hwithin₂ hheader.isTerminated
  rw [hheader.place] at hp
  refine .slide (.goto hgoto) (.loop hstays hp rfl hbranch ?_ (.refl _))
  exact .slide (.enter once) (arm.iteration within _)

theorem Fork.doWhile {once check exit : NodeId} (fork : d.Fork (.goto once) [exit, check, once] d₁)
    (arm : d₁.Arm [⟨check, exit⟩] once check body d₂)
    (htest : (d₂.switchTo check).Lowered d₃ test) (hstays : test.Stays) (c : OperandId) :
    d.Lowered ((d₃.terminate (.branch c once exit)).switchTo exit) (.doWhile body test) := by
  obtain ⟨hexit, hcheck, honce⟩ : d₁.Fresh exit ∧ d₁.Fresh check ∧ d₁.Fresh once := by
    simpa using fork.fresh
  obtain ⟨hexit', hcheck', honce'⟩ : d.Owns exit ∧ d.Owns check ∧ d.Owns once := by
    simpa using fork.new
  obtain ⟨⟨hec, heo⟩, hco⟩ : (exit ≠ check ∧ exit ≠ once) ∧ check ≠ once := by
    simpa using fork.distinct
  have hcheck₂ := arm.fresh hcheck hco
  have hstage := (arm.stage_from fork.stage honce' honce).switchTo hcheck' hcheck₂.size
  have htest' := htest.stage.terminate (.branch c once exit)
  refine lowered_join (hstage.trans htest') (htest.loops.trans (arm.loops.trans fork.loops)) hexit'
    (Fresh.beside (d := d₂.switchTo check) (arm.fresh hexit heo) htest' hec) fun {b} within live => ?_
  have hwithin₂ := htest'.within.trans within
  have hwithin₃ := ((Stage.refl htest.stage.here).terminate (.branch c once exit)).within.trans within
  have hgoto := (arm.stage.within.trans hwithin₂).ends (fork.ends live) nofun
  have hp := htest.realised hwithin₃ hcheck₂.isTerminated
  rw [hcheck₂.place] at hp
  refine .slide (.goto hgoto) (.catching_forever (arm.iteration_seq hwithin₂ _ ?_))
  refine .slide (.enter check) (.seq (c := d₃.place) (hp.stay hstays (.refl _)) fun hdone => ?_)
  have hbranch := htest.ends_terminate hcheck₂.isTerminated within hdone nofun
  exact .either hbranch (.goes (.refl _)) (.goes (.refl _))

section ForLoop

variable {d₄ d₅ : Draft} {header once next exit : NodeId} {t : Terminator} {step : Program}

/-- A loop with a step is a jump to its header and what is realised from there. -/
theorem Fork.around (fork : d.Fork (.goto header) [header] d₁)
    (ahead : (d₁.switchTo header).Ahead [exit, next, once] d₂) (htest : d₂.Lowered d₃ test)
    (hbody : (d₃.terminate t).Arm [⟨next, exit⟩] once next body d₄)
    (hstep : d₄.Arm [] next header step d₅)
    (realised : ∀ {b : Body}, d₅.body.LiesIn b →
      b.Realises p (.into header) (waysOut d.loops (.into exit))) :
    d.Lowered (d₅.switchTo exit) p := by
  have hheader : d₁.Fresh header := by simpa using fork.fresh
  have hheader' : d.Owns header := by simpa using fork.new
  have hstage := fork.stage.switchTo hheader' hheader.size
  have hother : ∀ j ∈ [exit, next, once], d.Owns j ∧ (d₃.terminate t).Fresh j := fun j hj =>
    ⟨hstage.owns (.inr (ahead.new j hj)), ahead.beside hstage.here (htest.stage.terminate t) hj⟩
  obtain ⟨⟨hexit', hexit⟩, ⟨hnext', hnext⟩, ⟨honce', honce⟩⟩ :
      (d.Owns exit ∧ (d₃.terminate t).Fresh exit) ∧ (d.Owns next ∧ (d₃.terminate t).Fresh next) ∧
        (d.Owns once ∧ (d₃.terminate t).Fresh once) := by
    simpa using hother
  obtain ⟨⟨hen, heo⟩, hno⟩ : (exit ≠ next ∧ exit ≠ once) ∧ next ≠ once := by
    simpa using ahead.distinct
  have hstage₃ := hstage.trans (ahead.stage.trans (htest.stage.terminate t))
  have hstage₄ := hbody.stage_from hstage₃ honce' honce
  have hloops : (d₃.terminate t).loops = d.loops :=
    htest.loops.trans (ahead.loops.trans fork.loops)
  refine lowered_join (hstep.stage_from hstage₄ hnext' (hbody.fresh hnext hno))
    (hstep.loops.trans (hbody.loops.trans hloops)) hexit'
    (hstep.fresh (hbody.fresh hexit heo) hen) fun {b} within live => ?_
  have hwithin := hbody.stage.within.trans (hstep.stage.within.trans within)
  have hwithin₁ := ahead.stage.within.trans ((htest.stage.terminate t).within.trans hwithin)
  exact .slide (.goto (hwithin₁.ends (fork.ends live) nofun)) (realised within)

/-- The body once and the step. -/
theorem Arm.round (hbody : d₃.Arm [⟨next, exit⟩] once next body d₄)
    (hstep : d₄.Arm [] next header step d₅) (hstays : step.Stays) {b : Body}
    (within : d₅.body.LiesIn b) (ways : Way → Place) :
    b.Realises (body.iteration.seq step) (.behind once 0)
      (Body.Realises.inside ways (.into header) (.into exit)) := by
  refine hbody.iteration_seq (hstep.stage.within.trans within) ways (.slide (.enter next) ?_)
  exact (hstep.realised within).stay hstays (.refl _)

theorem Fork.forTest (fork : d.Fork (.goto header) [header] d₁)
    (ahead : (d₁.switchTo header).Ahead [exit, next, once] d₂) (htest : d₂.Lowered d₃ test)
    (hstays : test.Stays)
    (hbody : (d₃.terminate (.branch c once exit)).Arm [⟨next, exit⟩] once next body d₄)
    (hstep : d₄.Arm [] next header step d₅) (hstays' : step.Stays) :
    d.Lowered (d₅.switchTo exit) (.forLoop (some test) step body) := by
  refine fork.around ahead htest hbody hstep fun {b} within => ?_
  have hheader : d₁.Fresh header := by simpa using fork.fresh
  have hlive : d₂.isTerminated = false := ahead.isTerminated.trans hheader.isTerminated
  have hwithin := hbody.stage.within.trans (hstep.stage.within.trans within)
  have hp := htest.realised
    (((Stage.refl htest.stage.here).terminate (.branch c once exit)).within.trans hwithin) hlive
  rw [ahead.place, hheader.place] at hp
  have hbranch (hdone : test.MayGo .done) := htest.ends_terminate hlive hwithin hdone nofun
  exact .loop hstays hp rfl hbranch (.slide (.enter once) (hbody.round hstep hstays' within _))
    (.refl _)

theorem Fork.forEver (fork : d.Fork (.goto header) [header] d₁)
    (ahead : (d₁.switchTo header).Ahead [exit, next, once] d₂)
    (hbody : (d₂.terminate (.goto once)).Arm [⟨next, exit⟩] once next body d₄)
    (hstep : d₄.Arm [] next header step d₅) (hstays' : step.Stays) :
    d.Lowered (d₅.switchTo exit) (.forLoop none step body) := by
  have htest := Lowered.skip ahead.stage.here
  refine fork.around ahead htest hbody hstep fun {b} within => ?_
  have hheader : d₁.Fresh header := by simpa using fork.fresh
  have hlive : d₂.isTerminated = false := ahead.isTerminated.trans hheader.isTerminated
  have hwithin := hbody.stage.within.trans (hstep.stage.within.trans within)
  have hgoto := hwithin.ends (ends_terminate hlive (.goto once)) nofun
  have hplace : d₂.place = .behind header 0 := ahead.place.trans hheader.place
  refine .catching_forever ?_
  rw [← hplace]
  exact .slide ((Body.Slides.goto hgoto).trans (.enter once)) (hbody.round hstep hstays' within _)

end ForLoop

/-! ## Whole bodies -/

/-- The code of a body, behind which the return variables are returned. -/
theorem Lowered.returning {counters : Counters}
    (h : (start counters).Lowered d p) (hstays : p.Stays) {l : List Operation} {e : Ending} :
    (∃ N, d.finish.Walk N (.into ⟨0⟩) l e) ↔
      (p.seq (.leave (.ends (.returned d.body.returns)))).Runs l (.ends e) := by
  have live : (start counters).isTerminated = false := rfl
  have hp := h.realised d.liesIn_finish live
  have hbody : d.finish.Realises (p.seq (.leave (.ends (.returned d.body.returns)))) (.into ⟨0⟩)
      (waysOut [] (.into ⟨0⟩)) := by
    refine .slide (.enter ⟨0⟩) (.seq (c := d.place) (hp.stay hstays (.refl _)) fun hdone => ?_)
    exact .ends (ends_finish (h.live live hdone)) rfl
  refine hbody.walk_iff_runs fun w hw => ?_
  rcases hw.of_seq with ⟨hw, hne⟩ | ⟨-, hw⟩
  · exact hne (hstays w hw)
  · cases hw.of_leave

end Draft

end ContractCalls
