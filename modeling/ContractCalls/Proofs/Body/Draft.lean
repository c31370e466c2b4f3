/-
# What a draft satisfies

Both lowerings work on drafts, by a few changes: add an operand, add a node,
terminate or extend the current node, bind a name.  `Laid` is what the nodes
and operands of a draft satisfy between two changes: all that a well-formed
body asks for but the termination of every node.  `Draft.Inv` adds that the
names, the targets of the enclosing loops and the current node lead to operands
and nodes that exist.

Each change has a lemma that says that it leads from drafts with the invariant
to drafts with the invariant, and that the body at most grows: operands that
are known and nodes that can be gone to stay so.  What is left open at the end
returns, and then the body is well formed.
-/
import ContractCalls.Body.Draft
import ContractCalls.Proofs.Body.WellFormed

namespace ContractCalls

/-! ## Bodies without regard to open nodes -/

namespace Body

/-- The operand is there. -/
def Knows (b : Body) (id : OperandId) : Prop := b.arena.Known id

/-- Control may go to the node: it is there, and is not the entry. -/
def Target (b : Body) (n : NodeId) : Prop := 0 < n.index ∧ n.index < b.nodes.size

/-- Operands stay as they are, and nodes stay there. -/
structure Extends (b b' : Body) : Prop where
  arena : b.arena.Includes b'.arena
  size : b.nodes.size ≤ b'.nodes.size

namespace Extends

theorem refl (b : Body) : b.Extends b := ⟨.refl b.arena, Nat.le_refl _⟩

theorem trans {a b c : Body} (hab : a.Extends b) (hbc : b.Extends c) : a.Extends c :=
  ⟨hab.arena.trans hbc.arena, hab.size.trans hbc.size⟩

theorem knows {b b' : Body} (h : b.Extends b') {id : OperandId} (hid : b.Knows id) :
    b'.Knows id := h.arena.known hid

theorem target {b b' : Body} (h : b.Extends b') {n : NodeId} (hn : b.Target n) : b'.Target n :=
  ⟨hn.1, Nat.lt_of_lt_of_le hn.2 h.size⟩

end Extends

/-- What a node that may still be open uses is there. -/
structure LaidNode (b : Body) (node : Node) : Prop where
  phis : node.phis = []
  operations : ∀ op ∈ node.operations, op.Valid b.arena
  reads : ∀ id ∈ node.terminator.reads, b.Knows id
  successors : ∀ n ∈ node.successors, b.Target n

theorem LaidNode.mono {b b' : Body} {node : Node} (h : b.LaidNode node) (e : b.Extends b') :
    b'.LaidNode node where
  phis := h.phis
  operations op hop := (h.operations op hop).includes e.arena
  reads id hid := e.knows (h.reads id hid)
  successors n hn := e.target (h.successors n hn)

theorem laidNode_new (b : Body) (id : NodeId) : b.LaidNode (.new id) where
  phis := rfl
  operations _ h := absurd h List.not_mem_nil
  reads _ h := absurd h List.not_mem_nil
  successors _ h := absurd h List.not_mem_nil

/-- A body is well formed but for its open nodes. -/
structure Laid (b : Body) : Prop where
  arena : b.arena.Unrenamed
  entry : b.entry = some ⟨0⟩
  isSsa : b.isSsa = false
  numbered : b.Numbered
  nodes : ∀ {n node}, b.node? n = some node → b.LaidNode node
  parameters : ∀ id ∈ b.parameters, b.Knows id
  returns : ∀ id ∈ b.returns, b.Knows id

theorem Laid.withArena {b : Body} (h : b.Laid) {a : Arena} (hinc : b.arena.Includes a)
    (ha : a.Unrenamed) : Laid { b with arena := a } where
  arena := ha
  entry := h.entry
  isSsa := h.isSsa
  numbered := h.numbered
  nodes hn := (h.nodes hn).mono ⟨hinc, Nat.le_refl _⟩
  parameters id hid := hinc.known (h.parameters id hid)
  returns id hid := hinc.known (h.returns id hid)

/-- A change of one node that keeps its number. -/
theorem Laid.modifyNode {b : Body} (h : b.Laid) (n : NodeId) {f : Node → Node}
    (hid : ∀ node, (f node).id = node.id) (hf : ∀ node, b.LaidNode node → b.LaidNode (f node)) :
    (b.modifyNode n f).Laid ∧ b.Extends (b.modifyNode n f) := by
  have e : b.Extends (b.modifyNode n f) := ⟨.refl b.arena, by simp⟩
  refine ⟨⟨h.arena, h.entry, h.isSsa, ?_, ?_, h.parameters, h.returns⟩, e⟩
  · intro m node hm
    rw [node?_modifyNode] at hm
    split at hm
    · obtain ⟨old, hold, rfl⟩ := Option.map_eq_some_iff.mp hm
      rw [hid, h.numbered m old hold]
    · exact h.numbered m node hm
  · intro m node hm
    rw [node?_modifyNode] at hm
    split at hm
    · obtain ⟨old, hold, rfl⟩ := Option.map_eq_some_iff.mp hm
      exact (hf old (h.nodes hold)).mono e
    · exact (h.nodes hm).mono e

theorem node?_addNode (b : Body) (n : NodeId) :
    b.addNode.2.node? n = if n = b.addNode.1 then some (.new b.addNode.1) else b.node? n := by
  have h : n = b.addNode.1 ↔ n.index = b.nodes.size := by cases n; simp [addNode]
  simp only [h]
  simp only [addNode, node?, Array.getElem?_push]

/-- A new node behind the entry can be gone to. -/
theorem Laid.addNode {b : Body} (h : b.Laid) (hsize : 0 < b.nodes.size) :
    b.addNode.2.Laid ∧ b.Extends b.addNode.2 ∧ b.addNode.2.Target b.addNode.1 := by
  have e : b.Extends b.addNode.2 := ⟨.refl b.arena, by simp [Body.addNode]⟩
  refine ⟨⟨h.arena, ?_, h.isSsa, ?_, ?_, h.parameters, h.returns⟩, e, hsize, ?_⟩
  · simp [Body.addNode, h.entry]
  · intro n node hn
    rw [node?_addNode] at hn
    split at hn
    · next hnew =>
        cases hn
        exact hnew.symm
    · exact h.numbered n node hn
  · intro n node hn
    rw [node?_addNode] at hn
    split at hn
    · cases hn
      exact laidNode_new _ _
    · exact (h.nodes hn).mono e
  · simp [Body.addNode]

/-- With every node terminated the body is well formed. -/
theorem Laid.wellFormed {b : Body} (h : b.Laid) (hsize : 0 < b.nodes.size)
    (hterminated : ∀ {n node}, b.node? n = some node → node.terminator ≠ .open_) :
    b.WellFormed where
  entry := h.entry
  entryNode := by simpa [node?] using Nat.ne_of_gt hsize
  noWayBack m hm := by
    obtain ⟨node, hnode, hmem⟩ := hm.exists_node
    exact Nat.lt_irrefl 0 ((h.nodes hnode).successors _ hmem).1
  numbered := h.numbered
  successors hmn := by
    obtain ⟨node, hnode, hmem⟩ := hmn.exists_node
    simpa [node?] using ((h.nodes hnode).successors _ hmem).2
  terminated := hterminated
  operands {n node} hn id hid := by
    rcases List.mem_append.mp hid with hid | hid
    · obtain ⟨op, hop, hid⟩ := List.mem_flatMap.mp hid
      have hvalid := (h.nodes hn).operations op hop
      rcases List.mem_append.mp hid with hid | hid
      · exact (hvalid.reads id hid).known
      · exact (hvalid.lvalue id (Option.mem_toList.mp hid)).known
    · exact (h.nodes hn).reads id hid
  parameters := h.parameters
  returns := h.returns
  operations hn := (h.nodes hn).operations
  arena := h.arena
  aliases := h.arena.coherent.bound
  resolves id hid := by
    obtain ⟨target, htarget, -⟩ := h.arena.resolve hid
    exact ⟨target, htarget⟩
  isSsa := h.isSsa
  phis hn := (h.nodes hn).phis

end Body

/-! ## Drafts -/

/-- Every value of the table is known. -/
def Table.KnownIn {κ : Type} [DecidableEq κ] (t : Table κ OperandId) (b : Body) : Prop :=
  ∀ key id, t.get? key = some id → b.Knows id

namespace Table.KnownIn

variable {κ : Type} [DecidableEq κ] {t : Table κ OperandId} {b b' : Body}

theorem empty : (Table.empty : Table κ OperandId).KnownIn b := by
  intro key id h
  simp at h

theorem mono (h : t.KnownIn b) (e : b.Extends b') : t.KnownIn b' := fun key id hid =>
  e.knows (h key id hid)

theorem insert (h : t.KnownIn b) {id : OperandId} (hid : b.Knows id) (key : κ) :
    (t.insert key id).KnownIn b := by
  intro other found hfound
  rw [Table.get?_insert] at hfound
  split at hfound
  · cases hfound
    exact hid
  · exact h other found hfound

end Table.KnownIn

namespace Draft

/-- What every draft satisfies. -/
structure Inv (d : Draft) : Prop where
  body : d.body.Laid
  current : d.current.index < d.body.nodes.size
  scopes : ∀ scope ∈ d.scopes, scope.KnownIn d.body
  loops : ∀ targets ∈ d.loops, d.body.Target targets.continueTo ∧ d.body.Target targets.breakTo
  states : d.states.KnownIn d.body
  builtins : d.builtins.KnownIn d.body
  declared : d.declared.KnownIn d.body

theorem node_start {counters : Counters} {n : NodeId} {node : Node}
    (h : (start counters).body.node? n = some node) : n = ⟨0⟩ ∧ node = .new ⟨0⟩ := by
  change Body.empty.addNode.2.node? n = some node at h
  rw [Body.node?_addNode] at h
  split at h
  · next hn =>
      cases h
      exact ⟨hn, rfl⟩
  · simp [Body.empty, Body.node?] at h

theorem inv_start (counters : Counters) : (start counters).Inv where
  body :=
    { arena := Arena.unrenamed_empty
      entry := rfl
      isSsa := rfl
      numbered := by
        intro n node h
        obtain ⟨rfl, rfl⟩ := node_start h
        rfl
      nodes := by
        intro n node h
        obtain ⟨rfl, rfl⟩ := node_start h
        exact Body.laidNode_new _ _
      parameters := fun _ h => absurd h List.not_mem_nil
      returns := fun _ h => absurd h List.not_mem_nil }
  current := Nat.zero_lt_one
  scopes scope h := by
    obtain rfl := List.mem_singleton.mp h
    exact .empty
  loops _ h := absurd h List.not_mem_nil
  states := .empty
  builtins := .empty
  declared := .empty

/-- The second draft has the invariant as well, and its body extends that of the first. -/
structure Reaches (d d' : Draft) : Prop where
  inv : d'.Inv
  body : d.body.Extends d'.body

namespace Reaches

theorem refl {d : Draft} (inv : d.Inv) : d.Reaches d := ⟨inv, .refl d.body⟩

theorem trans {a b c : Draft} (hab : a.Reaches b) (hbc : b.Reaches c) : a.Reaches c :=
  ⟨hbc.inv, hab.body.trans hbc.body⟩

theorem knows {d d' : Draft} (h : d.Reaches d') {id : OperandId} (hid : d.body.Knows id) :
    d'.body.Knows id := h.body.knows hid

theorem target {d d' : Draft} (h : d.Reaches d') {n : NodeId} (hn : d.body.Target n) :
    d'.body.Target n := h.body.target hn

end Reaches

variable {d : Draft}

/-- A draft with a larger body in place of its own. -/
theorem Inv.withBody (inv : d.Inv) {b : Body} (hb : b.Laid) (e : d.body.Extends b)
    (counters : Counters) : d.Reaches { d with body := b, counters := counters } where
  inv :=
    { body := hb
      current := Nat.lt_of_lt_of_le inv.current e.size
      scopes := fun scope h => (inv.scopes scope h).mono e
      loops := fun targets h => ⟨e.target (inv.loops targets h).1, e.target (inv.loops targets h).2⟩
      states := inv.states.mono e
      builtins := inv.builtins.mono e
      declared := inv.declared.mono e }
  body := e

/-! ### Nodes -/

theorem Inv.newNode (inv : d.Inv) :
    d.Reaches d.newNode.2 ∧ d.newNode.2.body.Target d.newNode.1 := by
  obtain ⟨hb, e, htarget⟩ := inv.body.addNode (Nat.lt_of_le_of_lt (Nat.zero_le _) inv.current)
  exact ⟨inv.withBody hb e d.counters, htarget⟩

theorem Inv.switchTo (inv : d.Inv) {n : NodeId} (hn : d.body.Target n) :
    d.Reaches (d.switchTo n) := ⟨{ inv with current := hn.2 }, .refl d.body⟩

/-- A change of the current node that keeps its number. -/
theorem Inv.modifyCurrent (inv : d.Inv) {f : Node → Node} (hid : ∀ node, (f node).id = node.id)
    (hf : ∀ node, d.body.LaidNode node → d.body.LaidNode (f node)) :
    d.Reaches { d with body := d.body.modifyNode d.current f } := by
  obtain ⟨hb, e⟩ := inv.body.modifyNode d.current hid hf
  exact inv.withBody hb e d.counters

theorem Inv.terminate (inv : d.Inv) {t : Terminator} (hreads : ∀ id ∈ t.reads, d.body.Knows id)
    (hsuccessors : ∀ n ∈ t.successors, d.body.Target n) : d.Reaches (d.terminate t) := by
  refine inv.modifyCurrent (fun node => by split <;> rfl) fun node h => ?_
  split
  · exact h
  · exact ⟨h.phis, h.operations, hreads, hsuccessors⟩

theorem Inv.annotate (inv : d.Inv) (span : Option Span) : d.Reaches (d.annotate span) :=
  inv.modifyCurrent (fun _ => rfl) fun _ h => ⟨h.phis, h.operations, h.reads, h.successors⟩

theorem Inv.reopen (inv : d.Inv) : d.Reaches d.reopen := by
  unfold Draft.reopen
  split
  · obtain ⟨r, htarget⟩ := inv.newNode
    exact r.trans (r.inv.switchTo htarget)
  · exact .refl inv

theorem Inv.emit (inv : d.Inv) {op : Operation} (hop : op.Valid d.body.arena) :
    d.Reaches (d.emit op) := by
  have r := inv.reopen
  refine r.trans (r.inv.modifyCurrent (fun _ => rfl) ?_)
  intro node h
  refine ⟨h.phis, ?_, h.reads, h.successors⟩
  intro p hp
  rcases List.mem_append.mp hp with hp | hp
  · exact h.operations p hp
  · obtain rfl := List.mem_singleton.mp hp
    exact hop.includes r.body.arena

/-! ### Operands -/

/-- What a step that gives an operand leads to. -/
def Gives (d : Draft) (result : OperandId × Draft) : Prop :=
  d.Reaches result.2 ∧ result.2.body.Knows result.1

/-- A new operand that renames nothing and is bound, if at all, to a known one. -/
theorem Inv.add (inv : d.Inv) {o : Operand} (hssa : o.ssa = none)
    (hbound : ∀ index target, o.kind = .reference index (some target) → d.body.Knows target)
    (counters : Counters) :
    d.Gives (⟨d.body.arena.size⟩,
      { d with body := { d.body with arena := (d.body.arena.add o).2 }, counters := counters }) := by
  have hinc := d.body.arena.includes_add o
  refine ⟨inv.withBody (inv.body.withArena hinc (inv.body.arena.add hssa hbound))
    ⟨hinc, Nat.le_refl _⟩ counters, ?_⟩
  show d.body.arena.size < (d.body.arena.add o).2.size
  simp

theorem Inv.addOperand (inv : d.Inv) (kind : OperandKind) (ty : Ty)
    (hkind : ∀ index target, kind ≠ .reference index (some target)) :
    d.Gives (d.addOperand kind ty) :=
  inv.add rfl (fun index target h => absurd h (hkind index target)) d.counters

theorem Inv.bindName (inv : d.Inv) {id : OperandId} (hid : d.body.Knows id) (name : String) :
    Inv { d with scopes := bindName name id d.scopes } := by
  refine { inv with scopes := ?_ }
  intro scope hscope
  show scope.KnownIn d.body
  cases hs : d.scopes with
  | nil =>
      rw [hs] at hscope
      exact absurd hscope List.not_mem_nil
  | cons inner outer =>
      rw [hs] at hscope
      rcases List.mem_cons.mp hscope with rfl | h
      · exact (inv.scopes inner (hs ▸ List.mem_cons_self)).insert hid name
      · exact inv.scopes scope (hs ▸ List.mem_cons_of_mem inner h)

theorem Inv.declareLocal (inv : d.Inv) (name : String) (ty : Ty) :
    d.Gives (d.declareLocal name ty) := by
  obtain ⟨r, hid⟩ := inv.addOperand (.localVar name) ty (by simp)
  exact ⟨⟨r.inv.bindName hid name, r.body⟩, hid⟩

theorem Inv.state (inv : d.Inv) (name : String) (ty : Ty) : d.Gives (d.state name ty) := by
  unfold Draft.state
  split
  · next id hid => exact ⟨.refl inv, inv.states name id hid⟩
  · obtain ⟨r, hid⟩ := inv.addOperand (.stateVar name) ty (by simp)
    exact ⟨⟨{ r.inv with states := r.inv.states.insert hid name }, r.body⟩, hid⟩

theorem Inv.builtin (inv : d.Inv) (name : String) (ty : Ty) : d.Gives (d.builtin name ty) := by
  unfold Draft.builtin
  split
  · next id hid => exact ⟨.refl inv, inv.builtins name id hid⟩
  · obtain ⟨r, hid⟩ := inv.addOperand (.builtin name) ty (by simp)
    exact ⟨⟨{ r.inv with builtins := r.inv.builtins.insert hid name }, r.body⟩, hid⟩

theorem Inv.temporary (inv : d.Inv) (ty : Ty) : d.Gives (d.temporary ty) :=
  inv.add rfl (fun _ _ h => by cases h) _

theorem Inv.tuple (inv : d.Inv) (ty : Ty) : d.Gives (d.tuple ty) :=
  inv.add rfl (fun _ _ h => by cases h) _

theorem Inv.resultFor (inv : d.Inv) (ty : Ty) :
    d.Reaches (d.resultFor ty).2 ∧ ∀ id ∈ (d.resultFor ty).1, (d.resultFor ty).2.body.Knows id := by
  unfold Draft.resultFor
  split
  · exact ⟨.refl inv, fun _ h => by cases h⟩
  · obtain ⟨r, hid⟩ := inv.temporary _
    exact ⟨r, fun _ h => Option.some.inj h ▸ hid⟩
  · obtain ⟨r, hid⟩ := inv.tuple _
    exact ⟨r, fun _ h => Option.some.inj h ▸ hid⟩
  · obtain ⟨r, hid⟩ := inv.temporary _
    exact ⟨r, fun _ h => Option.some.inj h ▸ hid⟩

theorem Inv.setSignature (inv : d.Inv) {parameters returns : List OperandId}
    (hparameters : ∀ id ∈ parameters, d.body.Knows id)
    (hreturns : ∀ id ∈ returns, d.body.Knows id) :
    d.Reaches (d.setSignature parameters returns) := by
  have e : d.body.Extends { d.body with parameters, returns } :=
    ⟨.refl d.body.arena, Nat.le_refl _⟩
  refine inv.withBody ?_ e d.counters
  exact { inv.body with
    nodes := fun hn => (inv.body.nodes hn).mono e
    parameters := hparameters
    returns := hreturns }

/-! ### Scopes and loops -/

theorem Inv.pushScope (inv : d.Inv) : d.Reaches d.pushScope := by
  refine ⟨{ inv with scopes := ?_ }, .refl d.body⟩
  intro scope hscope
  rcases List.mem_cons.mp hscope with rfl | h
  · exact .empty
  · exact inv.scopes scope h

theorem Inv.popScope (inv : d.Inv) : d.Reaches d.popScope := by
  unfold Draft.popScope
  split
  · next inner outer rest hs =>
      refine ⟨{ inv with scopes := ?_ }, .refl d.body⟩
      intro scope hscope
      exact inv.scopes scope (hs ▸ List.mem_cons_of_mem inner hscope)
  · exact .refl inv

theorem Inv.lookup? (inv : d.Inv) {name : String} {id : OperandId} (h : d.lookup? name = some id) :
    d.body.Knows id := by
  obtain ⟨scope, hscope, hid⟩ := List.exists_of_findSome?_eq_some h
  exact inv.scopes scope hscope name id hid

theorem Inv.pushLoop (inv : d.Inv) {targets : LoopTargets}
    (hcontinue : d.body.Target targets.continueTo) (hbreak : d.body.Target targets.breakTo) :
    d.Reaches (d.pushLoop targets) := by
  refine ⟨{ inv with loops := ?_ }, .refl d.body⟩
  intro other hother
  rcases List.mem_cons.mp hother with rfl | h
  · exact ⟨hcontinue, hbreak⟩
  · exact inv.loops other h

theorem Inv.popLoop (inv : d.Inv) : d.Reaches d.popLoop :=
  ⟨{ inv with loops := fun targets h => inv.loops targets (List.mem_of_mem_tail h) }, .refl d.body⟩

/-! ### The finished body -/

/-- A node of the finished body: what was open returns. -/
theorem exists_of_node_finish {n : NodeId} {node : Node} (h : d.finish.node? n = some node) :
    ∃ old, d.body.node? n = some old ∧
      node = if old.isTerminated then old else { old with terminator := .ret d.body.returns } := by
  rw [Body.node?, finish, Array.getElem?_map] at h
  obtain ⟨old, hold, rfl⟩ := Option.map_eq_some_iff.mp h
  exact ⟨old, hold, rfl⟩

theorem Inv.finish (inv : d.Inv) : d.finish.WellFormed := by
  have hsize : d.finish.nodes.size = d.body.nodes.size := by simp [Draft.finish]
  have e : d.body.Extends d.finish := ⟨.refl d.body.arena, Nat.le_of_eq hsize.symm⟩
  have hlaid : d.finish.Laid := by
    refine ⟨inv.body.arena, inv.body.entry, inv.body.isSsa, ?_, ?_, inv.body.parameters,
      inv.body.returns⟩
    · intro n node h
      obtain ⟨old, hold, rfl⟩ := exists_of_node_finish h
      have hid := inv.body.numbered n old hold
      split <;> exact hid
    · intro n node h
      obtain ⟨old, hold, rfl⟩ := exists_of_node_finish h
      have hlaid := (inv.body.nodes hold).mono e
      split
      · exact hlaid
      · exact ⟨hlaid.phis, hlaid.operations, inv.body.returns, fun _ h => absurd h List.not_mem_nil⟩
  refine hlaid.wellFormed (hsize ▸ Nat.lt_of_le_of_lt (Nat.zero_le _) inv.current) ?_
  intro n node h
  obtain ⟨old, -, rfl⟩ := exists_of_node_finish h
  split
  · next hterminated => simpa [Node.isTerminated] using hterminated
  · simp

end Draft

end ContractCalls
