/-
# What a step of a construction owns

A step owns the current node and the nodes it adds itself; every other node
stays as it is, and what is written is written for good.  `Stage` says that.
So an empty node that was set aside is still empty when the construction gets
to it, and what is known about the nodes of a draft holds in every body that is
finished from it.
-/
import ContractCalls.Proofs.Body.Draft
import ContractCalls.Proofs.Body.Linear
import ContractCalls.Proofs.Body.Program

namespace ContractCalls

/-! ## Nodes that are written for good -/

namespace Body

/-- The node is still there, perhaps with more operations; once terminated it is as it was. -/
structure NodeLiesIn (node later : Node) : Prop where
  operations : node.operations <+: later.operations
  terminated : node.terminator ≠ .open_ →
    later.operations = node.operations ∧ later.terminator = node.terminator

/-- Each node of the first body lies within that of the second. -/
def LiesIn (b later : Body) : Prop :=
  ∀ n node, b.node? n = some node → ∃ node', later.node? n = some node' ∧ NodeLiesIn node node'

theorem NodeLiesIn.refl (node : Node) : NodeLiesIn node node :=
  ⟨List.prefix_refl _, fun _ => ⟨rfl, rfl⟩⟩

theorem NodeLiesIn.trans {a b c : Node} (h : NodeLiesIn a b) (h' : NodeLiesIn b c) :
    NodeLiesIn a c where
  operations := h.operations.trans h'.operations
  terminated ha := by
    obtain ⟨hops, ht⟩ := h.terminated ha
    obtain ⟨hops', ht'⟩ := h'.terminated (ht ▸ ha)
    exact ⟨hops'.trans hops, ht'.trans ht⟩

/-- A node that is not terminated may get operations and a terminator. -/
theorem NodeLiesIn.of_open {node later : Node} (h : node.terminator = .open_)
    (hops : node.operations <+: later.operations) : NodeLiesIn node later :=
  ⟨hops, fun ht => absurd h ht⟩

namespace LiesIn

variable {a b c : Body}

theorem refl (b : Body) : b.LiesIn b := fun _ node h => ⟨node, h, .refl node⟩

theorem trans (h : a.LiesIn b) (h' : b.LiesIn c) : a.LiesIn c := by
  intro n node hnode
  obtain ⟨node', hnode', hwithin⟩ := h n node hnode
  obtain ⟨node'', hnode'', hwithin'⟩ := h' n node' hnode'
  exact ⟨node'', hnode'', hwithin.trans hwithin'⟩

theorem addNode (b : Body) : b.LiesIn b.addNode.2 := by
  intro n node hnode
  refine ⟨node, ?_, .refl node⟩
  have hn : n ≠ b.addNode.1 := by
    rintro rfl
    simp [Body.node?, Body.addNode] at hnode
  rw [node?_addNode, if_neg hn, hnode]

theorem modifyNode (b : Body) {n : NodeId} {f : Node → Node}
    (hf : ∀ node, b.node? n = some node → NodeLiesIn node (f node)) :
    b.LiesIn (b.modifyNode n f) := by
  intro m node hnode
  rw [node?_modifyNode]
  split
  · next hm =>
      subst hm
      exact ⟨f node, by rw [hnode]; rfl, hf node hnode⟩
  · exact ⟨node, hnode, .refl node⟩

theorem operationsOf (h : a.LiesIn b) (n : NodeId) : a.operationsOf n <+: b.operationsOf n := by
  cases hnode : a.node? n with
  | none => simp [Body.operationsOf, hnode]
  | some node =>
      obtain ⟨node', hnode', hwithin⟩ := h n node hnode
      rw [operationsOf_eq hnode, operationsOf_eq hnode']
      exact hwithin.operations

theorem ends (h : a.LiesIn b) {n : NodeId} {count : Nat} {t : Terminator}
    (hends : a.Ends n count t) (ht : t ≠ .open_) : b.Ends n count t := by
  obtain ⟨node, hnode, rfl, rfl⟩ := hends
  obtain ⟨node', hnode', hwithin⟩ := h n node hnode
  obtain ⟨hops, ht'⟩ := hwithin.terminated ht
  exact ⟨node', hnode', by rw [hops], ht'⟩

end LiesIn

end Body

/-! ## What a step owns -/

namespace Draft

variable {d d' d'' : Draft} {n m : NodeId}

/-- The node is the current one, or not there yet. -/
def Owns (d : Draft) (n : NodeId) : Prop := n = d.current ∨ d.body.nodes.size ≤ n.index

/-- What a step may do: write at the current node and at nodes it adds, and move among them. -/
structure Stage (d d' : Draft) : Prop where
  within : d.body.LiesIn d'.body
  kept : ∀ n, ¬ d.Owns n → d'.body.node? n = d.body.node? n
  current : d.Owns d'.current
  size : d.body.nodes.size ≤ d'.body.nodes.size
  here : d'.current.index < d'.body.nodes.size

/-- The node is there, with nothing in it. -/
def Fresh (d : Draft) (n : NodeId) : Prop := d.body.node? n = some (.new n)

/-- The place where the next operation goes. -/
def place (d : Draft) : Place := .behind d.current (d.body.operationsOf d.current).length

@[simp] theorem current_newNode : d.newNode.2.current = d.current := rfl

@[simp] theorem index_newNode : d.newNode.1.index = d.body.nodes.size := rfl

@[simp] theorem size_newNode : d.newNode.2.body.nodes.size = d.body.nodes.size + 1 := by
  simp [newNode, Body.addNode]

@[simp] theorem size_terminate (t : Terminator) :
    (d.terminate t).body.nodes.size = d.body.nodes.size := by simp [terminate]

@[simp] theorem current_terminate (t : Terminator) : (d.terminate t).current = d.current := rfl

theorem isTerminated_eq_false :
    d.isTerminated = false ↔
      ∃ node, d.body.node? d.current = some node ∧ node.terminator = .open_ := by
  unfold isTerminated
  cases d.body.node? d.current with
  | none => simp
  | some node => simp [Node.isTerminated]

namespace Stage

theorem refl (h : d.current.index < d.body.nodes.size) : d.Stage d :=
  ⟨.refl _, fun _ _ => rfl, .inl rfl, Nat.le_refl _, h⟩

theorem owns (h : d.Stage d') (hn : d'.Owns n) : d.Owns n := by
  rcases hn with rfl | hn
  · exact h.current
  · exact .inr (h.size.trans hn)

theorem trans (h : d.Stage d') (h' : d'.Stage d'') : d.Stage d'' where
  within := h.within.trans h'.within
  kept n hn := by rw [h'.kept n fun hn' => hn (h.owns hn'), h.kept n hn]
  current := h.owns h'.current
  size := h.size.trans h'.size
  here := h'.here

theorem newNode (h : d.Stage d') : d.Stage d'.newNode.2 := by
  have hhere : d'.current.index < d'.newNode.2.body.nodes.size := by
    simpa using Nat.lt_succ_of_lt h.here
  refine h.trans ⟨.addNode _, fun n hn => ?_, .inl rfl, by simp, hhere⟩
  have hne : n ≠ d'.body.addNode.1 := fun he => hn (.inr (by simp [he, Body.addNode]))
  show d'.body.addNode.2.node? n = _
  rw [Body.node?_addNode, if_neg hne]

/-- A change of the current node that writes for good. -/
theorem modifyCurrent (h : d.Stage d') {f : Node → Node}
    (hf : ∀ node, d'.body.node? d'.current = some node → Body.NodeLiesIn node (f node)) :
    d.Stage { d' with body := d'.body.modifyNode d'.current f } := by
  refine h.trans ⟨.modifyNode _ hf, fun n hn => ?_, .inl rfl, by simp, by simpa using h.here⟩
  rw [Body.node?_modifyNode, if_neg fun he => hn (.inl he.symm)]

theorem terminate (h : d.Stage d') (t : Terminator) : d.Stage (d'.terminate t) := by
  refine h.modifyCurrent fun node _ => ?_
  split
  · exact .refl node
  · next ht =>
      exact .of_open (by simpa [Node.isTerminated] using ht) (List.prefix_refl _)

theorem annotate (h : d.Stage d') (span : Option Span) : d.Stage (d'.annotate span) :=
  h.modifyCurrent fun _ _ => ⟨List.prefix_refl _, fun _ => ⟨rfl, rfl⟩⟩

theorem switchTo (h : d.Stage d') (hn : d.Owns n) (hsize : n.index < d'.body.nodes.size) :
    d.Stage (d'.switchTo n) :=
  ⟨h.within, h.kept, hn, h.size, hsize⟩

theorem reopen (h : d.Stage d') : d.Stage d'.reopen := by
  unfold Draft.reopen
  split
  · exact h.newNode.switchTo (h.owns (.inr (Nat.le_refl _))) (by simp)
  · exact h

theorem isTerminated_reopen : d.reopen.isTerminated = false := by
  unfold Draft.reopen
  split
  · refine isTerminated_eq_false.mpr ⟨.new d.newNode.1, ?_, rfl⟩
    show d.body.addNode.2.node? d.body.addNode.1 = _
    rw [Body.node?_addNode, if_pos rfl]
    rfl
  · next hd => simpa using hd

theorem emit (h : d.Stage d') (op : Operation) : d.Stage (d'.emit op) := by
  refine h.reopen.modifyCurrent fun node hnode => ?_
  obtain ⟨node', hnode', hopen⟩ := isTerminated_eq_false.mp (isTerminated_reopen)
  cases hnode.symm.trans hnode'
  exact .of_open hopen (List.prefix_append _ _)

theorem acts (h : d.Stage d') (as : List Act) : d.Stage (d'.acts as) := by
  induction as generalizing d' with
  | nil => exact h
  | cons a as ih =>
      cases a with
      | emit op => exact ih (h.emit op)
      | revert => exact ih (h.terminate .revert)

end Stage

namespace Fresh

theorem size (h : d.Fresh n) : n.index < d.body.nodes.size := by
  obtain ⟨hlt, -⟩ := Array.getElem?_eq_some_iff.mp h
  exact hlt

theorem new (d : Draft) : d.newNode.2.Fresh d.newNode.1 := by
  show d.body.addNode.2.node? d.body.addNode.1 = _
  rw [Body.node?_addNode, if_pos rfl]
  rfl

/-- A node set aside is empty until the construction moves to it. -/
theorem beside (h : d.Fresh n) (s : d.Stage d') (hn : n ≠ d.current) : d'.Fresh n := by
  refine (s.kept n ?_).trans h
  rintro (he | hsize)
  · exact hn he
  · exact absurd h.size (Nat.not_lt.mpr hsize)

theorem newNode (h : d.Fresh n) : d.newNode.2.Fresh n := by
  show d.body.addNode.2.node? n = _
  rw [Body.node?_addNode, if_neg ?_]
  · exact h
  · rintro rfl
    exact absurd h.size (by simp [Body.addNode])

theorem isTerminated (h : d.Fresh n) : (d.switchTo n).isTerminated = false :=
  isTerminated_eq_false.mpr ⟨.new n, h, rfl⟩

theorem place (h : d.Fresh n) : (d.switchTo n).place = .behind n 0 := by
  have : d.body.operationsOf n = [] := Body.operationsOf_eq h
  show Place.behind n (d.body.operationsOf n).length = _
  rw [this]
  rfl

end Fresh

/-- A terminator that is set where the draft stands. -/
theorem ends_terminate (h : d.isTerminated = false) (t : Terminator) :
    (d.terminate t).body.Ends d.current (d.body.operationsOf d.current).length t := by
  obtain ⟨node, hnode, hopen⟩ := isTerminated_eq_false.mp h
  refine ⟨{ node with terminator := t }, ?_, by rw [Body.operationsOf_eq hnode], rfl⟩
  show (d.body.modifyNode d.current _).node? d.current = _
  rw [Body.node?_modifyNode, if_pos rfl, hnode]
  simp [Node.isTerminated, hopen]

/-! ## The finished body -/

theorem node?_finish (n : NodeId) :
    d.finish.node? n = (d.body.node? n).map fun node =>
      if node.isTerminated then node else { node with terminator := .ret d.body.returns } := by
  simp [finish, Body.node?]

theorem liesIn_finish (d : Draft) : d.body.LiesIn d.finish := by
  intro n node hnode
  refine ⟨_, by rw [node?_finish, hnode]; rfl, ?_⟩
  dsimp only
  split
  · exact .refl node
  · next ht => exact .of_open (by simpa [Node.isTerminated] using ht) (List.prefix_refl _)

theorem ends_finish (h : d.isTerminated = false) :
    d.finish.Ends d.current (d.body.operationsOf d.current).length (.ret d.body.returns) := by
  obtain ⟨node, hnode, hopen⟩ := isTerminated_eq_false.mp h
  refine ⟨{ node with terminator := .ret d.body.returns }, ?_,
    by rw [Body.operationsOf_eq hnode], rfl⟩
  rw [node?_finish, hnode]
  simp [Node.isTerminated, hopen]

end Draft

end ContractCalls
