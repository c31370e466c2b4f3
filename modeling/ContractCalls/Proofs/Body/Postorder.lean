/-
# Reverse postorder

The order of `Body.reversePostorder` is the order in which a depth-first search
leaves the nodes, read backwards.  What it owes to the order of leaving is one
invariant more than `Search.Inv`: when a node is left, each of its successors
was left before or lies on the path, and from a node of the path control
reaches the node that is left (`Search.Sinks`).  At the end nothing is on the
path, so an edge of the order leads backwards only on a cycle.

Predecessors are listed by position, so what they say of a body rests on the
positions its nodes carry.  `Assembled` bodies got their nodes from `addNode`.
-/
import ContractCalls.Proofs.Body.Graph
import Mathlib.Logic.Function.Iterate

namespace ContractCalls.Body

open Relation

/-! ## The steps of a search -/

theorem Search.step_of_path_nil {b : Body} {s : Search} (h : s.path = []) : s.step b = s := by
  unfold Search.step
  rw [h]

theorem Search.run_of_path_nil {b : Body} {s : Search} (h : s.path = []) (fuel : Nat) :
    s.run b fuel = s := by
  cases fuel with
  | zero => rfl
  | succ fuel => simp [Search.run, h]

/-- A run is its steps: those behind an empty path change nothing. -/
theorem Search.run_eq_iterate (b : Body) (fuel : Nat) (s : Search) :
    s.run b fuel = (Search.step b)^[fuel] s := by
  induction fuel generalizing s with
  | zero => rfl
  | succ fuel ih =>
      rw [Function.iterate_succ_apply, ← ih]
      by_cases hp : s.path = []
      · rw [Search.step_of_path_nil hp, Search.run_of_path_nil hp, Search.run_of_path_nil hp]
      · rw [Search.run, if_neg (mt List.isEmpty_iff.mp hp)]

/-! ## The order in which nodes are left -/

/-- Control reaches the innermost node of a path from each of its nodes. -/
theorem reaches_of_isChain {b : Body} {inner : NodeId} {path : List NodeId}
    (chain : (inner :: path).IsChain fun inner outer => b.Edge outer inner) {n : NodeId}
    (hn : n ∈ inner :: path) : ReflTransGen b.Edge n inner := by
  induction path generalizing inner with
  | nil =>
      rw [List.mem_singleton.mp hn]
  | cons outer path ih =>
      obtain ⟨hedge, chain⟩ := List.isChain_cons_cons.mp chain
      rcases List.mem_cons.mp hn with rfl | hn
      · exact ReflTransGen.refl
      · exact (ih chain hn).tail hedge

/-- An edge from a finished node leads to one that was finished before it, or back to it. -/
def Search.Sinks (b : Body) (s : Search) : Prop :=
  ∀ before m after, s.finished = before ++ m :: after →
    ∀ n, b.Edge m n → n ∈ after ∨ ReflTransGen b.Edge n m

theorem Search.sinks_init (b : Body) (entry : NodeId) : (Search.init b entry).Sinks b := by
  intro before m after h
  exact absurd h (by simp [init])

/-- Leaving the innermost node of the path. -/
theorem Search.Sinks.finish {b : Body} {entry node : NodeId} {s : Search}
    {path : List (NodeId × List NodeId)} (inv : s.Inv b entry) (sinks : s.Sinks b)
    (hp : s.path = (node, []) :: path) :
    Search.Sinks b { s with finished := node :: s.finished, path := path } := by
  have htrail : s.trail = node :: path.map Prod.fst := by simp [trail, hp]
  intro before m after h n hn
  cases before with
  | nil =>
      obtain ⟨rfl, hafter⟩ := List.cons.inj h
      -- nothing is left to try from this node, so its successors are visited
      have hvisited : n ∈ s.visited := by
        rcases inv.tried (node, []) (hp ▸ List.mem_cons_self) n hn with h | h
        · exact absurd h List.not_mem_nil
        · exact h
      rcases (inv.visited_iff n).mp hvisited with hfin | htr
      · exact Or.inl (hafter ▸ hfin)
      · have chain := inv.chain
        rw [htrail] at chain htr
        exact Or.inr (reaches_of_isChain chain htr)
  | cons x before =>
      obtain ⟨-, hfin⟩ := List.cons.inj h
      exact sinks before m after hfin n hn

theorem Search.Sinks.step {b : Body} {entry : NodeId} {s : Search} (inv : s.Inv b entry)
    (sinks : s.Sinks b) : (s.step b).Sinks b := by
  unfold Search.step
  split
  · exact sinks
  · exact Sinks.finish inv sinks ‹_›
  · split
    · exact sinks
    · exact sinks

theorem Search.sinks_iterate {b : Body} {entry : NodeId} (steps : Nat) {s : Search}
    (inv : s.Inv b entry) (sinks : s.Sinks b) : ((Search.step b)^[steps] s).Sinks b := by
  induction steps generalizing s with
  | zero => exact sinks
  | succ steps ih =>
      rw [Function.iterate_succ_apply]
      exact ih inv.step (Sinks.step inv sinks)

/-! ## What the order is -/

/-- The one comes before the other in a list. -/
def Precedes (order : List NodeId) (u v : NodeId) : Prop :=
  ∃ before after, order = before ++ v :: after ∧ u ∈ before

/-- The nodes that control reaches from the entry, each once, in an order that goes along the
edges wherever the edges allow it. -/
structure IsReversePostorder (b : Body) (entry : NodeId) (order : List NodeId) : Prop where
  nodup : order.Nodup
  mem_iff : ∀ n, n ∈ order ↔ ReflTransGen b.Edge entry n
  head : order.head? = some entry
  /-- Every other node comes behind one of its predecessors. -/
  follows : ∀ n ∈ order, n ≠ entry → ∃ p, b.Edge p n ∧ Precedes order p n
  /-- An edge leads forward unless it lies on a cycle. -/
  forward : ∀ u ∈ order, ∀ v ∈ order, b.Edge u v → ¬ ReflTransGen b.Edge v u →
    Precedes order u v

theorem head?_reversePostorder {b : Body} {entry : NodeId} (h : b.entry = some entry) :
    b.reversePostorder.head? = some entry := by
  have hmem : entry ∈ b.reversePostorder :=
    mem_reversePostorder.mpr ⟨entry, h, ReflTransGen.refl⟩
  obtain ⟨first, rest, hfirst⟩ := List.exists_cons_of_ne_nil (List.ne_nil_of_mem hmem)
  have hsplit : b.reversePostorder = [] ++ first :: rest := hfirst
  rcases exists_earlier_of_reversePostorder hsplit with he | ⟨p, hp, -⟩
  · rw [hfirst, List.head?_cons, ← he, h]
  · exact absurd hp List.not_mem_nil

theorem precedes_of_reversePostorder {b : Body} {entry u v : NodeId} (h : b.entry = some entry)
    (hu : u ∈ b.reversePostorder) (huv : b.Edge u v) (hvu : ¬ ReflTransGen b.Edge v u) :
    Precedes b.reversePostorder u v := by
  have sinks : ((Search.init b entry).run b b.searchFuel).Sinks b := by
    rw [Search.run_eq_iterate]
    exact Search.sinks_iterate _ (Search.inv_init b entry) (Search.sinks_init b entry)
  obtain ⟨before, after, horder⟩ := List.append_of_mem hu
  have hv : v ∈ after := by
    rcases sinks before u after (reversePostorder_of_entry h ▸ horder) v huv with hv | hback
    · exact hv
    · exact absurd hback hvu
  obtain ⟨between, behind, rfl⟩ := List.append_of_mem hv
  refine ⟨before ++ u :: between, behind, ?_, ?_⟩
  · rw [horder, List.append_assoc, List.cons_append]
  · exact List.mem_append_right _ List.mem_cons_self

theorem isReversePostorder {b : Body} {entry : NodeId} (h : b.entry = some entry) :
    b.IsReversePostorder entry b.reversePostorder where
  nodup := reversePostorder_nodup b
  mem_iff n := by
    rw [mem_reversePostorder]
    constructor
    · rintro ⟨e, he, hreach⟩
      obtain rfl : entry = e := Option.some.inj (h.symm.trans he)
      exact hreach
    · intro hreach
      exact ⟨entry, h, hreach⟩
  head := head?_reversePostorder h
  follows n hn hne := by
    obtain ⟨before, after, horder⟩ := List.append_of_mem hn
    rcases exists_earlier_of_reversePostorder horder with he | ⟨p, hp, hedge⟩
    · exact absurd (Option.some.inj (he.symm.trans h)) hne
    · exact ⟨p, hedge, before, after, horder, hp⟩
  forward u hu v _ huv hvu := precedes_of_reversePostorder h hu huv hvu

/-! ## Bodies whose nodes were added -/

/-- The nodes of the body come from `addNode`, whatever was done to them and to the rest of the
body since. -/
inductive Assembled : Body → Prop where
  | blank {b : Body} (h : b.nodes = #[]) : Assembled b
  | addNode {b : Body} (h : Assembled b) : Assembled b.addNode.2
  | modifyNode {b : Body} (h : Assembled b) (id : NodeId) (f : Node → Node)
      (hf : ∀ node, (f node).id = node.id) : Assembled (b.modifyNode id f)
  | elsewhere {b b' : Body} (h : Assembled b) (hnodes : b'.nodes = b.nodes) : Assembled b'

theorem Assembled.numbered {b : Body} (h : b.Assembled) : b.Numbered := by
  induction h with
  | blank h =>
      intro id node hnode
      exact absurd hnode (by simp [node?, h])
  | @addNode b h ih =>
      intro id node hnode
      simp only [node?, Body.addNode, Array.getElem?_push] at hnode
      split at hnode
      · obtain rfl := Option.some.inj hnode
        exact congrArg NodeId.mk (Eq.symm ‹_›)
      · exact ih id node hnode
  | @modifyNode b h changed f hf ih =>
      intro id node hnode
      rw [node?_modifyNode] at hnode
      split at hnode
      · obtain ⟨old, hold, rfl⟩ := Option.map_eq_some_iff.mp hnode
        rw [hf]
        exact ih id old hold
      · exact ih id node hnode
  | elsewhere h hnodes ih =>
      intro id node hnode
      refine ih id node ?_
      rw [← hnode, node?, node?, hnodes]

theorem getElem?_predecessors {b : Body} {v : NodeId} {node : Node} (hv : b.node? v = some node) :
    b.predecessors[v.index]? = some (b.predecessorsOf v) := by
  have hlt : v.index < b.nodes.size := (Array.getElem?_eq_some_iff.mp hv).1
  simp [predecessors, List.getElem?_range hlt]

theorem count_predecessorsOf {b : Body} (numbered : b.Numbered) (u v : NodeId) :
    (b.predecessorsOf v).count u = if b.Edge u v then 1 else 0 := by
  rw [(predecessorsOf_nodup b v).count]
  exact if_congr (mem_predecessorsOf numbered) rfl rfl

/-- From an entry the search ends, and what it has finished then is a reverse postorder.  Under
a node of an assembled body its predecessors are listed, each once. -/
theorem reversePostorder_and_predecessors (b : Body) :
    (∀ entry, b.entry = some entry →
      (∃ steps, ((Search.step b)^[steps] (Search.init b entry)).path = [] ∧
        ((Search.step b)^[steps] (Search.init b entry)).finished = b.reversePostorder) ∧
      b.IsReversePostorder entry b.reversePostorder) ∧
    (b.Assembled → ∀ v node, b.node? v = some node →
      ∃ ps, b.predecessors[v.index]? = some ps ∧
        ∀ u, ps.count u = if b.Edge u v then 1 else 0) := by
  refine ⟨fun entry h => ⟨⟨b.searchFuel, ?_, ?_⟩, isReversePostorder h⟩, ?_⟩
  · rw [← Search.run_eq_iterate]
    exact (search_end b entry).2
  · rw [← Search.run_eq_iterate]
    exact (reversePostorder_of_entry h).symm
  · intro assembled v node hv
    exact ⟨_, getElem?_predecessors hv, fun u => count_predecessorsOf assembled.numbered u v⟩

/-- Decides the way out of a node. -/
def leaveBy (b : Body) (id : NodeId) (t : Terminator) : Body :=
  b.modifyNode id fun node => { node with terminator := t }

theorem Assembled.leaveBy {b : Body} (h : b.Assembled) (id : NodeId) (t : Terminator) :
    (b.leaveBy id t).Assembled :=
  h.modifyNode id _ fun _ => rfl

/-- Four nodes, two of them on a cycle, and a way to a node that does not exist. -/
def winding : Body :=
  (((empty.addNode.2.addNode.2.addNode.2.addNode.2.leaveBy ⟨0⟩ (.branch ⟨0⟩ ⟨1⟩ ⟨2⟩)).leaveBy
    ⟨1⟩ (.goto ⟨3⟩)).leaveBy ⟨2⟩ (.goto ⟨9⟩)).leaveBy ⟨3⟩ (.branch ⟨0⟩ ⟨1⟩ ⟨2⟩)

theorem assembled_winding : winding.Assembled :=
  have added : empty.addNode.2.addNode.2.addNode.2.addNode.2.Assembled :=
    (Assembled.blank rfl).addNode.addNode.addNode.addNode
  (((added.leaveBy _ _).leaveBy _ _).leaveBy _ _).leaveBy _ _

theorem winding_order :
    winding.entry = some ⟨0⟩ ∧ winding.Assembled ∧
      winding.reversePostorder = [⟨0⟩, ⟨1⟩, ⟨3⟩, ⟨2⟩, ⟨9⟩] ∧
      winding.IsReversePostorder ⟨0⟩ winding.reversePostorder ∧
      ∃ ps, winding.predecessors[1]? = some ps ∧
        ∀ u, ps.count u = if winding.Edge u ⟨1⟩ then 1 else 0 := by
  obtain ⟨order, predecessors⟩ := reversePostorder_and_predecessors winding
  refine ⟨rfl, assembled_winding, by decide, (order ⟨0⟩ rfl).2, ?_⟩
  exact predecessors assembled_winding ⟨1⟩ _ rfl

end ContractCalls.Body
