/-
# The graph of a body

Edges lead from a node to its successors.  The search behind
`Body.reversePostorder` keeps four things apart: what is finished, the path it
stands on, what is still to be tried from the nodes of the path, and what it
has not seen.  `Search.Inv` says how they hang together; one step keeps it,
and with the fuel the body gives it the search ends with an empty path.

Read off at the end: the order lists exactly the reachable nodes, each once,
and every node but the entry comes after one of its predecessors.
-/
import ContractCalls.Body.Basic
import Mathlib.Algebra.GroupWithZero.Nat
import Mathlib.Data.List.Chain
import Mathlib.Data.List.Perm.Subperm
import Mathlib.Logic.Relation
import Mathlib.Tactic.Basic

namespace ContractCalls.Body

/-- Control may go from one node to the other. -/
def Edge (b : Body) (m n : NodeId) : Prop := n ∈ b.successors m

instance decidableEdge (b : Body) (m n : NodeId) : Decidable (b.Edge m n) :=
  inferInstanceAs (Decidable (n ∈ b.successors m))

/-- The node lies on a path from the entry. -/
def Reachable (b : Body) (n : NodeId) : Prop :=
  ∃ entry, b.entry = some entry ∧ Relation.ReflTransGen b.Edge entry n

theorem Edge.exists_node {b : Body} {m n : NodeId} (h : b.Edge m n) :
    ∃ node, b.node? m = some node ∧ n ∈ node.successors := by
  unfold Edge successors at h
  split at h
  · exact ⟨_, ‹_›, h⟩
  · exact absurd h List.not_mem_nil

theorem mem_nodes_iff {b : Body} {node : Node} :
    node ∈ b.nodes.toList ↔ ∃ n, b.node? n = some node := by
  constructor
  · intro h
    obtain ⟨i, hi⟩ := List.getElem?_of_mem h
    exact ⟨⟨i⟩, Array.getElem?_toList.symm.trans hi⟩
  · rintro ⟨n, hn⟩
    exact (Array.mem_of_getElem? hn).val

/-! ## After changing a node -/

theorem node?_modifyNode (b : Body) (id other : NodeId) (f : Node → Node) :
    (b.modifyNode id f).node? other =
      if id = other then (b.node? other).map f else b.node? other := by
  have h : id = other ↔ id.index = other.index := by cases id; cases other; simp
  simp only [modifyNode, node?, Array.getElem?_modify, h]

@[simp] theorem size_modifyNode (b : Body) (id : NodeId) (f : Node → Node) :
    (b.modifyNode id f).nodes.size = b.nodes.size := by simp [modifyNode]

/-! ## The nodes a search can meet -/

/-- The entry and everything some node leads to. -/
def candidates (b : Body) (entry : NodeId) : List NodeId :=
  entry :: b.nodes.toList.flatMap (·.successors)

theorem Edge.mem_candidates {b : Body} {entry m n : NodeId} (h : b.Edge m n) :
    n ∈ b.candidates entry := by
  obtain ⟨node, hnode, hn⟩ := h.exists_node
  have hmem : node ∈ b.nodes := Array.mem_of_getElem? hnode
  exact List.mem_cons_of_mem _ (List.mem_flatMap.mpr ⟨node, hmem.val, hn⟩)

theorem length_successors_le (n : Node) : n.successors.length ≤ 2 := by
  unfold Node.successors Terminator.successors
  split
  · simp
  · split <;> simp
  · simp

theorem length_candidates_le (b : Body) (entry : NodeId) :
    (b.candidates entry).length ≤ 2 * b.nodes.size + 1 := by
  have h : ∀ ns : List Node, (ns.flatMap (·.successors)).length ≤ 2 * ns.length := by
    intro ns
    induction ns with
    | nil => simp
    | cons n rest ih =>
        have := length_successors_le n
        simp only [List.flatMap_cons, List.length_append, List.length_cons]
        omega
  have := h b.nodes.toList
  simpa [candidates] using this

/-! ## The invariant of the search -/

/-- The nodes of the path, innermost first. -/
def Search.trail (s : Search) : List NodeId := s.path.map Prod.fst

/-- What a search from an entry keeps. -/
structure Search.Inv (b : Body) (entry : NodeId) (s : Search) : Prop where
  visited_iff : ∀ n, n ∈ s.visited ↔ n ∈ s.finished ∨ n ∈ s.trail
  nodup : (s.finished ++ s.trail).Nodup
  reached : ∀ n ∈ s.visited, Relation.ReflTransGen b.Edge entry n
  /-- What is still to be tried from a node of the path is a successor of it. -/
  pending : ∀ f ∈ s.path, ∀ n ∈ f.2, b.Edge f.1 n
  /-- A successor of a node of the path is still to be tried, or visited. -/
  tried : ∀ f ∈ s.path, ∀ n, b.Edge f.1 n → n ∈ f.2 ∨ n ∈ s.visited
  closed : ∀ m ∈ s.finished, ∀ n, b.Edge m n → n ∈ s.visited
  /-- The path is one: each node follows the one outside it, and the entry is outermost. -/
  chain : s.trail.IsChain fun inner outer => b.Edge outer inner
  outermost : s.trail ≠ [] → s.trail.getLast? = some entry
  /-- A finished node follows one that is finished later or on the path. -/
  follows : ∀ before n after, s.finished = before ++ n :: after →
    n = entry ∨ ∃ p, b.Edge p n ∧ (p ∈ before ∨ p ∈ s.trail)
  entry_visited : entry ∈ s.visited

/-- The search before its first step. -/
def Search.init (b : Body) (entry : NodeId) : Search :=
  ⟨[entry], [], [(entry, b.successors entry)]⟩

theorem Search.inv_init (b : Body) (entry : NodeId) : (Search.init b entry).Inv b entry where
  visited_iff n := by simp [init, trail]
  nodup := by simp [init, trail]
  reached n hn := by
    rw [List.mem_singleton.mp hn]
  pending f hf n hn := by
    rw [List.mem_singleton.mp hf] at hn ⊢
    exact hn
  tried f hf n hn := by
    rw [List.mem_singleton.mp hf] at hn ⊢
    exact Or.inl hn
  closed m hm := absurd hm List.not_mem_nil
  chain := List.isChain_singleton _
  outermost _ := rfl
  follows before n after h := by simp [init] at h
  entry_visited := List.mem_singleton.mpr rfl

/-- Leaving the innermost node of the path. -/
theorem Search.Inv.finish {b : Body} {entry node : NodeId} {s : Search}
    {path : List (NodeId × List NodeId)} (inv : s.Inv b entry) (hp : s.path = (node, []) :: path) :
    Search.Inv b entry { s with finished := node :: s.finished, path := path } := by
  have htrail : s.trail = node :: path.map Prod.fst := by simp [trail, hp]
  have hchain := inv.chain
  rw [htrail] at hchain
  refine ⟨?_, ?_, inv.reached, ?_, ?_, ?_, ?_, ?_, ?_, inv.entry_visited⟩
  · intro n
    rw [inv.visited_iff, htrail]
    simp only [List.mem_cons, trail]
    tauto
  · have h := inv.nodup
    rw [htrail] at h
    exact (List.perm_middle.nodup_iff).mp h
  · intro f hf
    exact inv.pending f (hp ▸ List.mem_cons_of_mem _ hf)
  · intro f hf
    exact inv.tried f (hp ▸ List.mem_cons_of_mem _ hf)
  · intro m hm n hn
    rcases List.mem_cons.mp hm with rfl | hm
    · rcases inv.tried (m, []) (hp ▸ List.mem_cons_self) n hn with h | h
      · exact absurd h List.not_mem_nil
      · exact h
    · exact inv.closed m hm n hn
  · exact hchain.tail
  · intro hne
    have h := inv.outermost (by simp [htrail])
    obtain ⟨x, xs, hx⟩ := List.exists_cons_of_ne_nil hne
    change path.map Prod.fst = x :: xs at hx
    rw [htrail, hx, List.getLast?_cons_cons] at h
    rw [show Search.trail { s with finished := node :: s.finished, path := path } = x :: xs from hx]
    exact h
  · intro before n after h
    cases before with
    | nil =>
        -- the node just finished follows the next one on the path, unless it is the entry
        obtain ⟨rfl, -⟩ := List.cons.inj h
        cases hrest : path.map Prod.fst with
        | nil =>
            have h := inv.outermost (by simp [htrail])
            rw [htrail, hrest] at h
            exact Or.inl (Option.some.inj h)
        | cons outer rest =>
            rw [hrest] at hchain
            refine Or.inr ⟨outer, (List.isChain_cons_cons.mp hchain).1, Or.inr ?_⟩
            simp [trail, hrest]
    | cons x before =>
        obtain ⟨rfl, hfin⟩ := List.cons.inj h
        rcases inv.follows before n after hfin with h | ⟨p, hpn, h | h⟩
        · exact Or.inl h
        · exact Or.inr ⟨p, hpn, Or.inl (List.mem_cons_of_mem _ h)⟩
        · rw [htrail] at h
          rcases List.mem_cons.mp h with rfl | h
          · exact Or.inr ⟨p, hpn, Or.inl List.mem_cons_self⟩
          · exact Or.inr ⟨p, hpn, Or.inr h⟩

/-- Passing over a successor that was visited before. -/
theorem Search.Inv.skip {b : Body} {entry node next : NodeId} {rest : List NodeId} {s : Search}
    {path : List (NodeId × List NodeId)} (inv : s.Inv b entry)
    (hp : s.path = (node, next :: rest) :: path) (hv : next ∈ s.visited) :
    Search.Inv b entry { s with path := (node, rest) :: path } := by
  have htrail : Search.trail { s with path := (node, rest) :: path } = s.trail := by
    simp [trail, hp]
  refine ⟨?_, ?_, inv.reached, ?_, ?_, inv.closed, ?_, ?_, ?_, inv.entry_visited⟩
  · intro n
    rw [htrail]
    exact inv.visited_iff n
  · rw [htrail]
    exact inv.nodup
  · intro f hf n hn
    rcases List.mem_cons.mp hf with rfl | hf
    · exact inv.pending (node, next :: rest) (hp ▸ List.mem_cons_self) n
        (List.mem_cons_of_mem _ hn)
    · exact inv.pending f (hp ▸ List.mem_cons_of_mem _ hf) n hn
  · intro f hf n hn
    rcases List.mem_cons.mp hf with rfl | hf
    · rcases inv.tried (node, next :: rest) (hp ▸ List.mem_cons_self) n hn with h | h
      · rcases List.mem_cons.mp h with rfl | h
        · exact Or.inr hv
        · exact Or.inl h
      · exact Or.inr h
    · exact inv.tried f (hp ▸ List.mem_cons_of_mem _ hf) n hn
  · rw [htrail]
    exact inv.chain
  · rw [htrail]
    exact inv.outermost
  · rw [htrail]
    exact inv.follows

/-- Going on to a successor that was not visited. -/
theorem Search.Inv.visit {b : Body} {entry node next : NodeId} {rest : List NodeId} {s : Search}
    {path : List (NodeId × List NodeId)} (inv : s.Inv b entry)
    (hp : s.path = (node, next :: rest) :: path) (hv : next ∉ s.visited) :
    Search.Inv b entry
      { s with
        visited := next :: s.visited
        path := (next, b.successors next) :: (node, rest) :: path } := by
  have htrail : s.trail = node :: path.map Prod.fst := by simp [trail, hp]
  have htrail' : Search.trail
      { s with
        visited := next :: s.visited
        path := (next, b.successors next) :: (node, rest) :: path } = next :: s.trail := by
    simp [trail, hp]
  have hedge : b.Edge node next :=
    inv.pending (node, next :: rest) (hp ▸ List.mem_cons_self) next List.mem_cons_self
  have hnode : node ∈ s.visited := (inv.visited_iff node).mpr (Or.inr (by simp [htrail]))
  refine ⟨?_, ?_, ?_, ?_, ?_, ?_, ?_, ?_, ?_, List.mem_cons_of_mem _ inv.entry_visited⟩
  · intro n
    rw [htrail', List.mem_cons, List.mem_cons, inv.visited_iff]
    tauto
  · rw [htrail']
    refine (List.perm_middle.nodup_iff).mpr (List.nodup_cons.mpr ⟨?_, inv.nodup⟩)
    intro h
    exact hv ((inv.visited_iff next).mpr (List.mem_append.mp h))
  · intro n hn
    rcases List.mem_cons.mp hn with rfl | hn
    · exact (inv.reached node hnode).tail hedge
    · exact inv.reached n hn
  · intro f hf n hn
    rcases List.mem_cons.mp hf with rfl | hf
    · exact hn
    · rcases List.mem_cons.mp hf with rfl | hf
      · exact inv.pending (node, next :: rest) (hp ▸ List.mem_cons_self) n
          (List.mem_cons_of_mem _ hn)
      · exact inv.pending f (hp ▸ List.mem_cons_of_mem _ hf) n hn
  · intro f hf n hn
    rcases List.mem_cons.mp hf with rfl | hf
    · exact Or.inl hn
    · rcases List.mem_cons.mp hf with rfl | hf
      · rcases inv.tried (node, next :: rest) (hp ▸ List.mem_cons_self) n hn with h | h
        · rcases List.mem_cons.mp h with rfl | h
          · exact Or.inr List.mem_cons_self
          · exact Or.inl h
        · exact Or.inr (List.mem_cons_of_mem _ h)
      · rcases inv.tried f (hp ▸ List.mem_cons_of_mem _ hf) n hn with h | h
        · exact Or.inl h
        · exact Or.inr (List.mem_cons_of_mem _ h)
  · intro m hm n hn
    exact List.mem_cons_of_mem _ (inv.closed m hm n hn)
  · rw [htrail', htrail]
    exact List.isChain_cons_cons.mpr ⟨hedge, htrail ▸ inv.chain⟩
  · intro _
    rw [htrail', htrail, List.getLast?_cons_cons, ← htrail]
    exact inv.outermost (by simp [htrail])
  · intro before n after h
    rcases inv.follows before n after h with h | ⟨p, hpn, h | h⟩
    · exact Or.inl h
    · exact Or.inr ⟨p, hpn, Or.inl h⟩
    · exact Or.inr ⟨p, hpn, Or.inr (htrail' ▸ List.mem_cons_of_mem _ h)⟩

theorem Search.Inv.step {b : Body} {entry : NodeId} {s : Search} (inv : s.Inv b entry) :
    (s.step b).Inv b entry := by
  unfold Search.step
  split
  · exact inv
  · exact inv.finish ‹_›
  · split
    · exact inv.skip ‹_› (List.contains_iff_mem.mp ‹_›)
    · exact inv.visit ‹_› (fun h => ‹¬_› (List.contains_iff_mem.mpr h))

/-! ## The search ends -/

/-- What is left to do: three steps for every node not met, and for each node of the path one
step for every successor still to be tried and one to leave it. -/
def Search.work (b : Body) (entry : NodeId) (s : Search) : Nat :=
  3 * ((b.candidates entry).length - (s.finished ++ s.trail).length) +
    (s.path.map fun f => f.2.length + 1).sum

/-- Everything the search met is a candidate, and met once. -/
theorem Search.Inv.length_le {b : Body} {entry : NodeId} {s : Search} (inv : s.Inv b entry) :
    (s.finished ++ s.trail).length ≤ (b.candidates entry).length := by
  refine (List.subperm_of_subset inv.nodup fun n hn => ?_).length_le
  have hreach := inv.reached n ((inv.visited_iff n).mpr (List.mem_append.mp hn))
  rcases Relation.ReflTransGen.cases_tail hreach with rfl | ⟨m, -, hmn⟩
  · exact List.mem_cons_self
  · exact hmn.mem_candidates

theorem length_successors_of (b : Body) (n : NodeId) : (b.successors n).length ≤ 2 := by
  unfold successors
  split
  · exact length_successors_le _
  · simp

theorem Search.Inv.work_step {b : Body} {entry : NodeId} {s : Search} (inv : s.Inv b entry)
    (hp : s.path ≠ []) : (s.step b).work b entry < s.work b entry := by
  have hle := inv.step.length_le
  revert hle
  unfold Search.step
  split
  · exact absurd ‹_› hp
  · rename_i node path hpath
    intro hle
    simp only [work, trail, hpath, List.map_cons, List.sum_cons, List.length_append,
      List.length_cons, List.length_map] at hle ⊢
    omega
  · rename_i node next rest path hpath
    have hlen := length_successors_of b next
    split
    · intro hle
      simp only [work, trail, hpath, List.map_cons, List.sum_cons, List.length_append,
        List.length_cons, List.length_map] at hle ⊢
      omega
    · intro hle
      simp only [work, trail, hpath, List.map_cons, List.sum_cons, List.length_append,
        List.length_cons, List.length_map] at hle ⊢
      omega

theorem Search.inv_run {b : Body} {entry : NodeId} (fuel : Nat) {s : Search}
    (inv : s.Inv b entry) (hfuel : s.work b entry ≤ fuel) :
    (s.run b fuel).Inv b entry ∧ (s.run b fuel).path = [] := by
  induction fuel generalizing s with
  | zero =>
      refine ⟨inv, ?_⟩
      cases hp : s.path with
      | nil => exact hp
      | cons f path => simp [work, hp] at hfuel
  | succ fuel ih =>
      unfold Search.run
      split
      · exact ⟨inv, List.isEmpty_iff.mp ‹_›⟩
      · have hne : s.path ≠ [] := fun h => ‹¬_› (List.isEmpty_iff.mpr h)
        have := inv.work_step hne
        exact ih inv.step (by omega)

/-- The end of the search that `reversePostorder` runs. -/
theorem search_end (b : Body) (entry : NodeId) :
    ((Search.init b entry).run b b.searchFuel).Inv b entry ∧
      ((Search.init b entry).run b b.searchFuel).path = [] := by
  refine Search.inv_run _ (Search.inv_init b entry) ?_
  have h₁ := length_candidates_le b entry
  have h₂ := length_successors_of b entry
  simp only [Search.work, Search.init, Search.trail, searchFuel, List.nil_append, List.map_cons,
    List.map_nil, List.length_cons, List.length_nil, List.sum_cons, List.sum_nil]
  omega

/-! ## Reverse postorder -/

theorem reversePostorder_of_entry {b : Body} {entry : NodeId} (h : b.entry = some entry) :
    b.reversePostorder = ((Search.init b entry).run b b.searchFuel).finished := by
  simp only [reversePostorder, h, Search.init]

theorem reversePostorder_nodup (b : Body) : b.reversePostorder.Nodup := by
  cases h : b.entry with
  | none => simp [reversePostorder, h]
  | some entry =>
      rw [reversePostorder_of_entry h]
      exact (List.nodup_append.mp (search_end b entry).1.nodup).1

/-- The order lists the reachable nodes. -/
theorem mem_reversePostorder {b : Body} {n : NodeId} :
    n ∈ b.reversePostorder ↔ b.Reachable n := by
  cases h : b.entry with
  | none => simp [reversePostorder, Reachable, h]
  | some entry =>
      rw [reversePostorder_of_entry h]
      obtain ⟨inv, hpath⟩ := search_end b entry
      generalize (Search.init b entry).run b b.searchFuel = s at inv hpath ⊢
      have hvisited : ∀ m, m ∈ s.visited ↔ m ∈ s.finished := fun m => by
        rw [inv.visited_iff, Search.trail, hpath]
        simp
      constructor
      · intro hn
        exact ⟨entry, h, inv.reached n ((hvisited n).mpr hn)⟩
      · rintro ⟨e, he, hreach⟩
        obtain rfl : entry = e := Option.some.inj (h.symm.trans he)
        induction hreach with
        | refl => exact (hvisited _).mp inv.entry_visited
        | tail _ hedge ih => exact (hvisited _).mp (inv.closed _ ih _ hedge)

instance decidableReachable (b : Body) (n : NodeId) : Decidable (b.Reachable n) :=
  decidable_of_iff _ mem_reversePostorder

/-- Every node of the order but the entry comes after one of its predecessors. -/
theorem exists_earlier_of_reversePostorder {b : Body} {before after : List NodeId} {n : NodeId}
    (h : b.reversePostorder = before ++ n :: after) :
    b.entry = some n ∨ ∃ p ∈ before, b.Edge p n := by
  cases hentry : b.entry with
  | none => simp [reversePostorder, hentry] at h
  | some entry =>
      rw [reversePostorder_of_entry hentry] at h
      obtain ⟨inv, hpath⟩ := search_end b entry
      rcases inv.follows before n after h with rfl | ⟨p, hedge, hp | hp⟩
      · exact Or.inl rfl
      · exact Or.inr ⟨p, hp, hedge⟩
      · rw [Search.trail, hpath] at hp
        exact absurd hp List.not_mem_nil

/-! ## Predecessors -/

/-- Every node carries its own position. -/
def Numbered (b : Body) : Prop := ∀ id node, b.node? id = some node → node.id = id

/-- Leaving out what is there already keeps the members and adds none twice. -/
theorem foldl_addNew (ps acc : List NodeId) (hacc : acc.Nodup) :
    (ps.foldl (fun ids p => if ids.contains p then ids else ids ++ [p]) acc).Nodup ∧
      ∀ p, p ∈ ps.foldl (fun ids p => if ids.contains p then ids else ids ++ [p]) acc ↔
        p ∈ acc ∨ p ∈ ps := by
  induction ps generalizing acc with
  | nil => exact ⟨hacc, fun p => by simp⟩
  | cons q rest ih =>
      rw [List.foldl_cons]
      split
      · have hq : q ∈ acc := List.contains_iff_mem.mp ‹_›
        obtain ⟨h₁, h₂⟩ := ih acc hacc
        refine ⟨h₁, fun p => ?_⟩
        rw [h₂, List.mem_cons]
        constructor
        · tauto
        · rintro (h | rfl | h)
          · exact Or.inl h
          · exact Or.inl hq
          · exact Or.inr h
      · have hq : q ∉ acc := fun h => ‹¬_› (List.contains_iff_mem.mpr h)
        have hnodup : (acc ++ [q]).Nodup := by
          rw [List.nodup_append]
          refine ⟨hacc, List.pairwise_singleton _ q, ?_⟩
          intro x hx y hy
          rw [List.mem_singleton.mp hy]
          exact fun h => hq (h ▸ hx)
        obtain ⟨h₁, h₂⟩ := ih (acc ++ [q]) hnodup
        refine ⟨h₁, fun p => ?_⟩
        rw [h₂, List.mem_append, List.mem_singleton, List.mem_cons]
        tauto

theorem predecessorsOf_nodup (b : Body) (n : NodeId) : (b.predecessorsOf n).Nodup :=
  (foldl_addNew _ [] List.nodup_nil).1

theorem mem_predecessorsOf {b : Body} (hb : b.Numbered) {p n : NodeId} :
    p ∈ b.predecessorsOf n ↔ b.Edge p n := by
  rw [predecessorsOf, (foldl_addNew _ [] List.nodup_nil).2]
  simp only [List.not_mem_nil, false_or, List.mem_map, List.mem_filter, List.contains_iff_mem]
  constructor
  · rintro ⟨node, ⟨hnode, hn⟩, rfl⟩
    obtain ⟨i, hi⟩ := List.getElem?_of_mem hnode
    have hnode? : b.node? ⟨i⟩ = some node := by rw [node?, ← hi, Array.getElem?_toList]
    rw [hb ⟨i⟩ node hnode?]
    simpa only [Edge, successors, hnode?] using hn
  · intro h
    obtain ⟨node, hnode, hn⟩ := h.exists_node
    exact ⟨node, ⟨(Array.mem_of_getElem? hnode).val, hn⟩, hb p node hnode⟩

/-- The reachable nodes that lead to a node, in order of position. -/
def reachablePredecessors (b : Body) (n : NodeId) : List NodeId :=
  (b.predecessorsOf n).filter fun p => b.Reachable p

/-! ## Bodies with the same flow of control -/

/-- The nodes have the same numbers and lead to the same nodes. -/
structure SameFlow (b b' : Body) : Prop where
  entry : b'.entry = b.entry
  nodes : ∀ n, (b'.node? n).map (fun node => (node.id, node.successors)) =
    (b.node? n).map fun node => (node.id, node.successors)

namespace SameFlow

variable {b b' : Body}

theorem successors (h : SameFlow b b') (n : NodeId) : b'.successors n = b.successors n := by
  have hn := h.nodes n
  unfold Body.successors
  cases hb : b.node? n with
  | none =>
      rw [hb, Option.map_none, Option.map_eq_none_iff] at hn
      rw [hn]
  | some node =>
      rw [hb, Option.map_some] at hn
      obtain ⟨node', hb', he⟩ := Option.map_eq_some_iff.mp hn
      rw [hb']
      exact (Prod.mk.inj he).2

theorem edge (h : SameFlow b b') : b'.Edge = b.Edge := by
  funext m n
  rw [Edge, h.successors, Edge]

theorem reachable (h : SameFlow b b') (n : NodeId) : b'.Reachable n ↔ b.Reachable n := by
  rw [Reachable, Reachable, h.entry, h.edge]

theorem predecessorsOf (h : SameFlow b b') (n : NodeId) :
    b'.predecessorsOf n = b.predecessorsOf n := by
  have hnodes : b'.nodes.toList.map (fun node => (node.id, node.successors)) =
      b.nodes.toList.map fun node => (node.id, node.successors) := by
    refine List.ext_getElem? fun i => ?_
    simpa [node?] using h.nodes ⟨i⟩
  -- predecessors are computed from the numbers and the successors
  have hview : ∀ nodes : List Node,
      (nodes.filter fun node => node.successors.contains n).map (·.id) =
        ((nodes.map fun node => (node.id, node.successors)).filter fun p => p.2.contains n).map
          Prod.fst := by
    intro nodes
    simp [List.filter_map, Function.comp_def]
  rw [Body.predecessorsOf, Body.predecessorsOf, hview, hnodes, ← hview]

theorem reachablePredecessors (h : SameFlow b b') (n : NodeId) :
    b'.reachablePredecessors n = b.reachablePredecessors n := by
  simp only [Body.reachablePredecessors, h.predecessorsOf, h.reachable]

end SameFlow

end ContractCalls.Body
