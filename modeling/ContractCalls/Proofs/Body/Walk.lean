/-
# The operations read along paths

A path from the entry is read node by node.  It may end where its last node
returns or reverts, and it may be cut anywhere, so that a loop without an end
is known by all it does in finite time.

`Reads` says so with whole paths.  To compare bodies with programs, `Walk` goes
the same way one operation and one edge at a time, from any place inside a
node, and counts its moves: the count is what a proof about loops goes down on.
-/
import ContractCalls.Proofs.Body.Execution
import Mathlib.Data.List.Chain

namespace ContractCalls

/-- How the reading of a path ends. -/
inductive Ending where
  | returned (values : List OperandId)
  | reverted
  /-- Not at an end of the execution. -/
  | cut

/-- The terminator a path ends at; a path may be cut before any. -/
def Ending.terminator? : Ending → Option Terminator
  | .returned values => some (.ret values)
  | .reverted => some .revert
  | .cut => none

theorem Ending.eq_cut {e : Ending} (h : e.terminator? = none) : e = .cut := by
  cases e with
  | returned values => cases h
  | reverted => cases h
  | cut => rfl

theorem Ending.terminator?_inj {e e' : Ending} {t : Terminator} (h : e.terminator? = some t)
    (h' : e'.terminator? = some t) : e = e' := by
  cases e <;> cases h <;> cases e' <;> cases h' <;> rfl

/-- An execution does not end where control goes on. -/
theorem Ending.terminator?_ne {e : Ending} {t : Terminator} {n : NodeId} (h : n ∈ t.successors) :
    e.terminator? ≠ some t := by
  intro he
  cases e <;> cases he <;> cases h

theorem Terminator.mem_successors_branch {condition : OperandId} {yes no n : NodeId} :
    n ∈ (branch condition yes no).successors ↔ n = yes ∨ n = no := by
  simp only [successors]
  split
  · next h => simp [h]
  · simp

namespace Body

variable {b : Body}

/-- The operations of a node; none if it does not exist. -/
def operationsOf (b : Body) (n : NodeId) : List Operation :=
  ((b.node? n).map (·.operations)).getD []

/-- The operations along a path. -/
def operationsAlong (b : Body) (path : List NodeId) : List Operation :=
  path.flatMap b.operationsOf

/-- The node has so many operations, and that terminator behind them. -/
def Ends (b : Body) (n : NodeId) (count : Nat) (t : Terminator) : Prop :=
  ∃ node, b.node? n = some node ∧ node.operations.length = count ∧ node.terminator = t

/-- What is read along a path that ends that way. -/
def ReadsAlong (b : Body) (path : List NodeId) (l : List Operation) (ending : Ending) : Prop :=
  match ending.terminator? with
  | some t => l = b.operationsAlong path ∧ ∃ n count, path.getLast? = some n ∧ b.Ends n count t
  | none => l <+: b.operationsAlong path

/-- What is read along some path from the entry that ends that way. -/
def Reads (b : Body) (l : List Operation) (ending : Ending) : Prop :=
  ∃ path, b.IsPath path ∧ b.ReadsAlong path l ending

theorem operationsAlong_cons (n : NodeId) (path : List NodeId) :
    b.operationsAlong (n :: path) = b.operationsOf n ++ b.operationsAlong path :=
  List.flatMap_cons

theorem operationsOf_eq {n : NodeId} {node : Node} (h : b.node? n = some node) :
    b.operationsOf n = node.operations := by rw [operationsOf, h]; rfl

theorem Ends.length {n : NodeId} {count : Nat} {t : Terminator} (h : b.Ends n count t) :
    (b.operationsOf n).length = count := by
  obtain ⟨node, hnode, hcount, -⟩ := h
  rw [operationsOf_eq hnode, hcount]

/-- A path that goes through one more node first. -/
theorem ReadsAlong.cons {n : NodeId} {path : List NodeId} {l : List Operation} {ending : Ending}
    (h : b.ReadsAlong path l ending) :
    b.ReadsAlong (n :: path) (b.operationsOf n ++ l) ending := by
  unfold ReadsAlong at h ⊢
  rw [operationsAlong_cons]
  cases ht : ending.terminator? with
  | none =>
      rw [ht] at h
      exact (List.prefix_append_right_inj _).mpr h
  | some t =>
      rw [ht] at h
      obtain ⟨rfl, last, count, hlast, hends⟩ := h
      refine ⟨rfl, last, count, ?_, hends⟩
      rw [List.getLast?_cons, hlast]
      rfl

end Body

/-! ## Walks -/

/-- A place in a body: on the way into a node, or in it behind some of its operations. -/
inductive Place where
  | into (n : NodeId)
  | behind (n : NodeId) (count : Nat)

namespace Body

variable {b : Body}

/-- From the place, so many moves read these operations and end that way. -/
inductive Walk (b : Body) : Nat → Place → List Operation → Ending → Prop
  | cut (a : Place) : Walk b 0 a [] .cut
  | enter {N n l e} (rest : Walk b N (.behind n 0) l e) : Walk b (N + 1) (.into n) l e
  | operation {N n count op l e} (here : (b.operationsOf n)[count]? = some op)
      (rest : Walk b N (.behind n (count + 1)) l e) : Walk b (N + 1) (.behind n count) (op :: l) e
  | edge {N n count t m l e} (ends : b.Ends n count t) (next : m ∈ t.successors)
      (rest : Walk b N (.into m) l e) : Walk b (N + 1) (.behind n count) l e
  | stop {n count t e} (ends : b.Ends n count t) (ending : e.terminator? = some t) :
      Walk b 0 (.behind n count) [] e

/-- Nothing but the terminator lies behind the operations. -/
theorem Ends.no_operation {n : NodeId} {count : Nat} {t : Terminator} (h : b.Ends n count t) :
    (b.operationsOf n)[count]? = none :=
  List.getElem?_eq_none (Nat.le_of_eq h.length)

theorem Ends.unique {n : NodeId} {count other : Nat} {t t' : Terminator} (h : b.Ends n count t)
    (h' : b.Ends n other t') : t = t' := by
  obtain ⟨node, hnode, -, rfl⟩ := h
  obtain ⟨node', hnode', -, rfl⟩ := h'
  rw [hnode] at hnode'
  cases hnode'
  rfl

theorem Edge.of_ends {n m : NodeId} {count : Nat} {t : Terminator} (h : b.Ends n count t)
    (hm : m ∈ t.successors) : b.Edge n m := by
  obtain ⟨node, hnode, -, rfl⟩ := h
  rw [Edge, successors, hnode]
  exact hm

theorem Edge.exists_ends {n m : NodeId} (h : b.Edge n m) :
    ∃ t, b.Ends n (b.operationsOf n).length t ∧ m ∈ t.successors := by
  obtain ⟨node, hnode, hm⟩ := h.exists_node
  exact ⟨node.terminator, ⟨node, hnode, by rw [operationsOf_eq hnode], rfl⟩, hm⟩

/-- What a walk from the place reads lies along a path from the node, behind the operations that
are left out of the node. -/
def PathFrom (b : Body) (l : List Operation) (e : Ending) : Place → Prop
  | .into n => ∃ path, (n :: path).IsChain b.Edge ∧ b.ReadsAlong (n :: path) l e
  | .behind n count => ∃ path, (n :: path).IsChain b.Edge ∧
      b.ReadsAlong (n :: path) ((b.operationsOf n).take count ++ l) e

theorem Walk.pathFrom {N : Nat} {a : Place} {l : List Operation} {e : Ending}
    (h : b.Walk N a l e) : b.PathFrom l e a := by
  induction h with
  | cut a =>
      have hone (n : NodeId) (count : Nat) :
          b.ReadsAlong [n] ((b.operationsOf n).take count) .cut := by
        show _ <+: b.operationsAlong [n]
        rw [operationsAlong_cons]
        exact (List.take_prefix _ _).trans (List.prefix_append _ _)
      cases a with
      | into n => exact ⟨[], List.isChain_singleton n, by simpa using hone n 0⟩
      | behind n count => exact ⟨[], List.isChain_singleton n, by simpa using hone n count⟩
  | enter _ ih => exact ih
  | operation here _ ih =>
      obtain ⟨path, hchain, hreads⟩ := ih
      refine ⟨path, hchain, ?_⟩
      simpa [List.take_add_one, here] using hreads
  | edge ends next _ ih =>
      obtain ⟨path, hchain, hreads⟩ := ih
      refine ⟨_ :: path, hchain.cons_cons (.of_ends ends next), ?_⟩
      rw [List.take_of_length_le (Nat.le_of_eq ends.length)]
      exact hreads.cons
  | @stop n count t e ends ending =>
      refine ⟨[], List.isChain_singleton n, ?_⟩
      rw [List.take_of_length_le (Nat.le_of_eq ends.length), ReadsAlong, ending]
      exact ⟨by rw [operationsAlong_cons]; rfl, n, count, rfl, ends⟩

/-- Going over operations of a node. -/
theorem Walk.onto {n : NodeId} {e : Ending} {l ops : List Operation} :
    ∀ {count N : Nat}, ops <+: (b.operationsOf n).drop count →
      b.Walk N (.behind n (count + ops.length)) l e →
      b.Walk (N + ops.length) (.behind n count) (ops ++ l) e := by
  induction ops with
  | nil =>
      intro count N _ h
      exact h
  | cons op ops ih =>
      intro count N hops h
      obtain ⟨rest, hrest⟩ := hops
      have hdrop : (b.operationsOf n).drop (count + 1) = ops ++ rest := by
        rw [← List.drop_drop, ← hrest]
        rfl
      refine .operation ?_ (ih (hdrop ▸ List.prefix_append _ _) ?_)
      · rw [← List.head?_drop, ← hrest]
        rfl
      · rw [Nat.add_assoc, Nat.add_comm 1]
        exact h

/-- Going into a node and over its first operations. -/
theorem Walk.through {n : NodeId} {e : Ending} {l ops : List Operation} {N : Nat}
    (hops : ops <+: b.operationsOf n) (h : b.Walk N (.behind n ops.length) l e) :
    b.Walk (N + ops.length + 1) (.into n) (ops ++ l) e := by
  refine .enter (.onto hops ?_)
  rwa [Nat.zero_add]

/-- A path of two nodes or more is cut in its first node, or read on in the second. -/
theorem ReadsAlong.uncons {n m : NodeId} {path : List NodeId} {l : List Operation} {e : Ending}
    (h : b.ReadsAlong (n :: m :: path) l e) :
    (e = .cut ∧ l <+: b.operationsOf n) ∨
      ∃ l', l = b.operationsOf n ++ l' ∧ b.ReadsAlong (m :: path) l' e := by
  unfold ReadsAlong at h ⊢
  rw [operationsAlong_cons] at h
  cases ht : e.terminator? with
  | some t =>
      rw [ht] at h
      obtain ⟨rfl, last, count, hlast, hends⟩ := h
      exact .inr ⟨_, rfl, rfl, last, count, hlast, hends⟩
  | none =>
      rw [ht] at h
      rcases List.prefix_or_prefix_of_prefix h (List.prefix_append _ _) with hl | ⟨l', rfl⟩
      · exact .inl ⟨Ending.eq_cut ht, hl⟩
      · exact .inr ⟨l', rfl, (List.prefix_append_right_inj _).mp h⟩

theorem exists_walk_of_path {e : Ending} {path : List NodeId} :
    ∀ {n : NodeId}, (n :: path).IsChain b.Edge → ∀ {l}, b.ReadsAlong (n :: path) l e →
      ∃ N, b.Walk N (.into n) l e := by
  have hcut {n : NodeId} {l : List Operation} (h : l <+: b.operationsOf n) :
      ∃ N, b.Walk N (.into n) l .cut := ⟨_, by simpa using Walk.through h (.cut _)⟩
  induction path with
  | nil =>
      intro n _ l hreads
      unfold ReadsAlong at hreads
      rw [operationsAlong_cons] at hreads
      cases ht : e.terminator? with
      | none =>
          rw [ht] at hreads
          rw [Ending.eq_cut ht]
          exact hcut (by simpa [operationsAlong] using hreads)
      | some t =>
          rw [ht] at hreads
          obtain ⟨rfl, last, count, hlast, hends⟩ := hreads
          cases hlast
          exact ⟨_, .through (List.prefix_refl _) (.stop (hends.length ▸ hends) ht)⟩
  | cons m path ih =>
      intro n hchain l hreads
      obtain ⟨hedge, hchain⟩ := List.isChain_cons_cons.mp hchain
      rcases hreads.uncons with ⟨rfl, hl⟩ | ⟨l', rfl, hrest⟩
      · exact hcut hl
      · obtain ⟨t, hends, hm⟩ := hedge.exists_ends
        obtain ⟨N, hwalk⟩ := ih hchain hrest
        exact ⟨_, .through (List.prefix_refl _) (.edge hends hm hwalk)⟩

/-- What is read along paths from the entry is what walks into it read. -/
theorem reads_iff_walk {entry : NodeId} (hentry : b.entry = some entry) {l : List Operation}
    {e : Ending} : b.Reads l e ↔ ∃ N, b.Walk N (.into entry) l e := by
  constructor
  · rintro ⟨_, ⟨start, rest, hstart, rfl, hchain⟩, hreads⟩
    rw [hentry] at hstart
    cases hstart
    exact exists_walk_of_path hchain hreads
  · rintro ⟨N, hwalk⟩
    obtain ⟨path, hchain, hreads⟩ := hwalk.pathFrom
    exact ⟨entry :: path, ⟨entry, path, hentry, rfl, hchain⟩, hreads⟩

end Body

end ContractCalls
