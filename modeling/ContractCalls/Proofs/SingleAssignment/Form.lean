/-
# Single-assignment form

What a converted body looks like: no version is written twice, versions on
entry are never written, and a phi stands where at least two reachable nodes
lead to, with one incoming version of its variable for each of them.  All of
this is read off the invariant in the state the conversion ends in, once every
reachable node is filled and no phi waits any more.

`Unconverted`, under which all of this holds, can be decided.
-/
import ContractCalls.Proofs.SingleAssignment.Renaming

namespace ContractCalls

/-! ## Deciding what is asked of a body -/

namespace Arena

/-- A slot of a coherent arena. -/
def isCoherentSlot (a : Arena) (id : OperandId) (slot : Slot) : Bool :=
  (match slot.operand.kind with
    | .reference _ (some target) => target.index < a.size
    | _ => true) &&
  slot.variant.all (fun v => a.link? v = some (.variant id)) &&
  slot.entryVersion.all fun v => a.link? v = some (.version id 0)

theorem coherent_iff (a : Arena) :
    a.Coherent ↔ ∀ i : Fin a.slots.size, a.isCoherentSlot ⟨i⟩ a.slots[i] = true := by
  have hslot : ∀ i : Fin a.slots.size, a.slots[i.val]? = some a.slots[i] := fun i =>
    Array.getElem?_eq_getElem i.isLt
  constructor
  · intro h i
    simp only [isCoherentSlot, Bool.and_eq_true]
    refine ⟨⟨?_, ?_⟩, ?_⟩
    · split
      · rename_i index target hk
        have hget : a.get? ⟨i.val⟩ = some a.slots[i].operand := by rw [get?, hslot]; rfl
        exact decide_eq_true (h.bound hget hk)
      · rfl
    · refine (Option.all_eq_true _ _).mpr fun v hv => decide_eq_true (h.variant ?_)
      rw [variant?, hslot]
      exact hv
    · refine (Option.all_eq_true _ _).mpr fun v hv => decide_eq_true (h.entryVersion ?_)
      rw [entryVersion?, hslot]
      exact hv
  · intro h
    have hall : ∀ {id : OperandId} {slot}, a.slots[id.index]? = some slot →
        a.isCoherentSlot id slot = true := by
      intro id slot hs
      obtain ⟨hlt, rfl⟩ := Array.getElem?_eq_some_iff.mp hs
      exact h ⟨id.index, hlt⟩
    refine ⟨?_, ?_, ?_⟩
    · intro id o index target ho hk
      obtain ⟨slot, hs, rfl⟩ := Option.map_eq_some_iff.mp ho
      have := hall hs
      simp only [isCoherentSlot, hk, Bool.and_eq_true, decide_eq_true_eq] at this
      exact this.1.1
    · intro id v hv
      obtain ⟨slot, hs, hv⟩ := Option.bind_eq_some_iff.mp hv
      have := hall hs
      simp only [isCoherentSlot, Bool.and_eq_true] at this
      exact of_decide_eq_true ((Option.all_eq_true _ _).mp this.1.2 v hv)
    · intro id v hv
      obtain ⟨slot, hs, hv⟩ := Option.bind_eq_some_iff.mp hv
      have := hall hs
      simp only [isCoherentSlot, Bool.and_eq_true] at this
      exact of_decide_eq_true ((Option.all_eq_true _ _).mp this.2 v hv)

instance decidableCoherent (a : Arena) : Decidable a.Coherent :=
  decidable_of_iff _ (coherent_iff a).symm

end Arena

namespace Body

open Renaming

/-- A node of an unconverted body. -/
def isUnconvertedNode (b : Body) (id : NodeId) (node : Node) : Bool :=
  node.id = id && node.phis.isEmpty &&
  node.operands.all fun id => (b.arena.get? id).any (·.ssa.isNone)

theorem unconverted_iff (b : Body) :
    b.Unconverted ↔ b.isSsa = false ∧ b.arena.Coherent ∧
      (∀ i : Fin b.nodes.size, b.isUnconvertedNode ⟨i⟩ b.nodes[i] = true) ∧
      ∀ p ∈ b.reversePostorder, ∀ e ∈ b.entry, e ∉ b.successors p := by
  constructor
  · intro h
    refine ⟨h.isSsa, h.coherent, fun i => ?_, fun p hp e he => h.entry he (mem_reversePostorder.mp hp)⟩
    have hnode : b.node? ⟨i⟩ = some b.nodes[i] := Array.getElem?_eq_getElem i.isLt
    simp only [isUnconvertedNode, Bool.and_eq_true, decide_eq_true_eq, List.isEmpty_iff,
      List.all_eq_true]
    refine ⟨⟨h.numbered _ _ hnode, h.phis hnode⟩, fun id hid => ?_⟩
    obtain ⟨o, ho, hs⟩ := h.uses hnode id hid
    simp [ho, hs]
  · rintro ⟨hssa, hcoherent, hnodes, hentry⟩
    have hall : ∀ {n node}, b.node? n = some node → b.isUnconvertedNode n node = true := by
      intro n node hn
      obtain ⟨hlt, rfl⟩ := Array.getElem?_eq_some_iff.mp hn
      exact hnodes ⟨n.index, hlt⟩
    simp only [isUnconvertedNode, Bool.and_eq_true, decide_eq_true_eq, List.isEmpty_iff,
      List.all_eq_true, Option.any_eq_true, Option.isNone_iff_eq_none] at hall
    exact
      { isSsa := hssa
        numbered := fun _ _ hn => (hall hn).1.1
        phis := fun hn => (hall hn).1.2
        coherent := hcoherent
        uses := fun hn id hid => (hall hn).2 id hid
        entry := fun he hp => hentry _ (mem_reversePostorder.mpr hp) _ he }

instance decidableUnconverted (b : Body) : Decidable b.Unconverted :=
  decidable_of_iff _ (unconverted_iff b).symm

/-! ## The form -/

/-- The body is in single-assignment form. -/
structure SingleAssignment (b : Body) : Prop where
  /-- A version is written in at most one place. -/
  once : ∀ {s s' w base k}, b.arena.link? w = some (.version base k) → b.Writes s w →
    b.Writes s' w → s = s'
  /-- Versions on entry are not written. -/
  entry : ∀ {s w base}, b.arena.link? w = some (.version base 0) → ¬ b.Writes s w
  /-- A phi has one incoming value for each reachable predecessor, in their order. -/
  incoming : ∀ {n node φ}, b.node? n = some node → φ ∈ node.phis →
    φ.incoming.map Prod.fst = b.reachablePredecessors n ∧ (φ.incoming.map Prod.fst).Nodup
  /-- A phi writes a version of its variable, and all that comes in are versions of it. -/
  versions : ∀ {n node φ}, b.node? n = some node → φ ∈ node.phis →
    ∀ w ∈ φ.lvalue :: φ.incoming.map Prod.snd, ∃ k, b.arena.link? w = some (.version φ.base k)
  /-- A phi stands where at least two reachable nodes lead to. -/
  joins : ∀ {n node φ}, b.node? n = some node → φ ∈ node.phis →
    2 ≤ (b.reachablePredecessors n).length

section Converted

variable {b : Body} {r : Renaming}

/-- Renaming does not change where control goes. -/
theorem Converted.sameFlow (h : Converted b r) : SameFlow b { r.body with isSsa := true } where
  entry := h.inv.base.entry
  nodes n := by
    have hcode : (r.body.node? n).map (fun node => (node.id, node.successors)) =
        (r.code? n).map fun node => (node.id, node.successors) := by
      simp [code?, Option.map_map, Function.comp_def, Node.successors]
    refine hcode.trans ?_
    by_cases hn : Active none r n
    · have hfilled := h.inv.base.filled n (hn.resolve_right (by simp))
      cases hnode : b.node? n with
      | none =>
          have : ¬ r.code? n ≠ none := fun hc => (h.inv.base.node?_iff.mp hc) hnode
          rw [not_not.mp this]
      | some node =>
          obtain ⟨ops, cur, f, hc, -⟩ := hfilled node hnode
          simp [hc, Node.successors]
    · rw [(h.inv.base.untouched hn).1]

theorem Converted.predsOf (h : Converted b r) {n : NodeId} (hn : r.body.node? n ≠ none) :
    r.predsOf n = b.reachablePredecessors n := by
  have hlt : n.index < b.nodes.size := by
    rw [← h.inv.base.size]
    simpa [node?] using hn
  rw [h.inv.base.predsOf_eq, predsOf_start, if_pos hlt, Body.reachablePredecessors]
  refine List.filter_congr fun p _ => ?_
  rw [Bool.eq_iff_iff, List.contains_iff_mem, mem_reversePostorder, decide_eq_true_iff]

theorem writesAt_of_writes {s : Site} {w : OperandId} (h : r.body.Writes s w) :
    r.WritesAt none [] s w := by
  cases s with
  | phi n i =>
      obtain ⟨node, φ, hn, hφ, hw⟩ := h
      exact ⟨φ, by simp [phi?, hn, hφ], hw⟩
  | operation n i =>
      obtain ⟨node, op, hn, hop, hw⟩ := h
      exact ⟨op, by simp [opsAt, code?, hn, hop], hw⟩

/-- What an operation of a conversion writes is there. -/
theorem Converted.known_lvalue (h : Converted b r) {n : NodeId} {node : Node}
    (hnode : r.body.node? n = some node) {op : Operation} (hop : op ∈ node.operations)
    {w : OperandId} (hw : op.lvalue? = some w) : r.arena.Known w := by
  obtain ⟨i, hi⟩ := List.getElem?_of_mem hop
  have hwrites : r.body.Writes (.operation n i) w := ⟨node, op, hnode, hi, hw⟩
  exact h.inv.sites.known (writesAt_of_writes hwrites)

theorem Converted.singleAssignment (h : Converted b r) :
    SingleAssignment { r.body with isSsa := true } := by
  have hphi : ∀ {n node φ}, r.body.node? n = some node → φ ∈ node.phis →
      ∃ i, r.phi? n i = some φ := by
    intro n node φ hn hφ
    obtain ⟨i, hi⟩ := List.getElem?_of_mem hφ
    exact ⟨i, by simp [phi?, hn, hi]⟩
  have hpreds : ∀ {n node}, r.body.node? n = some node →
      r.predsOf n = Body.reachablePredecessors { r.body with isSsa := true } n := fun hn =>
    (h.predsOf (by simp [hn])).trans (h.sameFlow.reachablePredecessors _).symm
  have hwrites : ∀ {s w}, Body.Writes { r.body with isSsa := true } s w → r.WritesAt none [] s w :=
    fun {s w} hw => writesAt_of_writes (by cases s <;> exact hw)
  refine ⟨?_, ?_, ?_, ?_, ?_⟩
  · intro s s' w base k hl hs hs'
    exact h.inv.sites.once (hwrites hs) (hwrites hs') hl
  · intro s w base hl hs
    exact h.inv.sites.entry (hwrites hs) hl
  · intro n node φ hn hφ
    obtain ⟨i, hi⟩ := hphi hn hφ
    rw [(h.complete hi).preds]
    exact ⟨hpreds hn, h.inv.base.predsOf_nodup n⟩
  · intro n node φ hn hφ w hw
    obtain ⟨i, hi⟩ := hphi hn hφ
    rcases List.mem_cons.mp hw with rfl | hw
    · obtain ⟨k, hk⟩ := h.inv.merges.version hi
      exact ⟨k + 1, hk⟩
    · obtain ⟨p, hp, rfl⟩ := List.mem_map.mp hw
      exact (h.inv.base.value ((h.complete hi).values p hp).2).2
  · intro n node φ hn hφ
    obtain ⟨i, hi⟩ := hphi hn hφ
    rw [← hpreds hn]
    exact h.inv.merges.joins hi

end Converted

/-- The conversion of a body succeeds and gives single-assignment form. -/
theorem toSsa_singleAssignment {b : Body} (hb : b.Unconverted) :
    ∃ b', b.toSsa = (.ok (), b') ∧ b'.SingleAssignment := by
  obtain ⟨r, hr, h⟩ := toSsa_spec hb
  exact ⟨_, hr, h.singleAssignment⟩

/-- A loop that counts a parameter down. -/
def countdown : Body where
  arena :=
    let number : Ty := .elementary "uint256"
    { slots := #[⟨⟨.localVar "x", number, none⟩, none, none, 0⟩,
        ⟨⟨.constant (.uint 1), number, none⟩, none, none, 0⟩,
        ⟨⟨.temporary 0, number, none⟩, none, none, 0⟩]
      references := 0 }
  nodes := #[⟨⟨0⟩, [], [], .goto ⟨1⟩, none⟩,
    ⟨⟨1⟩, [], [], .branch ⟨0⟩ ⟨2⟩ ⟨3⟩, none⟩,
    ⟨⟨2⟩, [], [.call (.positional [⟨0⟩, ⟨1⟩]) (some ⟨2⟩) (.intrinsic (.binary "-")),
      .assignment ⟨0⟩ ⟨2⟩ (.elementary "uint256")], .goto ⟨1⟩, none⟩,
    ⟨⟨3⟩, [], [], .ret [⟨0⟩], none⟩]
  entry := some ⟨0⟩
  parameters := [⟨0⟩]
  returns := []
  isSsa := false

/-- The loop is unconverted, and its conversion is in single-assignment form. -/
theorem countdown_singleAssignment :
    countdown.Unconverted ∧ ∃ b', countdown.toSsa = (.ok (), b') ∧ b'.SingleAssignment :=
  ⟨by decide, toSsa_singleAssignment (by decide)⟩

end Body

end ContractCalls
