/-
# References in a converted body

The form of a bound reference is bound when it is first written, to what stands
for the operand that the reference aliases.  So whatever a converted body binds
was bound in the body, up to what operands stand for, and a chain of references
in the converted body is one in the body.  In particular none closes, and the
analysis of dependencies can follow all of them.

This is about a body of which nothing was renamed before, a `Pristine` one;
every body that was lowered is.

    bindings are bindings of the body          (`Converted.pointsTo_origin`)
    so no chain of references closes           (`Converted.grounded`)
-/
import ContractCalls.Proofs.Body.Dependency
import ContractCalls.Proofs.SingleAssignment.Erasure

namespace ContractCalls.Body

open Renaming Relation

/-! ## Bodies of which nothing is renamed -/

/-- The body can be converted, unless it says that it is, its arena holds no renaming, no chain of
references closes, and every reference is counted. -/
structure Pristine (b : Body) : Prop where
  unconverted : ({ b with isSsa := false } : Body).Unconverted
  ssa : ∀ {id o}, b.arena.get? id = some o → o.ssa = none
  acyclic : ∀ id, ¬ TransGen b.arena.PointsTo id id
  counted : b.arena.Counted

namespace Pristine

variable {b : Body}

theorem grounded (hb : b.Pristine) : b.arena.Grounded where
  known := hb.unconverted.coherent.target
  acyclic := hb.acyclic
  counted := hb.counted

theorem of_isSsa (hb : b.Pristine) (hssa : b.isSsa = false) : b.Unconverted := by
  have h := hb.unconverted
  rwa [← hssa] at h

theorem link? (hb : b.Pristine) {id : OperandId} (hid : b.arena.Known id) :
    b.arena.link? id = none := by
  obtain ⟨o, ho⟩ := Arena.known_iff.mp hid
  rw [Arena.link?_of_get? ho, hb.ssa ho]

/-- What an operation writes is there. -/
theorem known_lvalue (hb : b.Pristine) {n : NodeId} {node : Node} (hnode : b.node? n = some node)
    {op : Operation} (hop : op ∈ node.operations) {l : OperandId} (hl : op.lvalue? = some l) :
    b.arena.Known l := by
  obtain ⟨o, ho, -⟩ := hb.unconverted.uses hnode l (Node.mem_operands_of_lvalue hop hl)
  exact Arena.known_of_get? ho

end Pristine

theorem WellFormed.pristine {b : Body} (h : b.WellFormed) : b.Pristine where
  unconverted := by
    rw [← h.isSsa]
    exact h.unconverted
  ssa := h.arena.ssa
  acyclic := h.arena.grounded.acyclic
  counted := h.arena.references

theorem pristine_iff (b : Body) :
    b.Pristine ↔ ({ b with isSsa := false } : Body).Unconverted ∧
      (∀ i : Fin b.arena.slots.size, b.arena.slots[i].operand.ssa = none) ∧
      (∀ i : Fin b.arena.size, ((b.arena.resolve ⟨i⟩).toOption.isSome = true)) ∧
      b.arena.referencesBelow b.arena.size ≤ b.arena.references := by
  constructor
  · intro h
    refine ⟨h.unconverted, fun i => ?_, fun i => ?_, h.counted⟩
    · have hget : b.arena.get? ⟨i⟩ = some b.arena.slots[i].operand := by simp [Arena.get?]
      exact h.ssa hget
    · have hknown : b.arena.Known ⟨i⟩ := i.isLt
      obtain ⟨t, ht, -⟩ := h.grounded.resolve hknown
      rw [ht]
      rfl
  · rintro ⟨hunconverted, hssa, hresolves, hcounted⟩
    refine ⟨hunconverted, fun {id o} ho => ?_, Arena.acyclic_of_resolve fun id hid => ?_, hcounted⟩
    · obtain ⟨s, hs, -, rfl⟩ := Arena.slot_of_get? ho
      obtain ⟨hlt, rfl⟩ := Array.getElem?_eq_some_iff.mp hs
      exact hssa ⟨id.index, hlt⟩
    · have := hresolves ⟨id.index, hid⟩
      cases hr : b.arena.resolve id with
      | ok t => exact ⟨t, rfl⟩
      | error e =>
          rw [show b.arena.resolve ⟨id.index⟩ = .error e from hr] at this
          cases this

instance decidablePristine (b : Body) : Decidable b.Pristine :=
  decidable_of_iff _ (pristine_iff b).symm

/-! ## The bindings of a conversion -/

section Conversion

variable {b : Body} {r : Renaming}

namespace Converted

/-- An operand of the body stands for itself. -/
theorem origin_eq_self (hb : b.Pristine) (h : Converted b r) {id : OperandId}
    (hid : b.arena.Known id) : origin r.arena id = id :=
  origin_of_link? ((h.inv.base.arena.link?_eq hid).trans (hb.link? hid))

/-- What stands for an operand of the body has it for its origin. -/
theorem origin_of_standsFor (hb : b.Pristine) (h : Converted b r) {id w : OperandId}
    (hid : b.arena.Known id) (hw : r.arena.StandsFor id w) : origin r.arena w = id := by
  cases hw with
  | version _ hl => exact origin_version hl
  | variant _ hw => exact origin_variant (h.inv.base.coherent.variant hw)
  | kept _ _ => exact h.origin_eq_self hb hid

/-- A binding was there in the body, or it is that of the form of a reference, bound to what stands
for the operand which the reference aliases. -/
theorem binding (h : Converted b r) {x t : OperandId} (hx : r.arena.PointsTo x t) :
    b.arena.PointsTo x t ∨ ∃ l target, r.arena.variant? l = some x ∧ b.arena.PointsTo l target ∧
      r.arena.StandsFor target t := by
  refine (h.inv.base.aliases hx).imp_right ?_
  rintro ⟨l, target, hl, hvariant, hbound, hstands⟩
  refine ⟨l, target, hvariant, (h.inv.base.aliases hbound).resolve_right ?_, hstands⟩
  -- the reference renames nothing, so it is no form of another
  rintro ⟨l', -, -, hvariant', -⟩
  obtain ⟨o, ho, -, hs⟩ := hl
  have hlink := h.inv.base.coherent.variant hvariant'
  rw [Arena.link?_of_get? ho, hs] at hlink
  cases hlink

/-- A binding of the conversion is one of the body, between the operands that are stood for. -/
theorem pointsTo_origin (hb : b.Pristine) (h : Converted b r) {x t : OperandId}
    (hx : r.arena.PointsTo x t) :
    b.arena.PointsTo (origin r.arena x) (origin r.arena t) := by
  rcases h.binding hx with hold | ⟨l, target, hvariant, hbound, hstands⟩
  · rwa [h.origin_eq_self hb hold.known, h.origin_eq_self hb (hb.grounded.known hold)]
  · rw [origin_variant (h.inv.base.coherent.variant hvariant),
      h.origin_of_standsFor hb (hb.grounded.known hbound) hstands]
    exact hbound

theorem grounded (hb : b.Pristine) (h : Converted b r) (hchanges : b.arena.Changes r.arena) :
    r.arena.Grounded where
  known := h.inv.base.coherent.target
  acyclic _ hcycle :=
    hb.acyclic _ (TransGen.lift (origin r.arena) (fun _ _ hx => h.pointsTo_origin hb hx) _ _ hcycle)
  counted := hb.counted.changes hchanges

end Converted

end Conversion

/-! ## Dependencies can be computed -/

theorem recordable_of_grounded {a : Arena} (ha : a.Grounded) {op : Operation}
    (hknown : ∀ l, op.lvalue? = some l → a.Known l) : Recordable a op := by
  intro l hl
  obtain ⟨o, ho⟩ := Arena.known_iff.mp (hknown l hl)
  exact ⟨o, ho, fun _ _ => (ha.resolve (hknown l hl)).imp fun _ ht => ht.1⟩

theorem Pristine.dependencies {b : Body} (hb : b.Pristine) : ∃ deps, b.dependencies = .ok deps := by
  obtain ⟨flow, hflow⟩ := flow_total (b := b) fun node hmem op hop => by
    obtain ⟨n, hnode⟩ := mem_nodes_iff.mp hmem
    exact recordable_of_grounded hb.grounded fun l hl => hb.known_lvalue hnode hop hl
  exact dependencies_total hflow

theorem Converted.dependencies {b : Body} {r : Renaming} (hb : b.Pristine) (h : Converted b r)
    (hchanges : b.arena.Changes r.arena) : ∃ deps, r.body.dependencies = .ok deps := by
  obtain ⟨flow, hflow⟩ := flow_total (b := r.body) fun node hmem op hop => by
    obtain ⟨n, hnode⟩ := mem_nodes_iff.mp hmem
    exact recordable_of_grounded (h.grounded hb hchanges) fun w hw => h.known_lvalue hnode hop hw
  exact dependencies_total hflow

/-- The conversion of a body succeeds, so no read of a variable is cut short on any path, and then
its dependencies can be computed. -/
theorem toSsa_total {b : Body} (hb : b.Pristine) :
    ∃ b' deps, b.toSsa = (.ok (), b') ∧ b'.dependencies = .ok deps := by
  cases hssa : b.isSsa with
  | true =>
      obtain ⟨deps, hdeps⟩ := hb.dependencies
      exact ⟨b, deps, by rw [toSsa, if_pos hssa], hdeps⟩
  | false =>
      obtain ⟨r, hr, h⟩ := toSsa_spec (hb.of_isSsa hssa)
      obtain ⟨deps, hdeps⟩ := h.dependencies hb (converts_toSsa hr).arena
      exact ⟨_, deps, hr, hdeps⟩

/-- The loop that can be entered at two places is converted, and its references are followed. -/
theorem crossed_total :
    crossed.Pristine ∧ ∃ b' deps, crossed.toSsa = (.ok (), b') ∧ b'.dependencies = .ok deps :=
  ⟨by decide +kernel, toSsa_total (by decide +kernel)⟩

end ContractCalls.Body
