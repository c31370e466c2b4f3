/-
# What a conversion leaves of a body

Erasing a converted body, that is dropping its phis and replacing every operand
by the one it renames, gives back the body node for node: operations come in
the same order with the same callees, argument names and sources, nodes keep
their ids, and control goes where it went.  Nodes that cannot be reached were
not touched in the first place.

Of the arena, an operand that was there stays as it was, and an added one
renames an operand of its kind and type.  An arena may hold renamings before a
conversion.  The conversion takes such a form over as it is, whatever its
number, and if it is an unbound reference, may bind it.

    erasing a renamed operation gives the operation      (`erase_renamesOp`)
    erasing a converted node gives the node               (`Converted.erase_node`)
-/
import ContractCalls.Proofs.SingleAssignment.Frame
import ContractCalls.Proofs.SingleAssignment.Meaning

namespace ContractCalls

/-! ## Erasing operands -/

namespace Operation

/-- The operation with every operand replaced by the one it renames. -/
def erase (a : Arena) (op : Operation) : Operation := (op.mapReads a.nonSsa).mapLvalue a.nonSsa

@[simp] theorem shape_erase (a : Arena) (op : Operation) : (op.erase a).shape = op.shape := by
  simp [erase]

@[simp] theorem reads_erase (a : Arena) (op : Operation) :
    (op.erase a).reads = op.reads.map a.nonSsa := by simp [erase]

@[simp] theorem lvalue?_erase (a : Arena) (op : Operation) :
    (op.erase a).lvalue? = op.lvalue?.map a.nonSsa := by simp [erase]

/-- An operation is its shape with its operands. -/
theorem eq_of_shape {op op' : Operation} (hshape : op.shape = op'.shape)
    (hreads : op.reads = op'.reads) (hlvalue : op.lvalue? = op'.lvalue?) : op = op' := by
  rcases op with _ | ⟨⟨_, _⟩, _, _⟩ | ⟨⟨_, _⟩, _, _⟩ | ⟨⟨_, _⟩, _, _⟩ | _ | _ | _ <;>
    rcases op' with _ | ⟨⟨_, _⟩, _, _⟩ | ⟨⟨_, _⟩, _, _⟩ | ⟨⟨_, _⟩, _, _⟩ | _ | _ | _ <;>
    simp_all [shape, mapReads, mapLvalue, reads, lvalue?]

end Operation

namespace Terminator

theorem mapReads_mapReads (f g : OperandId → OperandId) (t : Terminator) :
    (t.mapReads f).mapReads g = t.mapReads (g ∘ f) := by
  cases t <;> simp [mapReads, Function.comp_def]

theorem mapReads_eq_self {f : OperandId → OperandId} {t : Terminator}
    (h : ∀ id ∈ t.reads, f id = id) : t.mapReads f = t := by
  cases t with
  | branch condition thenNode elseNode => simpa [mapReads, reads] using h
  | ret values =>
      simp only [mapReads, reads] at h ⊢
      rw [List.map_congr_left h, List.map_id']
  | _ => rfl

end Terminator

/-- The node without phis, with every operand replaced by the one it renames. -/
def Node.erase (a : Arena) (node : Node) : Node :=
  { node with
    phis := []
    operations := node.operations.map (·.erase a)
    terminator := node.terminator.mapReads a.nonSsa }

namespace Body

open Renaming

theorem map_eq_of_forall₂ {α β : Type} {R : α → β → Prop} {f : β → α} {xs : List α} {ys : List β}
    (h : List.Forall₂ R xs ys) (hR : ∀ x y, R x y → f y = x) : ys.map f = xs := by
  induction h with
  | nil => rfl
  | cons hxy _ ih => rw [List.map_cons, hR _ _ hxy, ih]

section Node

variable {b : Body} {r : Renaming} {n : NodeId} {cur cur' : Written}

theorem nonSsa_of_readsAs (h : Converted b r) (hcur : Versions r.arena cur) {id x : OperandId}
    (hx : ReadsAs r n cur id x) : r.arena.nonSsa x = id :=
  (nonSsa_eq_origin r.arena x).trans (hx.origin h hcur)

/-- Erasing a renamed operation gives the operation. -/
theorem erase_renamesOp (h : Converted b r) (hcur : Versions r.arena cur) {op op' : Operation}
    (hop : RenamesOp r n cur op op' cur') :
    op'.erase r.arena = op ∧ Versions r.arena cur' := by
  have hreads : op'.reads.map r.arena.nonSsa = op.reads :=
    map_eq_of_forall₂ hop.reads fun _ _ hx => nonSsa_of_readsAs h hcur hx
  have hlvalue : op'.lvalue?.map r.arena.nonSsa = op.lvalue? ∧ Versions r.arena cur' := by
    have hl := hop.lvalue
    generalize op.lvalue? = l at hl ⊢
    generalize op'.lvalue? = l' at hl ⊢
    cases hl with
    | none => exact ⟨rfl, hcur⟩
    | some hw =>
        refine ⟨congrArg some ?_, hw.versions hcur⟩
        exact (nonSsa_eq_origin r.arena _).trans (hw.origin h)
  refine ⟨Operation.eq_of_shape ?_ ?_ ?_, hlvalue.2⟩
  · rw [Operation.shape_erase, hop.shape]
  · rw [Operation.reads_erase, hreads]
  · rw [Operation.lvalue?_erase, hlvalue.1]

/-- Erasing renamed operations gives the operations. -/
theorem erase_renames (h : Converted b r) {ops ops' : List Operation}
    (hren : Renames r n cur ops ops' cur') :
    Versions r.arena cur → ops'.map (·.erase r.arena) = ops ∧ Versions r.arena cur' := by
  induction hren with
  | nil => exact fun hcur => ⟨rfl, hcur⟩
  | cons hop _ ih =>
      intro hcur
      obtain ⟨herase, hcur₁⟩ := erase_renamesOp h hcur hop
      obtain ⟨hrest, hcur₂⟩ := ih hcur₁
      exact ⟨by rw [List.map_cons, herase, hrest], hcur₂⟩

/-- What renames nothing is left alone. -/
theorem Plain.nonSsa {a : Arena} {ids : List OperandId} (h : Plain a ids) {id : OperandId}
    (hid : id ∈ ids) : a.nonSsa id = id :=
  (nonSsa_eq_origin a id).trans (origin_of_link? (h id hid).2)

theorem erase_of_plain {a : Arena} {node : Node} (hphis : node.phis = [])
    (h : Plain a node.operands) : node.erase a = node := by
  have hops : node.operations.map (·.erase a) = node.operations := by
    refine (List.map_congr_left fun op hop => ?_).trans (List.map_id' _)
    refine Operation.eq_of_shape (by simp) ?_ ?_
    · rw [Operation.reads_erase]
      exact (List.map_congr_left fun id hid =>
        h.nonSsa (Node.mem_operands_of_read hop hid)).trans (List.map_id' _)
    · rw [Operation.lvalue?_erase]
      cases hl : op.lvalue? with
      | none => rfl
      | some l => exact congrArg some (h.nonSsa (Node.mem_operands_of_lvalue hop hl))
  have hterminator : node.terminator.mapReads a.nonSsa = node.terminator :=
    Terminator.mapReads_eq_self fun id hid => h.nonSsa (List.mem_append_right _ hid)
  rw [Node.erase, hops, hterminator, ← hphis]

namespace Converted

/-- A node that cannot be reached is untouched. -/
theorem node?_of_not_reachable (h : Converted b r) (hn : ¬ b.Reachable n) :
    r.body.node? n = b.node? n := by
  have hinactive : ¬ Active none r n := by simpa [Active, h.filled] using hn
  obtain ⟨hcode, hphi, -⟩ := h.inv.base.untouched hinactive
  cases hnode : r.body.node? n with
  | none => rw [← hcode, code?, hnode]; rfl
  | some node =>
      have hphis : node.phis = [] := by
        refine List.eq_nil_iff_forall_not_mem.mpr fun φ hφ => ?_
        obtain ⟨i, hi⟩ := List.getElem?_of_mem hφ
        have := hphi i
        simp [phi?, hnode, hi] at this
      rw [← hcode, code?, hnode, ← hphis]
      rfl

/-- Erasing a converted node gives the node. -/
theorem erase_node (hb : b.Unconverted) (h : Converted b r) (n : NodeId) :
    (r.body.node? n).map (·.erase r.arena) = b.node? n := by
  cases hnode : b.node? n with
  | none =>
      have hcode : r.code? n = none := not_not.mp fun hc => h.inv.base.node?_iff.mp hc hnode
      rw [code?, Option.map_eq_none_iff] at hcode
      rw [hcode]
      rfl
  | some node =>
      by_cases hn : b.Reachable n
      · obtain ⟨ops, cur, f, hcode, hren, -, hterm⟩ :=
          h.inv.base.filled n (h.filled.mpr hn) node hnode
        obtain ⟨node', hnode', he⟩ := Option.map_eq_some_iff.mp hcode
        obtain ⟨hops, hcur⟩ := erase_renames h hren (by intro v w hv; simp at hv)
        have hterminator : (node.terminator.mapReads f).mapReads r.arena.nonSsa =
            node.terminator := by
          rw [Terminator.mapReads_mapReads]
          exact Terminator.mapReads_eq_self fun id hid => nonSsa_of_readsAs h hcur (hterm id hid)
        -- the phis of the node do not matter
        have herase : node'.erase r.arena = Node.erase r.arena { node' with phis := [] } := rfl
        rw [hnode', Option.map_some, herase, he, Node.erase]
        simp only [hops, hterminator, ← hb.phis hnode]
      · rw [h.node?_of_not_reachable hn, hnode]
        refine congrArg some (erase_of_plain (hb.phis hnode) ?_)
        exact (hb.plain hnode).extends h.inv.base.arena

/-- Erasing an operation of the conversion gives an operation of the same node of the body. -/
theorem erase_operation (hb : b.Unconverted) (h : Converted b r) {node' : Node}
    (hnode' : r.body.node? n = some node') {op' : Operation} (hop' : op' ∈ node'.operations) :
    ∃ node, b.node? n = some node ∧ op'.erase r.arena ∈ node.operations := by
  have herase := h.erase_node hb n
  rw [hnode', Option.map_some] at herase
  exact ⟨_, herase.symm, List.mem_map.mpr ⟨op', hop', rfl⟩⟩

end Converted

end Node

/-! ## The operands of a conversion -/

/-- An operand that was there is unchanged, but for a renaming that was an unbound reference: it
may be bound the way the reference is that it renames. -/
theorem Converted.operand {b : Body} {r : Renaming} (h : Converted b r)
    (hchanges : b.arena.Changes r.arena) {id : OperandId} {o : Operand}
    (ho : b.arena.get? id = some o) :
    r.arena.get? id = some o ∨ ∃ index x, o.ssa ≠ none ∧ o.kind = .reference index none ∧
      r.arena.get? id = some { o with kind := .reference index (some x) } ∧
      r.arena.Mirrors id x := by
  by_cases hunbound : o.Unbound
  · obtain ⟨index, hk⟩ := hunbound
    obtain ⟨o', ho', hs, hsame⟩ := h.inv.base.arena.operand ho
    by_cases hssa : o.ssa = none
    · exact Or.inl (hsame hssa ▸ ho')
    obtain ⟨o₁, ho₁, halike⟩ := hchanges.alike ho
    obtain rfl := Option.some.inj (ho'.symm.trans ho₁)
    have hkind := halike.kind
    have hwith : o' = { o with kind := o'.kind } := by rw [← halike.ty, ← halike.ssa]
    cases hk' : o'.kind with
    | reference index' target =>
        obtain rfl : index' = index := by simpa [hk, hk', OperandKind.unbound] using hkind
        rw [hk'] at hwith
        cases target with
        | none => exact Or.inl (by rw [ho', hwith, ← hk])
        | some x =>
            refine Or.inr ⟨index', x, hssa, hk, hwith ▸ ho', ?_⟩
            -- it was not bound before, so the binding mirrors one
            refine (h.inv.base.aliases ⟨o', index', ho', hk'⟩).resolve_left ?_
            rintro ⟨p, index'', hp, hpk⟩
            obtain rfl := Option.some.inj (ho.symm.trans hp)
            simp [hk] at hpk
    | _ => simp [hk, hk', OperandKind.unbound] at hkind
  · exact Or.inl (h.inv.base.arena.settled ho hunbound)

/-- A loop that can be entered at two places and writes a variable through two references, one
bound to the other; its last node cannot be reached. -/
def crossed : Body where
  arena :=
    let number : Ty := .elementary "uint256"
    { slots := #[⟨⟨.stateVar "s", number, none⟩, none, none, 0⟩,
        ⟨⟨.localVar "x", number, none⟩, none, none, 0⟩,
        ⟨⟨.localVar "y", number, none⟩, none, none, 0⟩,
        ⟨⟨.reference 0 (some ⟨4⟩), number, none⟩, none, none, 0⟩,
        ⟨⟨.reference 1 (some ⟨0⟩), number, none⟩, none, none, 0⟩]
      references := 2 }
  nodes := #[⟨⟨0⟩, [], [], .branch ⟨1⟩ ⟨1⟩ ⟨2⟩, none⟩,
    ⟨⟨1⟩, [], [.call (.positional [⟨0⟩]) (some ⟨4⟩) (.intrinsic .index),
      .call (.positional [⟨4⟩]) (some ⟨3⟩) (.intrinsic .index),
      .assignment ⟨3⟩ ⟨1⟩ (.elementary "uint256")], .goto ⟨2⟩, none⟩,
    ⟨⟨2⟩, [], [.assignment ⟨1⟩ ⟨0⟩ (.elementary "uint256")], .branch ⟨1⟩ ⟨1⟩ ⟨3⟩, none⟩,
    ⟨⟨3⟩, [], [], .ret [⟨2⟩], none⟩,
    ⟨⟨4⟩, [], [.assignment ⟨0⟩ ⟨2⟩ (.elementary "uint256")], .ret [], none⟩]
  entry := some ⟨0⟩
  parameters := [⟨1⟩, ⟨2⟩]
  returns := []
  isSsa := false

end Body

end ContractCalls
