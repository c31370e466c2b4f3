/-
# Well-formed bodies

What the passes behind the lowering rely on without checking it.  The entry is
the first node and nothing leads back to it; nodes carry their positions, every
successor exists and every node is terminated; whatever operand is used exists,
what is written may be written and what is read may be read; nothing is in
single-assignment form yet; and a bound reference aliases an operand that was
there before it, so that every chain of references ends.

The last point is about the arena alone, which is `Unrenamed`.
-/
import ContractCalls.Proofs.Body.Graph
import ContractCalls.Proofs.Operand.Chain

namespace ContractCalls

namespace Arena

/-! ## What may be written and read -/

/-- The operand exists and may be written. -/
def Writable (a : Arena) (id : OperandId) : Prop := ∃ o, a.get? id = some o ∧ o.isLvalue = true

/-- The operand exists and may be read. -/
def Readable (a : Arena) (id : OperandId) : Prop := ∃ o, a.get? id = some o ∧ o.isRvalue = true

theorem Writable.known {a : Arena} {id : OperandId} (h : a.Writable id) : a.Known id := by
  obtain ⟨o, ho, -⟩ := h
  exact known_of_get? ho

theorem Readable.known {a : Arena} {id : OperandId} (h : a.Readable id) : a.Known id := by
  obtain ⟨o, ho, -⟩ := h
  exact known_of_get? ho

theorem Includes.writable {a a' : Arena} (h : a.Includes a') {id : OperandId}
    (hid : a.Writable id) : a'.Writable id := by
  obtain ⟨o, ho, hl⟩ := hid
  exact ⟨o, h.same ho, hl⟩

theorem Includes.readable {a a' : Arena} (h : a.Includes a') {id : OperandId}
    (hid : a.Readable id) : a'.Readable id := by
  obtain ⟨o, ho, hr⟩ := hid
  exact ⟨o, h.same ho, hr⟩

end Arena

/-- Checks over a list that succeed: each of them does. -/
theorem forM_eq_ok {ε α : Type} {f : α → Except ε Unit} {xs : List α}
    (h : xs.forM f = .ok ()) : ∀ x ∈ xs, f x = .ok () := by
  induction xs with
  | nil => exact fun x hx => absurd hx List.not_mem_nil
  | cons y rest ih =>
      obtain ⟨_, hy, hrest⟩ := bind_eq_ok h
      intro x hx
      rcases List.mem_cons.mp hx with rfl | hx
      · exact hy
      · exact ih hrest x hx

namespace Arena

theorem writable_of_ensureLvalue {a : Arena} {id : OperandId} {u : Unit}
    (h : a.ensureLvalue id = .ok u) : a.Writable id := by
  obtain ⟨o, ho, h⟩ := bind_eq_ok h
  split at h
  · exact ⟨o, get?_of_get ho, ‹_›⟩
  · cases h

theorem readable_of_ensureRvalue {a : Arena} {id : OperandId} {u : Unit}
    (h : a.ensureRvalue id = .ok u) : a.Readable id := by
  obtain ⟨o, ho, h⟩ := bind_eq_ok h
  split at h
  · exact ⟨o, get?_of_get ho, ‹_›⟩
  · cases h

end Arena

namespace Operation

/-- What the operation writes may be written, and what it reads may be read. -/
structure Valid (a : Arena) (op : Operation) : Prop where
  lvalue : ∀ id ∈ op.lvalue?, a.Writable id
  reads : ∀ id ∈ op.reads, a.Readable id

theorem Valid.includes {a a' : Arena} {op : Operation} (h : op.Valid a) (hinc : a.Includes a') :
    op.Valid a' where
  lvalue id hid := hinc.writable (h.lvalue id hid)
  reads id hid := hinc.readable (h.reads id hid)

theorem valid_nop (a : Arena) : Operation.nop.Valid a where
  lvalue _ h := by cases h
  reads _ h := by cases h

theorem readable_of_checkArgs {a : Arena} {args : CallArgs} {u : Unit}
    (h : checkArgs a args = .ok u) : ∀ id ∈ args.arguments, a.Readable id := fun id hid =>
  Arena.readable_of_ensureRvalue (forM_eq_ok h id hid)

variable {a : Arena} {op made : Operation} {lvalue operand : OperandId}

/-- An operation made after a check of what it writes and of the one operand it reads. -/
theorem valid_of_operand
    (h : (do a.ensureLvalue lvalue; a.ensureRvalue operand; return made) = Except.ok op)
    (hlvalue : made.lvalue? = some lvalue) (hreads : made.reads = [operand]) : op.Valid a := by
  obtain ⟨_, hl, h⟩ := bind_eq_ok h
  obtain ⟨_, hr, h⟩ := bind_eq_ok h
  cases h
  exact ⟨by simpa [hlvalue] using Arena.writable_of_ensureLvalue hl,
    by simpa [hreads] using Arena.readable_of_ensureRvalue hr⟩

/-- An operation made after a check of what it writes, if anything, and of its arguments. -/
theorem valid_of_args (lvalue : Option OperandId) {args : CallArgs}
    (h : (do lvalue.forM a.ensureLvalue; checkArgs a args; return made) = Except.ok op)
    (hlvalue : made.lvalue? = lvalue) (hreads : made.reads = args.arguments) : op.Valid a := by
  obtain ⟨_, hl, h⟩ := bind_eq_ok h
  obtain ⟨_, hr, h⟩ := bind_eq_ok h
  cases h
  refine ⟨?_, hreads ▸ readable_of_checkArgs hr⟩
  intro id hid
  obtain rfl : lvalue = some id := hlvalue.symm.trans hid
  exact Arena.writable_of_ensureLvalue hl

theorem valid_mkAssignment {declared : Ty} (h : mkAssignment a lvalue operand declared = .ok op) :
    op.Valid a := valid_of_operand h rfl rfl

theorem valid_mkDelete (h : mkDelete a lvalue operand = .ok op) : op.Valid a :=
  valid_of_operand h rfl rfl

theorem valid_mkUnary {token : String} (h : mkUnary a lvalue operand token = .ok op) :
    op.Valid a := by
  obtain ⟨_, -, h⟩ := bind_eq_ok h
  exact valid_of_operand h rfl rfl

theorem valid_mkCall {callee : Callee} {args : CallArgs} {lvalue : Option OperandId}
    (h : mkCall a callee args lvalue = .ok op) : op.Valid a := valid_of_args lvalue h rfl rfl

theorem valid_mkNewElementary {ty : Ty} {args : CallArgs}
    (h : mkNewElementary a ty args lvalue = .ok op) : op.Valid a :=
  valid_of_args (some lvalue) h rfl rfl

theorem valid_mkNewStructure {name : String} {args : CallArgs}
    (h : mkNewStructure a name args lvalue = .ok op) : op.Valid a :=
  valid_of_args (some lvalue) h rfl rfl

end Operation

/-! ## Bodies -/

/-- The operands that the operations and the terminator of a node use. -/
def Node.operands (node : Node) : List OperandId :=
  node.operations.flatMap (fun op => op.reads ++ op.lvalue?.toList) ++ node.terminator.reads

theorem Node.mem_operands_of_read {node : Node} {op : Operation} (hop : op ∈ node.operations)
    {id : OperandId} (hid : id ∈ op.reads) : id ∈ node.operands :=
  List.mem_append_left _ (List.mem_flatMap.mpr ⟨op, hop, List.mem_append_left _ hid⟩)

theorem Node.mem_operands_of_lvalue {node : Node} {op : Operation} (hop : op ∈ node.operations)
    {l : OperandId} (hl : op.lvalue? = some l) : l ∈ node.operands :=
  List.mem_append_left _ (List.mem_flatMap.mpr
    ⟨op, hop, List.mem_append_right _ (Option.mem_toList.mpr hl)⟩)

/-- A body as the lowering leaves it. -/
structure Body.WellFormed (b : Body) : Prop where
  entry : b.entry = some ⟨0⟩
  entryNode : b.node? ⟨0⟩ ≠ none
  noWayBack : ∀ m, ¬ b.Edge m ⟨0⟩
  numbered : b.Numbered
  successors : ∀ {m n}, b.Edge m n → b.node? n ≠ none
  terminated : ∀ {n node}, b.node? n = some node → node.terminator ≠ .open_
  operands : ∀ {n node}, b.node? n = some node → ∀ id ∈ node.operands, b.arena.Known id
  parameters : ∀ id ∈ b.parameters, b.arena.Known id
  returns : ∀ id ∈ b.returns, b.arena.Known id
  operations : ∀ {n node}, b.node? n = some node → ∀ op ∈ node.operations, op.Valid b.arena
  /-- No operand has a link, and bound references point to smaller ids. -/
  arena : b.arena.Unrenamed
  aliases : ∀ {id o index target}, b.arena.get? id = some o →
    o.kind = .reference index (some target) → b.arena.Known target
  resolves : ∀ id, b.arena.Known id → ∃ target, b.arena.resolve id = .ok target
  isSsa : b.isSsa = false
  phis : ∀ {n node}, b.node? n = some node → node.phis = []

end ContractCalls
