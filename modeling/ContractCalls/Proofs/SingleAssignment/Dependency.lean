/-
# No data flow is lost

Along a path, names of variables flow: each variable starts with its own, and
an operation collects in what it writes all that has flowed into its reads.
The dependencies of the converted body cover this for every path.

The body is followed together with its conversion.  On the side of the
conversion a cell holds a set of names too, and every name in it belongs to an
operand that the cell depends on (`Sourced`).  Operations keep this, because
they make what they write depend on their reads, and so do phis.  When a
variable is written, the version written there holds what has flowed into the
variable, so each name in it other than its own is a dependency.

    an operation keeps the cells sourced and settles its write   (`flow_renamesOp`)
    the operations of a node do                                   (`flow_renames`)
    a path does                                                   (`Converted.flow_path`)
-/
import ContractCalls.Proofs.Body.Dependency
import ContractCalls.Proofs.Body.Walk
import ContractCalls.Proofs.Operand.History
import ContractCalls.Proofs.SingleAssignment.Erasure

namespace ContractCalls.Body

open Renaming Relation

/-! ## Flow along a path -/

/-- Name of an operand that is a variable of the program. -/
def ownName? (b : Body) (id : OperandId) : Option String :=
  (b.arena.get? id).bind (·.kind.variableName?)

/-- The names that have flowed into each operand. -/
abbrev Inflow := OperandId → Set String

/-- On entry a variable holds its own name, and every other operand nothing. -/
def inflowOnEntry (b : Body) : Inflow := fun id => {x | b.ownName? id = some x}

/-- An operation collects in what it writes all that has flowed into its reads. -/
def inflowAfter (F : Inflow) (op : Operation) : Inflow :=
  match op.lvalue? with
  | some l => Function.update F l {x | ∃ id ∈ op.reads, x ∈ F id}
  | none => F

/-- What has flowed into each operand at the end of a path. -/
def inflowAlong (b : Body) (path : List NodeId) : Inflow :=
  (b.operationsAlong path).foldl inflowAfter b.inflowOnEntry

/-- References are written only by the accesses that bind them. -/
def BindsReferences (b : Body) : Prop :=
  ∀ node ∈ b.nodes, ∀ op ∈ node.operations, ∀ l ∈ op.lvalue?, ∀ o ∈ b.arena.get? l,
    o.isReference = true → bindsReference op = true

theorem inflowAfter_of_ne {F : Inflow} {op : Operation} {y : OperandId}
    (h : op.lvalue? ≠ some y) : inflowAfter F op y = F y := by
  unfold inflowAfter
  cases hl : op.lvalue? with
  | none => rfl
  | some l => exact Function.update_of_ne (fun hy => h (by rw [hl, hy])) _ _

/-! ## Cells whose names are sourced -/

/-- Every name belongs to an operand that `w` is or depends on. -/
def SourcedAt (c : Body) (w : OperandId) (names : Set String) : Prop :=
  ∀ x ∈ names, ∃ e, ReflTransGen c.Direct w e ∧ c.variableName? e = some x

/-- Every name in a cell belongs to an operand that the cell is or depends on. -/
def Sourced (c : Body) (τ : Cells (Set String)) : Prop :=
  ∀ w names, τ w = some names → c.SourcedAt w names

section Cells

variable {c : Body} {τ : Cells (Set String)}

theorem SourcedAt.of_direct {w source : OperandId} {names : Set String}
    (hdirect : c.Direct w source) (h : c.SourcedAt source names) : c.SourcedAt w names := by
  intro x hx
  obtain ⟨e, he, hname⟩ := h x hx
  exact ⟨e, he.head hdirect, hname⟩

theorem Sourced.update (h : c.Sourced τ) {w : OperandId} {names : Set String}
    (hw : c.SourcedAt w names) : c.Sourced (Function.update τ w (some names)) := by
  intro v names' hv
  by_cases hvw : v = w
  · subst hvw
    rw [Function.update_self] at hv
    exact Option.some.inj hv ▸ hw
  · rw [Function.update_of_ne hvw] at hv
    exact h v names' hv

/-- The values of the phis of a node are sourced. -/
theorem Sourced.phiValue (h : c.Sourced τ) {node : Node} (hnode : node ∈ c.nodes.toList) {φ : Phi}
    (hφ : φ ∈ node.phis) {left : Option NodeId} {names : Set String}
    (hvalue : phiValue left τ φ = some names) : c.SourcedAt φ.lvalue names := by
  obtain ⟨p, -, hvalue⟩ := Option.bind_eq_some_iff.mp hvalue
  obtain ⟨source, hlookup, hvalue⟩ := Option.bind_eq_some_iff.mp hvalue
  refine (h _ _ hvalue).of_direct ⟨_, ⟨node, hnode, Or.inl ⟨φ, hφ, rfl, rfl⟩⟩, ?_⟩
  obtain ⟨l₁, l₂, hl, -⟩ := List.lookup_eq_some_iff.mp hlookup
  rw [hl]
  simp

theorem sourced_assignPhis {phis : List Phi} {values : List (Set String)} (h : c.Sourced τ)
    (hvalues : List.Forall₂ (fun (φ : Phi) names => c.SourcedAt φ.lvalue names) phis values) :
    c.Sourced (assignPhis τ phis values) := by
  induction hvalues generalizing τ with
  | nil => exact h
  | cons hφ _ ih => exact ih (h.update hφ)

theorem forall₂_of_mapM {α β : Type} {f : α → Option β} {R : α → β → Prop} :
    ∀ {xs : List α} {ys : List β}, (∀ x ∈ xs, ∀ y, f x = some y → R x y) →
      xs.mapM f = some ys → List.Forall₂ R xs ys := by
  intro xs
  induction xs with
  | nil =>
      intro ys _ hys
      cases hys
      exact .nil
  | cons x xs ih =>
      intro ys hR hys
      rw [List.mapM_cons] at hys
      obtain ⟨y, hy, hys⟩ := Option.bind_eq_some_iff.mp hys
      obtain ⟨rest, hrest, hys⟩ := Option.bind_eq_some_iff.mp hys
      cases hys
      exact .cons (hR x List.mem_cons_self y hy)
        (ih (fun z hz => hR z (List.mem_cons_of_mem _ hz)) hrest)

/-- Entering a node keeps cells sourced. -/
theorem Sourced.enterNode (h : c.Sourced τ) {node : Node} (hnode : node ∈ c.nodes.toList)
    {left : Option NodeId} {τ' : Cells (Set String)}
    (henter : enterNode left τ node.phis = some τ') : c.Sourced τ' := by
  obtain ⟨values, hvalues, hτ'⟩ := Option.bind_eq_some_iff.mp henter
  cases hτ'
  exact sourced_assignPhis h
    (forall₂_of_mapM (fun φ hφ names hn => h.phiValue hnode hφ hn) hvalues)

/-- A name in the cell of a variable that is not its own is a dependency. -/
theorem Sourced.has (h : c.Sourced τ) {deps : DependencyMap} (hdeps : c.dependencies = .ok deps)
    {w : OperandId} {names : Set String} {name x : String} (hw : τ w = some names)
    (hname : c.variableName? w = some name) (hx : x ∈ names) (hne : x ≠ name) :
    deps.Has name x := by
  obtain ⟨e, hwe, he⟩ := h w names hw x hx
  refine (dependencies_spec hdeps).mpr ⟨hne, w, e, hname, ?_, he⟩
  rcases reflTransGen_iff_eq_or_transGen.mp hwe with rfl | hwe
  · exact absurd (Option.some.inj (he.symm.trans hname)) hne
  · exact hwe

end Cells

/-! ## The conversion beside the body -/

variable {b : Body} {r : Renaming} {deps : DependencyMap}

/-- Where an operand stands for one that it renames, it has its name. -/
theorem variableName?_of_origin (c : Body) {w y : OperandId} (h : origin c.arena w = y) :
    c.variableName? w = c.ownName? y := by
  rw [variableName?, nonSsa_eq_origin, h, ownName?]

/-- A renaming is a reference if what it stands for is. -/
theorem isReference_origin {a : Arena} (h : a.Akin)
    {w : OperandId} {o p : Operand} (ho : a.get? w = some o) (hp : a.get? (origin a w) = some p) :
    o.isReference = p.isReference := by
  have hkin : a.isReference? (origin a w) = a.isReference? w := by
    unfold origin
    split
    · next hl => exact h.renamed hl
    · next hl => exact h.renamed hl
    · rfl
  rw [Arena.isReference?, Arena.isReference?, ho, hp] at hkin
  exact (Option.some.inj hkin).symm

theorem bindsReference_of_shape {op op' : Operation} (h : op'.shape = op.shape) :
    bindsReference op' = bindsReference op := by
  have hcallee : ∀ op : Operation, op.shape.callee? = op.callee? := fun op => by
    simp [Operation.shape]
  rw [bindsReference, ← hcallee op', h, hcallee op, bindsReference]

/-- What has flowed into the variables written by the operations is among the dependencies. -/
def Settled (b : Body) (deps : DependencyMap) (ops : List Operation) (F : Inflow) : Prop :=
  ∀ op ∈ ops, ∀ {y name}, op.lvalue? = some y → b.ownName? y = some name →
    ∀ x ∈ F y, x ≠ name → deps.Has name x

/-- One more operation is settled, and what it does not write stays as it was. -/
theorem Settled.snoc {ops : List Operation} {F : Inflow} (h : b.Settled deps ops F)
    {op : Operation} (hop : b.Settled deps [op] (inflowAfter F op)) :
    b.Settled deps (ops ++ [op]) (inflowAfter F op) := by
  intro op₀ hop₀ y name hy hname x hx hne
  by_cases hwrites : op.lvalue? = some y
  · exact hop op List.mem_cons_self hwrites hname x hx hne
  · rw [inflowAfter_of_ne hwrites] at hx
    rcases List.mem_append.mp hop₀ with hop₀ | hop₀
    · exact h op₀ hop₀ hy hname x hx hne
    · obtain rfl := List.mem_singleton.mp hop₀
      exact absurd hy hwrites

theorem exists_of_forall₂ {α β : Type} {R : α → β → Prop} {xs : List α} {ys : List β}
    (h : List.Forall₂ R xs ys) {x : α} (hx : x ∈ xs) : ∃ y ∈ ys, R x y := by
  induction h with
  | nil => exact absurd hx List.not_mem_nil
  | cons hxy _ ih =>
      rcases List.mem_cons.mp hx with rfl | hx
      · exact ⟨_, List.mem_cons_self, hxy⟩
      · obtain ⟨y, hy, hR⟩ := ih hx
        exact ⟨y, List.mem_cons_of_mem _ hy, hR⟩

/-- A variable that is used is one in the arena of the conversion too. -/
theorem Converted.isVariable (hb : b.Unconverted) (h : Converted b r) {n : NodeId} {node : Node}
    (hnode : b.node? n = some node) {y : OperandId} (hy : y ∈ node.operands) {name : String}
    (hname : b.ownName? y = some name) :
    r.arena.IsVariable y ∧ r.body.ownName? y = some name := by
  obtain ⟨o, ho, hs⟩ := hb.uses hnode y hy
  have ho' : r.body.arena.get? y = some o := h.inv.base.arena.get?_of_ssa ho hs
  have hkind : o.kind.variableName? = some name := by simpa [ownName?, ho] using hname
  refine ⟨⟨o, ho', ?_, hs⟩, by simpa [ownName?, ho'] using hkind⟩
  cases hk : o.kind <;> simp_all [OperandKind.variableName?, OperandKind.isVariable]

section Node

variable {n : NodeId} {node node' : Node} {cur cur' : Written} {F : Inflow}
  {τ : Cells (Set String)}

/-- The renamed operation collects in its write what has flowed into its reads. -/
theorem sourcedAt_renamesOp (hnode' : node' ∈ r.body.nodes.toList) {op op' : Operation}
    (hmem' : op' ∈ node'.operations) (hop : RenamesOp r n cur op op' cur')
    (hag : Agrees r n cur F τ) (hs : r.body.Sourced τ) {w : OperandId}
    (hw : op'.lvalue? = some w) : r.body.SourcedAt w {x | ∃ id ∈ op.reads, x ∈ F id} := by
  rintro x ⟨id, hid, hx⟩
  obtain ⟨source, hsource, hreads⟩ := exists_of_forall₂ hop.reads hid
  have hdirect : r.body.Direct w source :=
    ⟨op'.reads, ⟨node', hnode', Or.inr ⟨op', hmem', .lvalue hw, rfl⟩⟩, hsource⟩
  exact (hs _ _ (hag hreads)).of_direct hdirect x hx

/-- An operation and its renamed form keep the cells in agreement and sourced, and what is written
of a variable is settled. -/
theorem flow_renamesOp (hb : b.Unconverted) (h : Converted b r)
    (hdeps : r.body.dependencies = .ok deps) (hnode : b.node? n = some node)
    (hnode' : node' ∈ r.body.nodes.toList) {op op' : Operation} (hmem : op ∈ node.operations)
    (hmem' : op' ∈ node'.operations) (hop : RenamesOp r n cur op op' cur')
    (hag : Agrees r n cur F τ) (hcur : Versions r.arena cur) (hs : r.body.Sourced τ) :
    ∃ τ', Agrees r n cur' (inflowAfter F op) τ' ∧ Versions r.arena cur' ∧ r.body.Sourced τ' ∧
      b.Settled deps [op] (inflowAfter F op) := by
  have hsource := fun w => sourcedAt_renamesOp hnode' hmem' hop hag hs (w := w)
  have hl := hop.lvalue
  cases hl' : op.lvalue? with
  | none =>
      have hafter : inflowAfter F op = F := by rw [inflowAfter, hl']
      rw [hl'] at hl
      generalize op'.lvalue? = l' at hl
      cases hl
      refine ⟨τ, by rwa [hafter], hcur, hs, fun op₀ hop₀ y name hy => ?_⟩
      obtain rfl := List.mem_singleton.mp hop₀
      simp [hl'] at hy
  | some l =>
      have hafter : inflowAfter F op = Function.update F l {x | ∃ id ∈ op.reads, x ∈ F id} := by
        rw [inflowAfter, hl']
      rw [hl'] at hl
      generalize op'.lvalue? = l' at hl hsource
      cases hl with
      | @some _ w _ hw =>
        have hs' := hs.update (hsource w rfl)
        refine ⟨_, ?_, hw.versions hcur, hs', ?_⟩
        · rw [hafter]
          exact hag.write h hcur hw _
        · intro op₀ hop₀ y name hy hname x hx hne
          obtain rfl := List.mem_singleton.mp hop₀
          obtain rfl := Option.some.inj (hl'.symm.trans hy)
          obtain ⟨-, hown⟩ :=
            h.isVariable hb hnode (Node.mem_operands_of_lvalue hmem hl') hname
          rw [hafter, Function.update_self] at hx
          exact hs'.has hdeps (Function.update_self ..)
            ((variableName?_of_origin r.body (hw.origin h)).trans hown) hx hne

/-- So do the operations of a node in order. -/
theorem flow_renames (hb : b.Unconverted) (h : Converted b r)
    (hdeps : r.body.dependencies = .ok deps) (hnode : b.node? n = some node)
    (hnode' : node' ∈ r.body.nodes.toList) {ops ops' : List Operation}
    (hren : Renames r n cur ops ops' cur') :
    ∀ {F : Inflow} {τ : Cells (Set String)} {done : List Operation}, ops ⊆ node.operations →
      ops' ⊆ node'.operations → Agrees r n cur F τ → Versions r.arena cur → r.body.Sourced τ →
      b.Settled deps done F →
      ∃ τ', Agrees r n cur' (ops.foldl inflowAfter F) τ' ∧ r.body.Sourced τ' ∧
        b.Settled deps (done ++ ops) (ops.foldl inflowAfter F) := by
  induction hren with
  | nil =>
      intro F τ done _ _ hag _ hs hset
      exact ⟨τ, hag, hs, by simpa using hset⟩
  | cons hop _ ih =>
      intro F τ done hsub hsub' hag hcur hs hset
      obtain ⟨hmem, hsub⟩ := List.cons_subset.mp hsub
      obtain ⟨hmem', hsub'⟩ := List.cons_subset.mp hsub'
      obtain ⟨τ₁, hag₁, hcur₁, hs₁, hset₁⟩ :=
        flow_renamesOp hb h hdeps hnode hnode' hmem hmem' hop hag hcur hs
      obtain ⟨τ₂, hag₂, hs₂, hset₂⟩ := ih hsub hsub' hag₁ hcur₁ hs₁ (hset.snoc hset₁)
      exact ⟨τ₂, hag₂, hs₂, by simpa using hset₂⟩

end Node

namespace Converted

variable {n : NodeId} {F : Inflow} {τ : Cells (Set String)} {done : List Operation}

/-- A node takes sourced cells on entry to sourced cells at its end, and its writes are settled. -/
theorem flow_node (hb : b.Unconverted) (h : Converted b r)
    (hdeps : r.body.dependencies = .ok deps) (hn : b.Reachable n) {node : Node}
    (hnode : b.node? n = some node) {left : Option NodeId} (hent : Enters r left n F τ)
    (hs : r.body.Sourced τ) (hset : b.Settled deps done F) :
    ∃ τ', Leaves r n (node.operations.foldl inflowAfter F) τ' ∧ r.body.Sourced τ' ∧
      b.Settled deps (done ++ node.operations) (node.operations.foldl inflowAfter F) := by
  obtain ⟨ops, cur, f, hcode, hren, htr, -⟩ := h.inv.base.filled n (h.filled.mpr hn) node hnode
  obtain ⟨node', hnode', he⟩ := Option.map_eq_some_iff.mp hcode
  have hops : node'.operations = ops := by
    simp only [Node.mk.injEq] at he
    exact he.2.2.1
  have hmem : node' ∈ r.body.nodes.toList := (Array.mem_of_getElem? hnode').val
  obtain ⟨τ₁, hτ₁, hag₁⟩ := hent node' hnode'
  obtain ⟨τ₂, hag₂, hs₂, hset₂⟩ := flow_renames hb h hdeps hnode hmem hren
    (fun _ h => h) (fun _ h => hops ▸ h) hag₁ (by intro v w hv; simp at hv)
    (hs.enterNode hmem hτ₁) hset
  exact ⟨τ₂, hag₂.leaves h htr, hs₂, hset₂⟩

/-- Along a path, everything written is settled. -/
theorem flow_path (hb : b.Unconverted) (h : Converted b r)
    (hdeps : r.body.dependencies = .ok deps) :
    ∀ {path : List NodeId} {left : Option NodeId} {n : NodeId} {F : Inflow}
      {τ : Cells (Set String)} {done : List Operation},
      b.Reachable n → (n :: path).IsChain b.Edge → Enters r left n F τ → r.body.Sourced τ →
      b.Settled deps done F →
      b.Settled deps (done ++ b.operationsAlong (n :: path))
        ((b.operationsAlong (n :: path)).foldl inflowAfter F) := by
  intro path
  induction path with
  | nil =>
      intro left n F τ done hn _ hent hs hset
      rw [operationsAlong_cons, show b.operationsAlong [] = [] from rfl, List.append_nil]
      cases hnode : b.node? n with
      | none =>
          rw [show b.operationsOf n = [] by rw [operationsOf, hnode]; rfl]
          simpa using hset
      | some node =>
          obtain ⟨-, -, -, hset'⟩ := h.flow_node hb hdeps hn hnode hent hs hset
          rwa [operationsOf_eq hnode]
  | cons m path ih =>
      intro left n F τ done hn hchain hent hs hset
      obtain ⟨hedge, hrest⟩ := List.isChain_cons_cons.mp hchain
      obtain ⟨node, hnode, -⟩ := hedge.exists_node
      obtain ⟨τ', hleaves, hs', hset'⟩ := h.flow_node hb hdeps hn hnode hent hs hset
      have hm : b.Reachable m := by
        obtain ⟨e, he, hpath⟩ := hn
        exact ⟨e, he, hpath.tail hedge⟩
      have hent' := h.enters_along hb hn hedge hleaves
      have hset'' := ih hm hrest hent' hs' hset'
      rw [operationsAlong_cons, operationsOf_eq hnode, List.foldl_append, ← List.append_assoc]
      exact hset''

/-! ## The analysis of a converted body -/

/-- On entry a cell holds at most the name of what it renames. -/
theorem sourced_entry (h : b.arena.Changes r.body.arena) :
    r.body.Sourced (entryCells r.arena b.inflowOnEntry) := by
  intro w names hw x hx
  refine ⟨w, .refl, ?_⟩
  -- names of the body are names of its conversion
  have hkept : ∀ {id}, x ∈ b.inflowOnEntry id → r.body.ownName? id = some x := by
    intro id hid
    obtain ⟨o, ho, hname⟩ := Option.bind_eq_some_iff.mp hid
    obtain ⟨o', ho', halike⟩ := Arena.Changes.alike h ho
    rw [ownName?, ho']
    exact (variableName?_of_unbound halike.kind).trans hname
  have hlink : (r.arena.get? w).bind (·.ssa) = r.arena.link? w := rfl
  unfold entryCells at hw
  rw [hlink] at hw
  split at hw
  · next hl =>
      cases hw
      exact (variableName?_of_origin r.body (show origin r.arena w = w by rw [origin, hl])).trans
        (hkept hx)
  · next hl =>
      cases hw
      exact (variableName?_of_origin r.body (origin_variant hl)).trans (hkept hx)
  · next hl =>
      cases hw
      exact (variableName?_of_origin r.body (origin_version hl)).trans (hkept hx)
  · cases hw

/-- The dependencies of the conversion can be computed: it writes references only where the body
does, and there they are bound. -/
theorem recordable (hb : b.Unconverted) (h : Converted b r) (hakin : r.arena.Akin)
    (hrefs : b.BindsReferences) {node' : Node} (hnode' : node' ∈ r.body.nodes.toList)
    {op' : Operation} (hop' : op' ∈ node'.operations) : Recordable r.body.arena op' := by
  intro w hw
  obtain ⟨n, hn⟩ := mem_nodes_iff.mp hnode'
  obtain ⟨node, hnode, hop⟩ := h.erase_operation hb hn hop'
  have hl : (op'.erase r.arena).lvalue? = some (origin r.arena w) := by
    rw [Operation.lvalue?_erase, hw, Option.map_some, nonSsa_eq_origin]
  obtain ⟨p, hp, hssa⟩ := hb.uses hnode _ (Node.mem_operands_of_lvalue hop hl)
  have hp' := h.inv.base.arena.get?_of_ssa hp hssa
  obtain ⟨o, ho⟩ := Arena.known_iff.mp (h.known_lvalue hn hop' hw)
  refine ⟨o, ho, fun href hbinds => ?_⟩
  have hkind : o.isReference = p.isReference := isReference_origin hakin ho hp'
  have := hrefs node (Array.mem_of_getElem? hnode) _ hop _ hl p hp (hkind ▸ href)
  rw [bindsReference_of_shape (Operation.shape_erase r.arena op'), hbinds] at this
  cases this

end Converted

/-- The conversion of a body succeeds and its dependencies can be computed, and they cover all data
flow of the body: whatever has flowed along some path into a variable written on it is, but for the
variable itself, in the set of the variable.  The arena may hold renamings already; in whatever way
it was made, they are akin to what they rename (`Arena.akin_after`). -/
theorem toSsa_dependencies {b : Body} (hb : b.Unconverted) (hakin : b.arena.Akin)
    (hrefs : b.BindsReferences) :
    ∃ b' deps, b.toSsa = (.ok (), b') ∧ b'.dependencies = .ok deps ∧
      ∀ path, b.IsPath path → ∀ op ∈ b.operationsAlong path, ∀ {y name},
        op.lvalue? = some y → b.ownName? y = some name →
        ∀ x ∈ b.inflowAlong path y, x ≠ name → deps.Has name x := by
  obtain ⟨r, hr, h⟩ := toSsa_spec hb
  have hchanges : b.arena.Changes r.body.arena := (converts_toSsa hr).arena
  obtain ⟨flow, hflow⟩ := flow_total fun node hnode op hop =>
    h.recordable hb (hakin.changes hchanges) hrefs hnode hop
  obtain ⟨deps, hdeps⟩ := dependencies_total hflow
  refine ⟨_, deps, hr, hdeps, ?_⟩
  rintro path ⟨e, rest, he, rfl, hchain⟩
  have hnone : b.Settled deps [] b.inflowOnEntry := fun op hop => absurd hop List.not_mem_nil
  exact h.flow_path hb hdeps ⟨e, he, .refl⟩ hchain (h.enters_entry hb he b.inflowOnEntry)
    (Converted.sourced_entry hchanges) hnone

/-- A loop in which the third variable reaches the first only in the second round. -/
def relayed : Body where
  arena :=
    let number : Ty := .elementary "uint256"
    { slots := #[⟨⟨.localVar "x", number, none⟩, none, none, 0⟩,
        ⟨⟨.localVar "y", number, none⟩, none, none, 0⟩,
        ⟨⟨.stateVar "z", number, none⟩, none, none, 0⟩]
      references := 0 }
  nodes := #[⟨⟨0⟩, [], [], .goto ⟨1⟩, none⟩,
    ⟨⟨1⟩, [], [], .branch ⟨0⟩ ⟨2⟩ ⟨3⟩, none⟩,
    ⟨⟨2⟩, [], [.assignment ⟨0⟩ ⟨1⟩ (.elementary "uint256"),
      .assignment ⟨1⟩ ⟨2⟩ (.elementary "uint256")], .goto ⟨1⟩, none⟩,
    ⟨⟨3⟩, [], [], .ret [⟨0⟩], none⟩]
  entry := some ⟨0⟩
  parameters := [⟨0⟩]
  returns := []
  isSsa := false

/-- Two rounds of the loop. -/
theorem relayed_dependencies :
    relayed.Unconverted ∧ relayed.arena.Akin ∧ relayed.BindsReferences ∧
      "z" ∈ relayed.inflowAlong [⟨0⟩, ⟨1⟩, ⟨2⟩, ⟨1⟩, ⟨2⟩, ⟨1⟩, ⟨3⟩] ⟨0⟩ ∧
      ∃ b' deps, relayed.toSsa = (.ok (), b') ∧ b'.dependencies = .ok deps ∧ deps.Has "x" "z" := by
  have hunconverted : relayed.Unconverted := by decide
  -- three requests make the arena
  have hakin : relayed.arena.Akin := Arena.akin_after
    [.localVar "x" (.elementary "uint256"), .localVar "y" (.elementary "uint256"),
      .stateVar "z" (.elementary "uint256")]
  have hrefs : relayed.BindsReferences := by unfold BindsReferences; decide
  have hflow : "z" ∈ relayed.inflowAlong [⟨0⟩, ⟨1⟩, ⟨2⟩, ⟨1⟩, ⟨2⟩, ⟨1⟩, ⟨3⟩] ⟨0⟩ :=
    ⟨⟨1⟩, List.mem_singleton.mpr rfl, ⟨2⟩, List.mem_singleton.mpr rfl, rfl⟩
  refine ⟨hunconverted, hakin, hrefs, hflow, ?_⟩
  obtain ⟨b', deps, hb', hdeps, h⟩ := toSsa_dependencies hunconverted hakin hrefs
  refine ⟨b', deps, hb', hdeps, ?_⟩
  exact h _ ⟨⟨0⟩, _, rfl, rfl, by decide⟩ (.assignment ⟨0⟩ ⟨1⟩ (.elementary "uint256")) (by decide)
    rfl rfl "z" hflow (by decide)

end ContractCalls.Body
