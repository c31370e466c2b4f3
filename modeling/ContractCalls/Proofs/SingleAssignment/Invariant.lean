/-
# The invariant of the conversion

Between two steps of the conversion of a body `b` the state is described from
three sides.

* `Base`: the nodes fall into those that are filled, the one being renamed, if
  there is one, and the rest, which is as it was in `b`.  A filled node is `b`'s
  node with its operands renamed; a sealed node has only filled predecessors;
  a recorded value is a version of its variable; a reference is bound as it was
  in `b`, or as the reference that it renames.
* `Merges`: every phi merges a variable where at least two paths meet.  It is
  complete, or waits for its node to be sealed, or is one of the open phis
  whose incoming values are just being collected.
* `Sites`: every version is written in at most one place.

Each change the conversion makes to its state has a lemma that says which of
the three it keeps, and that the state grows.
-/
import ContractCalls.Proofs.Body.WellFormed
import ContractCalls.Proofs.SingleAssignment.Growth

namespace ContractCalls.Body

/-- A body before its conversion: nothing in it is in single-assignment form yet, what it uses is
there, nodes carry their positions, and no path leads back to the entry. -/
structure Unconverted (b : Body) : Prop where
  isSsa : b.isSsa = false
  numbered : b.Numbered
  phis : ∀ {n node}, b.node? n = some node → node.phis = []
  coherent : b.arena.Coherent
  uses : ∀ {n node}, b.node? n = some node → ∀ id ∈ node.operands,
    ∃ o, b.arena.get? id = some o ∧ o.ssa = none
  entry : ∀ {e p}, b.entry = some e → b.Reachable p → ¬ b.Edge p e

/-- A body as it is lowered can be converted. -/
theorem WellFormed.unconverted {b : Body} (h : b.WellFormed) : b.Unconverted where
  isSsa := h.isSsa
  numbered := h.numbered
  phis := h.phis
  coherent := h.arena.coherent
  uses hn id hid := by
    obtain ⟨o, ho⟩ := Arena.known_iff.mp (h.operands hn id hid)
    exact ⟨o, ho, h.arena.ssa ho⟩
  entry {e p} he _ := by
    obtain rfl := Option.some.inj (h.entry.symm.trans he)
    exact h.noWayBack p

/-- A place of a body that can write an operand. -/
inductive Site where
  | phi (node : NodeId) (position : Nat)
  | operation (node : NodeId) (position : Nat)
deriving DecidableEq, Repr

/-- The place writes the operand. -/
def Writes (b : Body) : Site → OperandId → Prop
  | .phi n i, w => ∃ node φ, b.node? n = some node ∧ node.phis[i]? = some φ ∧ φ.lvalue = w
  | .operation n i, w =>
      ∃ node op, b.node? n = some node ∧ node.operations[i]? = some op ∧ op.lvalue? = some w

namespace Renaming

/-! ## Nodes and their predecessors -/

/-- The node is filled, or is the one being renamed. -/
def Active (c : Option NodeId) (r : Renaming) (n : NodeId) : Prop := n ∈ r.filled ∨ c = some n

/-- A filled node is the node of the body with its operands renamed. -/
def Filled (b : Body) (r : Renaming) (n : NodeId) : Prop :=
  ∀ node, b.node? n = some node → ∃ ops cur f,
    r.code? n =
      some { node with operations := ops, terminator := node.terminator.mapReads f } ∧
    Renames r n (fun _ => none) node.operations ops cur ∧ Tracks r n cur ∧
    ∀ id ∈ node.terminator.reads, ReadsAs r n cur id (f id)

theorem Filled.grows {X : Set (NodeId × Nat)} {b : Body} {r r' : Renaming} {n : NodeId}
    (h : Filled b r n) (g : Grows X r r') : Filled b r' n := by
  intro node hnode
  obtain ⟨ops, cur, f, hcode, hren, htr, hterm⟩ := h node hnode
  exact ⟨ops, cur, f, (g.code n).trans hcode, g.keeps.renames hren, g.tracks htr,
    fun id hid => g.keeps.readsAs (hterm id hid)⟩

/-- A filled node stays so if its code and what is recorded for it stay. -/
theorem Filled.keeps {b : Body} {r r' : Renaming} {n : NodeId} (h : Filled b r n)
    (k : Keeps r r') (hcode : r'.code? n = r.code? n)
    (hvalue : ∀ v, r'.valueAt? n v = r.valueAt? n v) : Filled b r' n := by
  intro node hnode
  obtain ⟨ops, cur, f, hc, hren, htr, hterm⟩ := h node hnode
  exact ⟨ops, cur, f, hcode.trans hc, k.renames hren, k.tracks hvalue htr,
    fun id hid => k.readsAs (hterm id hid)⟩

/-- The state of the nodes, of the arena and of the recorded values. -/
structure Base (b : Body) (c : Option NodeId) (r : Renaming) : Prop where
  preds : r.preds = (b.startRenaming b.reversePostorder).preds
  size : r.body.nodes.size = b.nodes.size
  entry : r.body.entry = b.entry
  coherent : r.arena.Coherent
  arena : b.arena.Extends r.arena
  order : ∀ {n}, Active c r n → n ∈ b.reversePostorder
  /-- The node being renamed is empty meanwhile. -/
  current : ∀ {n}, c = some n → n ∉ r.filled ∧
    r.code? n = (b.node? n).map fun node => { node with operations := [], terminator := .open_ }
  ready : ∀ n ∈ r.sealed_, ∀ p ∈ r.predsOf n, p ∈ r.filled
  /-- Where fewer than two paths meet there is nothing to wait for. -/
  few : ∀ {n}, Active c r n → (r.predsOf n).length < 2 → n ∈ r.sealed_
  untouched : ∀ {n}, ¬ Active c r n → r.code? n = b.node? n ∧ (∀ i, r.phi? n i = none) ∧
    ∀ v, r.valueAt? n v = none
  filled : ∀ n ∈ r.filled, Filled b r n
  value : ∀ {n v w}, r.valueAt? n v = some w →
    r.arena.IsVariable v ∧ ∃ k, r.arena.link? w = some (.version v k)
  /-- A binding was there in the body, or mirrors one. -/
  aliases : ∀ {x t}, r.arena.PointsTo x t → b.arena.PointsTo x t ∨ r.arena.Mirrors x t

/-- Growth keeps the base, if sealed nodes are ready, phis and values only come to active nodes,
and new values are versions. -/
theorem Base.grows {X : Set (NodeId × Nat)} {b : Body} {c : Option NodeId} {r r' : Renaming}
    (h : Base b c r) (g : Grows X r r') (hcoh : r'.arena.Coherent)
    (hsealed : ∀ n ∈ r'.sealed_, n ∈ r.sealed_ ∨ ∀ p ∈ r.predsOf n, p ∈ r.filled)
    (hphi : ∀ n i, r.phi? n i = none → Active c r n ∨ r'.phi? n i = none)
    (hvalue : ∀ n v w, r'.valueAt? n v = some w → r.valueAt? n v = some w ∨
      Active c r n ∧ r'.arena.IsVariable v ∧ ∃ k, r'.arena.link? w = some (.version v k)) :
    Base b c r' where
  preds := g.preds.trans h.preds
  size := g.size.trans h.size
  entry := g.entry.trans h.entry
  coherent := hcoh
  arena := h.arena.trans g.arena.toExtends
  order ha := h.order (by rwa [Active, g.filled] at ha)
  current hc := by
    rw [g.filled, g.code]
    exact h.current hc
  ready n hn p hp := by
    rw [g.predsOf] at hp
    rw [g.filled]
    rcases hsealed n hn with hn | hn
    · exact h.ready n hn p hp
    · exact hn p hp
  few ha hp := by
    rw [g.predsOf] at hp
    exact g.sealed_ _ (h.few (by rwa [Active, g.filled] at ha) hp)
  untouched {n} ha := by
    have hn : ¬ Active c r n := by rwa [Active, g.filled] at ha
    obtain ⟨hcode, hphis, hvalues⟩ := h.untouched hn
    refine ⟨(g.code n).trans hcode, fun i => ?_, fun v => ?_⟩
    · exact (hphi n i (hphis i)).resolve_left hn
    · cases hv : r'.valueAt? n v with
      | none => rfl
      | some w =>
          rcases hvalue n v w hv with hw | hw
          · simp [hvalues v] at hw
          · exact absurd hw.1 hn
  filled n hn := by
    rw [g.filled] at hn
    exact (h.filled n hn).grows g
  value {n v w} hv := by
    rcases hvalue n v w hv with hw | hw
    · obtain ⟨hvar, k, hk⟩ := h.value hw
      exact ⟨g.arena.isVariable hvar, k, g.arena.link? hk⟩
    · exact hw.2
  aliases hx := (h.aliases (g.arena.bound hx)).imp id g.arena.mirrors

theorem Base.node?_iff {b : Body} {c : Option NodeId} {r : Renaming} (h : Base b c r)
    {n : NodeId} : r.code? n ≠ none ↔ b.node? n ≠ none := by
  simp [code?, node?, h.size]

theorem predsOf_start (b : Body) (n : NodeId) :
    (b.startRenaming b.reversePostorder).predsOf n =
      if n.index < b.nodes.size then
        (b.predecessorsOf n).filter b.reversePostorder.contains
      else [] := by
  simp only [predsOf, startRenaming, predecessors, List.map_map, List.getElem?_map]
  split <;> simp [*]

theorem Base.predsOf_eq {b : Body} {c : Option NodeId} {r : Renaming} (h : Base b c r)
    (n : NodeId) : r.predsOf n = (b.startRenaming b.reversePostorder).predsOf n := by
  simp [predsOf, h.preds]

/-- The predecessors of a node are the reachable nodes that lead to it. -/
theorem Base.mem_predsOf {b : Body} (hb : b.Unconverted) {c : Option NodeId} {r : Renaming}
    (h : Base b c r) {p n : NodeId} :
    p ∈ r.predsOf n ↔ b.node? n ≠ none ∧ b.Edge p n ∧ b.Reachable p := by
  have hn : b.node? n ≠ none ↔ n.index < b.nodes.size := by simp [node?]
  rw [h.predsOf_eq, predsOf_start, hn]
  split
  · simp [*, mem_predecessorsOf hb.numbered, mem_reversePostorder]
  · simp [*]

theorem Base.predsOf_nodup {b : Body} {c : Option NodeId} {r : Renaming} (h : Base b c r)
    (n : NodeId) : (r.predsOf n).Nodup := by
  rw [h.predsOf_eq, predsOf_start]
  split
  · exact (predecessorsOf_nodup b n).filter _
  · exact List.nodup_nil

/-- A predecessor exists. -/
theorem Base.code?_pred {b : Body} (hb : b.Unconverted) {c : Option NodeId} {r : Renaming}
    (h : Base b c r) {p n : NodeId} (hp : p ∈ r.predsOf n) : r.code? p ≠ none := by
  obtain ⟨-, hedge, -⟩ := (h.mem_predsOf hb).mp hp
  obtain ⟨node, hnode, -⟩ := hedge.exists_node
  rw [h.node?_iff, hnode]
  exact Option.some_ne_none node

/-! ## Phis and places of writing -/

/-- The phi has one incoming value for each predecessor, in their order, and it is the one
recorded there. -/
structure Complete (r : Renaming) (n : NodeId) (φ : Phi) : Prop where
  preds : φ.incoming.map Prod.fst = r.predsOf n
  values : ∀ p ∈ φ.incoming, p.1 ∈ r.filled ∧ r.valueAt? p.1 φ.base = some p.2

theorem Complete.grows {X : Set (NodeId × Nat)} {r r' : Renaming} {n : NodeId} {φ : Phi}
    (h : Complete r n φ) (g : Grows X r r') : Complete r' n φ where
  preds := h.preds.trans (g.predsOf n).symm
  values p hp := ⟨g.filled ▸ (h.values p hp).1, g.value (h.values p hp).2⟩

/-- The state of the phis.  Those at the positions in `E` are open. -/
structure Merges (E : Set (NodeId × Nat)) (r : Renaming) : Prop where
  base : ∀ {n i φ}, r.phi? n i = some φ → r.arena.IsVariable φ.base
  version : ∀ {n i φ}, r.phi? n i = some φ →
    ∃ k, r.arena.link? φ.lvalue = some (.version φ.base (k + 1))
  joins : ∀ {n i φ}, r.phi? n i = some φ → 2 ≤ (r.predsOf n).length
  settled : ∀ {n i φ}, r.phi? n i = some φ →
    (n, i) ∈ E ∨ Complete r n φ ∨ (n, φ.base, i) ∈ r.incomplete
  waiting : ∀ {n v i}, (n, v, i) ∈ r.incomplete →
    n ∉ r.sealed_ ∧ ∃ φ, r.phi? n i = some φ ∧ φ.base = v ∧ φ.incoming = []
  nodup : r.incomplete.Nodup
  /-- Phis are open only in sealed nodes. -/
  sealed_ : ∀ {n i}, (n, i) ∈ E → n ∈ r.sealed_

/-- Phis that are the same phis merge as they did, if those that were complete are. -/
theorem Merges.keeps {E : Set (NodeId × Nat)} {r r' : Renaming} (h : Merges E r)
    (k : Keeps r r') (hpreds : r'.preds = r.preds) (hsealed : r'.sealed_ = r.sealed_)
    (hincomplete : r'.incomplete = r.incomplete) (hphi : ∀ n i, r'.phi? n i = r.phi? n i)
    (hcomplete : ∀ {n φ}, Complete r n φ → Complete r' n φ) : Merges E r' where
  base hφ := k.arena.isVariable (h.base (hphi _ _ ▸ hφ))
  version hφ := (h.version (hphi _ _ ▸ hφ)).imp fun _ hk => k.arena.link? hk
  joins hφ := by
    rw [predsOf, hpreds]
    exact h.joins (hphi _ _ ▸ hφ)
  settled hφ := by
    rw [hincomplete]
    exact (h.settled (hphi _ _ ▸ hφ)).imp id (Or.imp hcomplete id)
  waiting hw := by
    rw [hsealed]
    simp only [hphi]
    exact h.waiting (hincomplete ▸ hw)
  nodup := hincomplete ▸ h.nodup
  sealed_ hE := hsealed ▸ h.sealed_ hE

/-- The operations of a node; those of the node being renamed are the ones done so far. -/
def opsAt (c : Option NodeId) (done : List Operation) (r : Renaming) (n : NodeId) :
    List Operation :=
  if c = some n then done else ((r.code? n).map (·.operations)).getD []

/-- The place writes the operand. -/
def WritesAt (c : Option NodeId) (done : List Operation) (r : Renaming) : Site → OperandId → Prop
  | .phi n i, w => ∃ φ, r.phi? n i = some φ ∧ φ.lvalue = w
  | .operation n i, w => ∃ op, (r.opsAt c done n)[i]? = some op ∧ op.lvalue? = some w

/-- What is written is known; a version is written once, and versions on entry never. -/
structure Sites (c : Option NodeId) (done : List Operation) (r : Renaming) : Prop where
  known : ∀ {s w}, r.WritesAt c done s w → r.arena.Known w
  once : ∀ {s s' w base k}, r.WritesAt c done s w → r.WritesAt c done s' w →
    r.arena.link? w = some (.version base k) → s = s'
  entry : ∀ {s w base}, r.WritesAt c done s w → r.arena.link? w ≠ some (.version base 0)

/-- The state of a conversion: `c` is the node being renamed, with the operations `done` so far,
and the phis at the positions in `E` are open. -/
structure Inv (b : Body) (c : Option NodeId) (done : List Operation) (E : Set (NodeId × Nat))
    (r : Renaming) : Prop where
  base : Base b c r
  merges : Merges E r
  sites : Sites c done r

/-- Places that write no more than before still write each version once. -/
theorem Sites.mono {c c' : Option NodeId} {done done' : List Operation} {r r' : Renaming}
    (h : Sites c done r) (ha : r.arena.Extends r'.arena)
    (hw : ∀ s w, r'.WritesAt c' done' s w → r.WritesAt c done s w) : Sites c' done' r' where
  known hs := ha.known (h.known (hw _ _ hs))
  once hs hs' hl := by
    rw [ha.link?_eq (h.known (hw _ _ hs))] at hl
    exact h.once (hw _ _ hs) (hw _ _ hs') hl
  entry hs := by
    rw [ha.link?_eq (h.known (hw _ _ hs))]
    exact h.entry (hw _ _ hs)

/-- The operand may be written: it is known, and if it is a version, it is not one on entry and
nothing wrote it. -/
structure Writable (c : Option NodeId) (done : List Operation) (r : Renaming) (w : OperandId) :
    Prop where
  known : r.arena.Known w
  fresh : ∀ {base k}, r.arena.link? w = some (.version base k) →
    k ≠ 0 ∧ ∀ s, ¬ r.WritesAt c done s w

theorem Writable.of_version {c : Option NodeId} {done : List Operation} {r : Renaming}
    {v w : OperandId} {k : Nat} (hk : r.arena.link? w = some (.version v (k + 1)))
    (hfresh : ∀ s, ¬ r.WritesAt c done s w) : Writable c done r w where
  known := Arena.known_of_link? hk
  fresh hl := by
    obtain ⟨rfl, rfl⟩ : v = _ ∧ k + 1 = _ := by simpa using hk.symm.trans hl
    exact ⟨Nat.succ_ne_zero k, hfresh⟩

/-- One more place may write what is writable. -/
theorem Sites.extend {c c' : Option NodeId} {done done' : List Operation} {r r' : Renaming}
    (h : Sites c done r) (ha : r'.arena = r.arena) (site : Site) {fresh : OperandId}
    (hfresh : Writable c done r fresh)
    (hw : ∀ s w, r'.WritesAt c' done' s w → r.WritesAt c done s w ∨ s = site ∧ w = fresh) :
    Sites c' done' r' where
  known hs := by
    rw [ha]
    rcases hw _ _ hs with hs | ⟨-, rfl⟩
    · exact h.known hs
    · exact hfresh.known
  once {s s' w base k} hs hs' hl := by
    rw [ha] at hl
    rcases hw _ _ hs with h₁ | ⟨rfl, rfl⟩
    · rcases hw _ _ hs' with h₂ | ⟨-, rfl⟩
      · exact h.once h₁ h₂ hl
      · exact absurd h₁ ((hfresh.fresh hl).2 s)
    · rcases hw _ _ hs' with h₂ | ⟨rfl, -⟩
      · exact absurd h₂ ((hfresh.fresh hl).2 s')
      · rfl
  entry {s w base} hs hl := by
    rw [ha] at hl
    rcases hw _ _ hs with hs | ⟨-, rfl⟩
    · exact h.entry hs hl
    · exact (hfresh.fresh hl).1 rfl

/-! ## Changes of the state -/

section Changes

variable {b : Body} {c : Option NodeId} {done : List Operation} {E : Set (NodeId × Nat)}
  {r : Renaming}

theorem grows_withArena {a : Arena} (h : r.arena.Adds a) : Grows ∅ r (r.withArena a) where
  preds := rfl
  filled := rfl
  sealed_ _ h := h
  size := rfl
  entry := rfl
  arena := h
  code _ := rfl
  phi h := ⟨_, h, rfl, rfl, fun _ => rfl⟩
  value h := h
  late h hnone := absurd (h.symm.trans hnone) (Option.some_ne_none _)

theorem keeps_withArena {a : Arena} (h : r.arena.Extends a) : Keeps r (r.withArena a) where
  arena := h
  startsAs hs := by
    cases hs with
    | phi hφ hb => exact .phi hφ hb
    | pred hp hf hv => exact .pred hp hf hv
    | entry hp he => exact .entry hp (h.entryVersion he)

/-- A larger arena, in which a new binding mirrors one. -/
theorem Inv.withBindings (h : Inv b c done E r) {a : Arena} (ha : a.Coherent)
    (hext : r.arena.Extends a)
    (hbound : ∀ {x t}, a.PointsTo x t → r.arena.PointsTo x t ∨ a.Mirrors x t) :
    Inv b c done E (r.withArena a) := by
  have k := keeps_withArena hext
  refine ⟨?_, ?_, ?_⟩
  · exact
      { h.base with
        coherent := ha
        arena := h.base.arena.trans hext
        filled := fun n hn => (h.base.filled n hn).keeps k rfl fun _ => rfl
        value := fun hv => (h.base.value hv).imp (hext.isVariable ·)
          fun hw => hw.imp fun _ hk => hext.link? hk
        aliases := fun hx => (hbound hx).elim
          (fun hold => (h.base.aliases hold).imp id hext.mirrors) Or.inr }
  · exact h.merges.keeps k rfl rfl rfl (fun _ _ => rfl) fun hc => ⟨hc.preds, hc.values⟩
  · exact h.sites.mono hext fun s w hs => by cases s <;> exact hs

/-- A larger arena without new bindings. -/
theorem Inv.withArena (h : Inv b c done E r) {a : Arena} (ha : a.Coherent)
    (hadds : r.arena.Adds a) : Inv b c done E (r.withArena a) :=
  h.withBindings ha hadds.toExtends fun hx => Or.inl (hadds.bound hx)

/-- Recording a value again, or one its node starts with. -/
theorem Inv.define (h : Inv b c done E r) {n : NodeId} {v w : OperandId} (hn : Active c r n)
    (hv : r.arena.IsVariable v) (hw : ∃ k, r.arena.link? w = some (.version v k))
    (hvalue : r.valueAt? n v = some w ∨ r.valueAt? n v = none ∧ StartsAs r n v w) :
    Inv b c done E (r.define n v w) ∧ Grows ∅ r (r.define n v w) ∧
      (r.define n v w).valueAt? n v = some w := by
  have hkeep : ∀ {m u x}, r.valueAt? m u = some x → (r.define n v w).valueAt? m u = some x := by
    intro m u x hx
    rw [valueAt?_define]
    split
    · obtain ⟨rfl, rfl⟩ := ‹n = m ∧ v = u›
      rcases hvalue with hvw | ⟨hnone, -⟩
      · exact hvw.symm.trans hx
      · simp [hnone] at hx
    · exact hx
  have hstart : ∀ {m u x}, StartsAs r m u x → StartsAs (r.define n v w) m u x := by
    intro m u x hx
    cases hx with
    | phi hφ hb => exact .phi hφ hb
    | pred hp hf hv => exact .pred hp hf (hkeep hv)
    | entry hp he => exact .entry hp he
  have g : Grows ∅ r (r.define n v w) :=
    { preds := rfl, filled := rfl, sealed_ := fun _ hn => hn, size := rfl, entry := rfl, arena := .refl _
      code := fun _ => rfl, phi := fun hφ => ⟨_, hφ, rfl, rfl, fun _ => rfl⟩
      value := hkeep
      late := by
        intro m u x hx hnone
        rw [valueAt?_define] at hx
        split at hx
        · obtain ⟨rfl, rfl⟩ := ‹n = m ∧ v = u›
          obtain rfl := Option.some.inj hx
          rcases hvalue with hvw | ⟨-, hs⟩
          · simp [hnone] at hvw
          · exact hstart hs
        · simp [hnone] at hx }
  refine ⟨⟨?_, ?_, ?_⟩, g, by simp [valueAt?_define]⟩
  · refine h.base.grows g h.base.coherent (fun _ hn => Or.inl hn) (fun _ _ hn => Or.inr hn) ?_
    intro m u x hx
    rw [valueAt?_define] at hx
    split at hx
    · obtain ⟨rfl, rfl⟩ := ‹n = m ∧ v = u›
      obtain rfl := Option.some.inj hx
      exact Or.inr ⟨hn, hv, hw⟩
    · exact Or.inl hx
  · exact h.merges.keeps g.keeps rfl rfl rfl (fun _ _ => rfl) (·.grows g)
  · exact h.sites.mono (.refl _) fun s x hs => by cases s <;> exact hs

/-- The conversion with a phi that waits for its node to be sealed. -/
def withWaiting (r : Renaming) (n : NodeId) (φ : Phi) : Renaming :=
  { r.withPhi n φ with incomplete := r.incomplete ++ [(n, φ.base, r.phiCount n)] }

theorem phi?_phiCount (r : Renaming) (n : NodeId) : r.phi? n (r.phiCount n) = none := by
  cases h : r.phi? n (r.phiCount n) with
  | none => rfl
  | some φ => exact absurd (phi?_lt h) (Nat.lt_irrefl _)

theorem grows_withPhi {n : NodeId} (hn : r.code? n ≠ none) (φ : Phi) :
    Grows ∅ r (r.withPhi n φ) where
  preds := rfl
  filled := rfl
  sealed_ _ h := h
  size := by simp [Renaming.withPhi]
  entry := rfl
  arena := .refl _
  code m := code?_withPhi r n m φ
  phi {m i ψ} h := by
    refine ⟨ψ, ?_, rfl, rfl, fun _ => rfl⟩
    rw [phi?_withPhi hn, if_neg, h]
    rintro ⟨rfl, rfl⟩
    simp [phi?_phiCount] at h
  value h := h
  late h hnone := by simp_all

/-- Which phis wait is seen by no other view. -/
theorem grows_incomplete (l : List (NodeId × OperandId × Nat)) :
    Grows ∅ r { r with incomplete := l } where
  preds := rfl
  filled := rfl
  sealed_ _ h := h
  size := rfl
  entry := rfl
  arena := .refl _
  code _ := rfl
  phi h := ⟨_, h, rfl, rfl, fun _ => rfl⟩
  value h := h
  late h hnone := absurd (h.symm.trans hnone) (Option.some_ne_none _)

/-- What a new phi needs: a join, and a version that nothing wrote. -/
structure Mergeable (c : Option NodeId) (done : List Operation) (r : Renaming) (n : NodeId)
    (v w : OperandId) : Prop where
  code : r.code? n ≠ none
  active : Active c r n
  joins : 2 ≤ (r.predsOf n).length
  base : r.arena.IsVariable v
  version : ∃ k, r.arena.link? w = some (.version v (k + 1))
  fresh : ∀ s, ¬ r.WritesAt c done s w

/-- Every phi is the new one or was there before. -/
theorem Mergeable.phi_withPhi {n : NodeId} {v w : OperandId} (m : Mergeable c done r n v w)
    {l : NodeId} {i : Nat} {φ : Phi} (hφ : (r.withPhi n ⟨w, v, []⟩).phi? l i = some φ) :
    (l = n ∧ i = r.phiCount n ∧ φ = ⟨w, v, []⟩) ∨ r.phi? l i = some φ := by
  rw [phi?_withPhi m.code] at hφ
  split at hφ
  · obtain ⟨rfl, rfl⟩ := ‹n = l ∧ i = r.phiCount n›
    exact Or.inl ⟨rfl, rfl, (Option.some.inj hφ).symm⟩
  · exact Or.inr hφ

/-- Every phi merges a variable into a version of it, where paths join. -/
theorem Mergeable.merges_withPhi {n : NodeId} {v w : OperandId} (m : Mergeable c done r n v w)
    (h : Inv b c done E r) {l : NodeId} {i : Nat} {φ : Phi}
    (hφ : (r.withPhi n ⟨w, v, []⟩).phi? l i = some φ) :
    r.arena.IsVariable φ.base ∧ (∃ k, r.arena.link? φ.lvalue = some (.version φ.base (k + 1))) ∧
      2 ≤ (r.predsOf l).length := by
  rcases m.phi_withPhi hφ with ⟨rfl, -, rfl⟩ | hφ
  · exact ⟨m.base, m.version, m.joins⟩
  · exact ⟨h.merges.base hφ, h.merges.version hφ, h.merges.joins hφ⟩

theorem Mergeable.base_withPhi {n : NodeId} {v w : OperandId} (m : Mergeable c done r n v w)
    (h : Inv b c done E r) : Base b c (r.withPhi n ⟨w, v, []⟩) := by
  refine h.base.grows (grows_withPhi m.code _) h.base.coherent (fun _ hn => Or.inl hn) ?_
    fun _ _ _ hv => Or.inl hv
  intro l i hnone
  rw [phi?_withPhi m.code]
  split
  · obtain ⟨rfl, -⟩ := ‹n = l ∧ i = r.phiCount n›
    exact Or.inl m.active
  · exact Or.inr hnone

theorem Mergeable.sites_withPhi {n : NodeId} {v w : OperandId} (m : Mergeable c done r n v w)
    (h : Inv b c done E r) : Sites c done (r.withPhi n ⟨w, v, []⟩) := by
  obtain ⟨k, hk⟩ := m.version
  refine h.sites.extend rfl (.phi n (r.phiCount n)) (.of_version hk m.fresh) ?_
  intro s x hs
  cases s with
  | phi l i =>
      obtain ⟨φ, hφ, hx⟩ := hs
      rcases m.phi_withPhi hφ with ⟨rfl, rfl, rfl⟩ | hφ
      · exact Or.inr ⟨rfl, hx.symm⟩
      · exact Or.inl ⟨φ, hφ, hx⟩
  | operation l i =>
      obtain ⟨op, hop, hx⟩ := hs
      simp only [opsAt, code?_withPhi] at hop
      exact Or.inl ⟨op, hop, hx⟩

/-- A phi in a sealed node is open at first. -/
theorem Inv.pushOpen (h : Inv b c done E r) {n : NodeId} {v w : OperandId}
    (m : Mergeable c done r n v w) (hsealed : n ∈ r.sealed_) :
    Inv b c done (insert (n, r.phiCount n) E) (r.withPhi n ⟨w, v, []⟩) := by
  have g := grows_withPhi m.code ⟨w, v, []⟩
  refine ⟨m.base_withPhi h, ⟨?_, ?_, ?_, ?_, ?_, h.merges.nodup, ?_⟩, m.sites_withPhi h⟩
  · exact fun hφ => (m.merges_withPhi h hφ).1
  · exact fun hφ => (m.merges_withPhi h hφ).2.1
  · exact fun hφ => (m.merges_withPhi h hφ).2.2
  · intro l i φ hφ
    rcases m.phi_withPhi hφ with ⟨rfl, rfl, -⟩ | hφ
    · exact Or.inl (Set.mem_insert _ _)
    · exact (h.merges.settled hφ).imp (Set.mem_insert_of_mem _) (Or.imp (·.grows g) id)
  · intro l u i hw
    obtain ⟨hs, φ, hφ, hφ'⟩ := h.merges.waiting hw
    obtain ⟨φ', h', -, -, he⟩ := g.phi hφ
    obtain rfl := he (Set.notMem_empty _)
    exact ⟨hs, φ', h', hφ'⟩
  · intro l i hl
    rcases Set.mem_insert_iff.mp hl with hl | hl
    · obtain ⟨rfl, -⟩ := Prod.mk.inj hl
      exact hsealed
    · exact h.merges.sealed_ hl

/-- A phi in a node that is not sealed waits. -/
theorem Inv.pushWaiting (h : Inv b c done E r) {n : NodeId} {v w : OperandId}
    (m : Mergeable c done r n v w) (hsealed : n ∉ r.sealed_) :
    Inv b c done E (r.withWaiting n ⟨w, v, []⟩) ∧ Grows ∅ r (r.withWaiting n ⟨w, v, []⟩) := by
  have g₁ := grows_withPhi m.code ⟨w, v, []⟩
  have g₂ : Grows ∅ (r.withPhi n ⟨w, v, []⟩) (r.withWaiting n ⟨w, v, []⟩) := grows_incomplete _
  have g := g₁.trans_empty g₂
  have hbase : Base b c (r.withWaiting n ⟨w, v, []⟩) :=
    (m.base_withPhi h).grows g₂ h.base.coherent (fun _ hn => Or.inl hn) (fun _ _ hn => Or.inr hn)
      fun _ _ _ hv => Or.inl hv
  have hsites : Sites c done (r.withWaiting n ⟨w, v, []⟩) :=
    (m.sites_withPhi h).mono (.refl _) fun s x hs => by cases s <;> exact hs
  refine ⟨⟨hbase, ⟨?_, ?_, ?_, ?_, ?_, ?_, h.merges.sealed_⟩, hsites⟩, g⟩
  · exact fun hφ => (m.merges_withPhi h hφ).1
  · exact fun hφ => (m.merges_withPhi h hφ).2.1
  · exact fun hφ => (m.merges_withPhi h hφ).2.2
  · intro l i φ hφ
    rcases m.phi_withPhi hφ with ⟨rfl, rfl, rfl⟩ | hφ
    · exact Or.inr (Or.inr (List.mem_append_right _ List.mem_cons_self))
    · exact (h.merges.settled hφ).imp id (Or.imp (·.grows g) (List.mem_append_left _))
  · intro l u i hw
    rcases List.mem_append.mp hw with hw | hw
    · obtain ⟨hs, φ, hφ, hφ'⟩ := h.merges.waiting hw
      obtain ⟨φ', h', -, -, he⟩ := g.phi hφ
      obtain rfl := he (Set.notMem_empty _)
      exact ⟨hs, φ', h', hφ'⟩
    · simp only [List.mem_singleton, Prod.mk.injEq] at hw
      obtain ⟨rfl, rfl, rfl⟩ := hw
      refine ⟨hsealed, ⟨w, u, []⟩, ?_, rfl, rfl⟩
      show (r.withPhi l ⟨w, u, []⟩).phi? l (r.phiCount l) = _
      rw [phi?_withPhi m.code, if_pos ⟨rfl, rfl⟩]
  · -- an entry that waited before is about a phi that was there before
    refine List.nodup_append.mpr ⟨h.merges.nodup, List.pairwise_singleton _ _, ?_⟩
    rintro x hx y hy rfl
    rw [List.mem_singleton.mp hy] at hx
    obtain ⟨-, φ, hφ, -⟩ := h.merges.waiting hx
    simp [phi?_phiCount] at hφ

/-- An open phi gains an incoming value. -/
theorem Inv.addIncoming (h : Inv b c done E r) {n p : NodeId} {i : Nat} {w : OperandId}
    (hopen : (n, i) ∈ E) :
    Inv b c done E (r.addIncoming n i p w) ∧ Grows {(n, i)} r (r.addIncoming n i p w) := by
  have hcases : ∀ {l j φ}, (r.addIncoming n i p w).phi? l j = some φ →
      (l = n ∧ j = i ∧ ∃ ψ, r.phi? l j = some ψ ∧ φ.lvalue = ψ.lvalue ∧ φ.base = ψ.base) ∨
        r.phi? l j = some φ := by
    intro l j φ hφ
    rw [phi?_addIncoming] at hφ
    split at hφ
    · obtain ⟨rfl, rfl⟩ := ‹n = l ∧ i = j›
      obtain ⟨ψ, hψ, rfl⟩ := Option.map_eq_some_iff.mp hφ
      exact Or.inl ⟨rfl, rfl, ψ, hψ, rfl, rfl⟩
    · exact Or.inr hφ
  have g : Grows {(n, i)} r (r.addIncoming n i p w) :=
    { preds := rfl, filled := rfl, sealed_ := fun _ hn => hn
      size := by simp [Renaming.addIncoming], entry := rfl, arena := .refl _
      code := fun m => code?_addIncoming r n m p i w
      phi := by
        intro l j φ hφ
        rw [phi?_addIncoming, hφ]
        split
        · obtain ⟨rfl, rfl⟩ := ‹n = l ∧ i = j›
          exact ⟨_, rfl, rfl, rfl, fun hx => absurd rfl hx⟩
        · exact ⟨φ, rfl, rfl, rfl, fun _ => rfl⟩
      value := fun hv => hv
      late := fun hv hn => by simp_all }
  refine ⟨⟨?_, ⟨?_, ?_, ?_, ?_, ?_, h.merges.nodup, h.merges.sealed_⟩, ?_⟩, g⟩
  · refine h.base.grows g h.base.coherent (fun _ hn => Or.inl hn) ?_ fun _ _ _ hv => Or.inl hv
    intro l j hnone
    rw [phi?_addIncoming, hnone]
    simp
  · intro l j φ hφ
    rcases hcases hφ with ⟨-, -, ψ, hψ, -, hb⟩ | hφ
    · exact hb ▸ h.merges.base hψ
    · exact h.merges.base hφ
  · intro l j φ hφ
    rcases hcases hφ with ⟨-, -, ψ, hψ, hl, hb⟩ | hφ
    · rw [hl, hb]
      exact h.merges.version hψ
    · exact h.merges.version hφ
  · intro l j φ hφ
    rcases hcases hφ with ⟨-, -, ψ, hψ, -⟩ | hφ
    · exact h.merges.joins hψ
    · exact h.merges.joins hφ
  · intro l j φ hφ
    rcases hcases hφ with ⟨rfl, rfl, -⟩ | hφ
    · exact Or.inl hopen
    · exact (h.merges.settled hφ).imp id (Or.imp (·.grows g) id)
  · intro l u j hw
    obtain ⟨hs, φ, hφ, hb, hi⟩ := h.merges.waiting hw
    refine ⟨hs, φ, ?_, hb, hi⟩
    rw [phi?_addIncoming, if_neg, hφ]
    rintro ⟨rfl, rfl⟩
    exact hs (h.merges.sealed_ hopen)
  · refine h.sites.mono (.refl _) fun s x hs => ?_
    cases s with
    | phi l j =>
        obtain ⟨φ, hφ, hx⟩ := hs
        rcases hcases hφ with ⟨-, -, ψ, hψ, hl, -⟩ | hφ
        · exact ⟨ψ, hψ, hl.symm.trans hx⟩
        · exact ⟨φ, hφ, hx⟩
    | operation l j =>
        obtain ⟨op, hop, hx⟩ := hs
        simp only [opsAt, code?_addIncoming] at hop
        exact ⟨op, hop, hx⟩

/-- A phi that is complete need not be open. -/
theorem Inv.close (h : Inv b c done E r) {E' : Set (NodeId × Nat)} (hsub : E' ⊆ E)
    (hcomplete : ∀ {n i φ}, (n, i) ∈ E → (n, i) ∉ E' → r.phi? n i = some φ → Complete r n φ) :
    Inv b c done E' r := by
  refine ⟨h.base, { h.merges with settled := ?_, sealed_ := fun hn => h.merges.sealed_ (hsub hn) },
    h.sites⟩
  intro n i φ hφ
  rcases h.merges.settled hφ with hE | hrest
  · by_cases hE' : (n, i) ∈ E'
    · exact Or.inl hE'
    · exact Or.inr (Or.inl (hcomplete hE hE' hφ))
  · exact Or.inr hrest

end Changes

end Renaming

end ContractCalls.Body
