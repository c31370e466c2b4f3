/-
# How a conversion grows

A conversion is read through five views: the code of a node, which is the node
without its phis; the phis of a node by position; the recorded value of a
variable at the end of a node; the predecessors; and the arena.  `Grows` says
what reading variables and sealing nodes may do to them: code stays, phis are
added and at most gain incoming values, recorded values stay.

`StartsAs r n v w` says where the version `w` that stands for `v` when control
enters `n` comes from.  `ReadsAs`, `WritesAs` and `Renames` say what it means
for code to be renamed: a read is replaced by the last version written before
it in the node, or else by one that `n` starts with.  All of it survives
growth, and more generally whatever `Keeps` what renamed code refers to, which
is why a node stays renamed once it is.
-/
import ContractCalls.Body.SingleAssignment
import ContractCalls.Proofs.Body.Execution
import ContractCalls.Proofs.Operand.Arena
import Mathlib.Data.Set.Insert

namespace ContractCalls.Body

namespace Renaming

/-! ## Views -/

/-- The operands so far. -/
def arena (r : Renaming) : Arena := r.body.arena

/-- A node without its phis. -/
def code? (r : Renaming) (n : NodeId) : Option Node :=
  (r.body.node? n).map fun node => { node with phis := [] }

/-- A phi of a node. -/
def phi? (r : Renaming) (n : NodeId) (i : Nat) : Option Phi :=
  (r.body.node? n).bind (·.phis[i]?)

/-- The conversion with another arena. -/
def withArena (r : Renaming) (a : Arena) : Renaming := { r with body := { r.body with arena := a } }

/-- The conversion with one more phi in a node. -/
def withPhi (r : Renaming) (n : NodeId) (φ : Phi) : Renaming :=
  { r with body := r.body.modifyNode n fun node => { node with phis := node.phis ++ [φ] } }

/-- The number of phis of a node. -/
def phiCount (r : Renaming) (n : NodeId) : Nat := ((r.body.node? n).map (·.phis.length)).getD 0

theorem valueAt?_define (r : Renaming) (n m : NodeId) (v u w : OperandId) :
    (r.define n v w).valueAt? m u = if n = m ∧ v = u then some w else r.valueAt? m u := by
  have h : ((m, u) == (n, v)) = decide (n = m ∧ v = u) := by
    rw [Bool.eq_iff_iff]
    simp only [beq_iff_eq, Prod.mk.injEq, decide_eq_true_eq]
    exact ⟨fun h => ⟨h.1.symm, h.2.symm⟩, fun h => ⟨h.1.symm, h.2.symm⟩⟩
  simp only [define, valueAt?, List.lookup_cons, h]
  by_cases hc : n = m ∧ v = u
  · simp [hc]
  · simp [hc]

@[simp] theorem code?_define (r : Renaming) (n m : NodeId) (v w : OperandId) :
    (r.define n v w).code? m = r.code? m := rfl

@[simp] theorem phi?_define (r : Renaming) (n m : NodeId) (i : Nat) (v w : OperandId) :
    (r.define n v w).phi? m i = r.phi? m i := rfl

@[simp] theorem arena_define (r : Renaming) (n : NodeId) (v w : OperandId) :
    (r.define n v w).arena = r.arena := rfl

@[simp] theorem predsOf_define (r : Renaming) (n m : NodeId) (v w : OperandId) :
    (r.define n v w).predsOf m = r.predsOf m := rfl

@[simp] theorem code?_withPhi (r : Renaming) (n m : NodeId) (φ : Phi) :
    (r.withPhi n φ).code? m = r.code? m := by
  simp only [code?, withPhi, node?_modifyNode]
  split
  · simp [Option.map_map, Function.comp_def]
  · rfl

@[simp] theorem arena_withPhi (r : Renaming) (n : NodeId) (φ : Phi) :
    (r.withPhi n φ).arena = r.arena := rfl

@[simp] theorem valueAt?_withPhi (r : Renaming) (n m : NodeId) (φ : Phi) (v : OperandId) :
    (r.withPhi n φ).valueAt? m v = r.valueAt? m v := rfl

theorem phi?_lt {r : Renaming} {n : NodeId} {i : Nat} {φ : Phi} (h : r.phi? n i = some φ) :
    i < r.phiCount n := by
  obtain ⟨node, hn, hi⟩ := Option.bind_eq_some_iff.mp h
  simpa [phiCount, hn] using (List.getElem?_eq_some_iff.mp hi).1

/-- The new phi is the last one of its node; the others stay. -/
theorem phi?_withPhi {r : Renaming} {n : NodeId} (hn : r.code? n ≠ none) (φ : Phi) (m : NodeId)
    (i : Nat) :
    (r.withPhi n φ).phi? m i =
      if n = m ∧ i = r.phiCount n then some φ else r.phi? m i := by
  by_cases hm : n = m
  · subst hm
    cases hnode : r.body.node? n with
    | none => simp [code?, hnode] at hn
    | some node =>
        simp only [phi?, withPhi, node?_modifyNode, hnode, phiCount, if_true, Option.map_some,
          Option.bind_some, Option.getD_some, true_and]
        rw [List.getElem?_append]
        split
        · rw [if_neg (by omega)]
        · by_cases hi : i = node.phis.length
          · simp [hi]
          · rw [if_neg hi, List.getElem?_eq_none (by simp; omega),
              List.getElem?_eq_none (by omega)]
  · simp [phi?, withPhi, node?_modifyNode, hm]

@[simp] theorem code?_addIncoming (r : Renaming) (n m p : NodeId) (i : Nat) (w : OperandId) :
    (r.addIncoming n i p w).code? m = r.code? m := by
  simp only [code?, addIncoming, node?_modifyNode]
  split
  · simp [Option.map_map, Function.comp_def]
  · rfl

@[simp] theorem arena_addIncoming (r : Renaming) (n p : NodeId) (i : Nat) (w : OperandId) :
    (r.addIncoming n i p w).arena = r.arena := rfl

@[simp] theorem valueAt?_addIncoming (r : Renaming) (n m p : NodeId) (i : Nat)
    (v w : OperandId) : (r.addIncoming n i p w).valueAt? m v = r.valueAt? m v := rfl

/-- One phi gains an incoming value; the others stay. -/
theorem phi?_addIncoming (r : Renaming) (n m p : NodeId) (i j : Nat) (w : OperandId) :
    (r.addIncoming n i p w).phi? m j =
      if n = m ∧ i = j then
        (r.phi? m j).map fun φ => { φ with incoming := φ.incoming ++ [(p, w)] }
      else r.phi? m j := by
  by_cases hm : n = m
  · subst hm
    simp only [phi?, addIncoming, node?_modifyNode, if_true, true_and]
    cases r.body.node? n with
    | none => simp
    | some node =>
        simp only [Option.map_some, Option.bind_some, List.getElem?_modify]
        by_cases hij : i = j <;> simp [hij]
  · simp [phi?, addIncoming, node?_modifyNode, hm]

/-! ## Values on entry to a node -/

/-- The version stands for the variable when control enters the node: a phi merges it, the only
predecessor ends with it, or the node is where execution starts. -/
inductive StartsAs (r : Renaming) (n : NodeId) (v : OperandId) : OperandId → Prop
  | phi {i : Nat} {φ : Phi} : r.phi? n i = some φ → φ.base = v → StartsAs r n v φ.lvalue
  | pred {p : NodeId} {w : OperandId} : r.predsOf n = [p] → p ∈ r.filled →
      r.valueAt? p v = some w → StartsAs r n v w
  | entry {w : OperandId} : r.predsOf n = [] → r.arena.entryVersion? v = some w →
      StartsAs r n v w

/-! ## Growth -/

/-- What a later state of the conversion has kept of an earlier one.  Only the phis at the
positions in `X` may gain incoming values. -/
structure Grows (X : Set (NodeId × Nat)) (r r' : Renaming) : Prop where
  preds : r'.preds = r.preds
  filled : r'.filled = r.filled
  sealed_ : ∀ n ∈ r.sealed_, n ∈ r'.sealed_
  size : r'.body.nodes.size = r.body.nodes.size
  entry : r'.body.entry = r.body.entry
  arena : r.arena.Adds r'.arena
  code : ∀ n, r'.code? n = r.code? n
  phi : ∀ {n i φ}, r.phi? n i = some φ → ∃ φ', r'.phi? n i = some φ' ∧
    φ'.lvalue = φ.lvalue ∧ φ'.base = φ.base ∧ ((n, i) ∉ X → φ' = φ)
  value : ∀ {n v w}, r.valueAt? n v = some w → r'.valueAt? n v = some w
  /-- A value that is recorded late is the one its node starts with. -/
  late : ∀ {n v w}, r'.valueAt? n v = some w → r.valueAt? n v = none → StartsAs r' n v w

namespace Grows

variable {X Y : Set (NodeId × Nat)} {r r' r'' : Renaming}

theorem refl (X : Set (NodeId × Nat)) (r : Renaming) : Grows X r r where
  preds := rfl
  filled := rfl
  sealed_ _ h := h
  size := rfl
  entry := rfl
  arena := .refl _
  code _ := rfl
  phi h := ⟨_, h, rfl, rfl, fun _ => rfl⟩
  value h := h
  late h hn := by simp [h] at hn

theorem predsOf (g : Grows X r r') (n : NodeId) : r'.predsOf n = r.predsOf n := by
  simp [Renaming.predsOf, g.preds]

theorem startsAs (g : Grows X r r') {n : NodeId} {v w : OperandId} (h : StartsAs r n v w) :
    StartsAs r' n v w := by
  cases h with
  | phi hφ hb =>
      obtain ⟨φ', hφ', hl, hb', -⟩ := g.phi hφ
      exact hl ▸ .phi hφ' (hb'.trans hb)
  | pred hp hf hv => exact .pred ((g.predsOf n).trans hp) (g.filled ▸ hf) (g.value hv)
  | entry hp he => exact .entry ((g.predsOf n).trans hp) (g.arena.entryVersion he)

theorem trans (g : Grows X r r') (g' : Grows Y r' r'') : Grows (X ∪ Y) r r'' where
  preds := g'.preds.trans g.preds
  filled := g'.filled.trans g.filled
  sealed_ n h := g'.sealed_ n (g.sealed_ n h)
  size := g'.size.trans g.size
  entry := g'.entry.trans g.entry
  arena := g.arena.trans g'.arena
  code n := (g'.code n).trans (g.code n)
  phi h := by
    obtain ⟨φ₁, h₁, hl₁, hb₁, he₁⟩ := g.phi h
    obtain ⟨φ₂, h₂, hl₂, hb₂, he₂⟩ := g'.phi h₁
    refine ⟨φ₂, h₂, hl₂.trans hl₁, hb₂.trans hb₁, fun hx => ?_⟩
    rw [he₂ fun hy => hx (Or.inr hy), he₁ fun hy => hx (Or.inl hy)]
  value h := g'.value (g.value h)
  late {n v w} h hn := by
    cases h' : r'.valueAt? n v with
    | none => exact g'.late h h'
    | some u =>
        obtain rfl : u = w := Option.some.inj ((g'.value h').symm.trans h)
        exact g'.startsAs (g.late h' hn)

/-- Positions that were not there before do not count. -/
theorem weaken (g : Grows X r r') (h : ∀ p ∈ X, p ∈ Y ∨ r.phi? p.1 p.2 = none) :
    Grows Y r r' where
  preds := g.preds
  filled := g.filled
  sealed_ := g.sealed_
  size := g.size
  entry := g.entry
  arena := g.arena
  code := g.code
  phi {n i φ} hφ := by
    obtain ⟨φ', hφ', hl, hb, he⟩ := g.phi hφ
    refine ⟨φ', hφ', hl, hb, fun hy => he fun hx => ?_⟩
    rcases h (n, i) hx with h | h
    · exact hy h
    · simp [hφ] at h
  value := g.value
  late := g.late

/-- Growth that touches nothing, twice. -/
theorem trans_empty (g : Grows ∅ r r') (g' : Grows ∅ r' r'') : Grows ∅ r r'' :=
  (g.trans g').weaken fun p hp => by simp at hp

theorem mono (g : Grows X r r') (h : X ⊆ Y) : Grows Y r r' := g.weaken fun _ hp => Or.inl (h hp)

end Grows

/-! ## Renamed code -/

/-- The operand is known, renames nothing, and is never renamed: a constant or a builtin. -/
def IsFixed (r : Renaming) (id : OperandId) : Prop :=
  ∃ o, r.arena.get? id = some o ∧ o.ssa = none ∧ o.kind.isVariable = false ∧
    o.kind.isIntroduced = false

/-- The last version of each variable written so far in a node. -/
abbrev Written := OperandId → Option OperandId

/-- The second operand is to be read in place of the first. -/
inductive ReadsAs (r : Renaming) (n : NodeId) (cur : Written) (id : OperandId) : OperandId → Prop
  | written {w : OperandId} : r.arena.IsVariable id → cur id = some w → ReadsAs r n cur id w
  | incoming {w : OperandId} : r.arena.IsVariable id → cur id = none → StartsAs r n id w →
      ReadsAs r n cur id w
  | variant {w : OperandId} : r.arena.IsIntroduced id → r.arena.variant? id = some w →
      ReadsAs r n cur id w
  | fixed : r.IsFixed id → ReadsAs r n cur id id

/-- The second operand is to be written in place of the first, which leaves other versions
written last.  What is written in place of a bound reference is no unbound one. -/
inductive WritesAs (r : Renaming) (cur : Written) (id : OperandId) : OperandId → Written → Prop
  | version {w : OperandId} {k : Nat} : r.arena.IsVariable id →
      r.arena.link? w = some (.version id (k + 1)) →
      WritesAs r cur id w (Function.update cur id (some w))
  | variant {w : OperandId} : r.arena.IsIntroduced id → r.arena.variant? id = some w →
      r.arena.Binds id w → WritesAs r cur id w cur
  | fixed : r.IsFixed id → WritesAs r cur id id cur

/-- The write of an operation, if it has one, is renamed. -/
inductive LvalueAs (r : Renaming) (cur : Written) :
    Option OperandId → Option OperandId → Written → Prop
  | none : LvalueAs r cur none none cur
  | some {l w : OperandId} {cur' : Written} : WritesAs r cur l w cur' →
      LvalueAs r cur (some l) (some w) cur'

/-- The second operation is the first with its operands renamed, reads before the write. -/
structure RenamesOp (r : Renaming) (n : NodeId) (cur : Written) (op op' : Operation)
    (cur' : Written) : Prop where
  reads : List.Forall₂ (ReadsAs r n cur) op.reads op'.reads
  lvalue : LvalueAs r cur op.lvalue? op'.lvalue? cur'
  shape : op'.shape = op.shape

/-- The second list of operations is the first with all operands renamed. -/
inductive Renames (r : Renaming) (n : NodeId) :
    Written → List Operation → List Operation → Written → Prop
  | nil {cur : Written} : Renames r n cur [] [] cur
  | cons {cur cur₁ cur₂ : Written} {op op' : Operation} {ops ops' : List Operation} :
      RenamesOp r n cur op op' cur₁ → Renames r n cur₁ ops ops' cur₂ →
      Renames r n cur (op :: ops) (op' :: ops') cur₂

/-- All that renamed code refers to is still there. -/
structure Keeps (r r' : Renaming) : Prop where
  arena : r.arena.Extends r'.arena
  startsAs : ∀ {n v w}, StartsAs r n v w → StartsAs r' n v w

theorem Grows.keeps {X : Set (NodeId × Nat)} {r r' : Renaming} (g : Grows X r r') : Keeps r r' :=
  ⟨g.arena.toExtends, g.startsAs⟩

namespace Keeps

variable {r r' r'' : Renaming}

theorem trans (k : Keeps r r') (k' : Keeps r' r'') : Keeps r r'' :=
  ⟨k.arena.trans k'.arena, fun h => k'.startsAs (k.startsAs h)⟩

theorem isFixed (k : Keeps r r') {id : OperandId} (h : r.IsFixed id) : r'.IsFixed id := by
  obtain ⟨o, ho, hs, hk⟩ := h
  exact ⟨o, k.arena.get?_of_ssa ho hs, hs, hk⟩

theorem readsAs (k : Keeps r r') {n : NodeId} {cur : Written} {id w : OperandId}
    (h : ReadsAs r n cur id w) : ReadsAs r' n cur id w := by
  cases h with
  | written hv hc => exact .written (k.arena.isVariable hv) hc
  | incoming hv hc hs => exact .incoming (k.arena.isVariable hv) hc (k.startsAs hs)
  | variant hi hw => exact .variant (k.arena.isIntroduced hi) (k.arena.variant hw)
  | fixed hf => exact .fixed (k.isFixed hf)

theorem writesAs (k : Keeps r r') {cur cur' : Written} {id w : OperandId}
    (h : WritesAs r cur id w cur') : WritesAs r' cur id w cur' := by
  cases h with
  | version hv hl => exact .version (k.arena.isVariable hv) (k.arena.link? hl)
  | variant hi hw hbinds =>
      exact .variant (k.arena.isIntroduced hi) (k.arena.variant hw) (k.arena.binds hi hbinds)
  | fixed hf => exact .fixed (k.isFixed hf)

theorem lvalueAs (k : Keeps r r') {cur cur' : Written} {l w : Option OperandId}
    (h : LvalueAs r cur l w cur') : LvalueAs r' cur l w cur' := by
  cases h with
  | none => exact .none
  | some hw => exact .some (k.writesAs hw)

theorem renamesOp (k : Keeps r r') {n : NodeId} {cur cur' : Written} {op op' : Operation}
    (h : RenamesOp r n cur op op' cur') : RenamesOp r' n cur op op' cur' where
  reads := h.reads.imp fun _ _ => k.readsAs
  lvalue := k.lvalueAs h.lvalue
  shape := h.shape

theorem renames (k : Keeps r r') {n : NodeId} {cur cur' : Written} {ops ops' : List Operation}
    (h : Renames r n cur ops ops' cur') : Renames r' n cur ops ops' cur' := by
  induction h with
  | nil => exact .nil
  | cons hop _ ih => exact .cons (k.renamesOp hop) ih

end Keeps

/-- The versions written last in a node are recorded, and what else is recorded for the node is
what it starts with. -/
structure Tracks (r : Renaming) (n : NodeId) (cur : Written) : Prop where
  written : ∀ {v w}, cur v = some w → r.valueAt? n v = some w
  recorded : ∀ {v w}, r.valueAt? n v = some w → cur v = some w ∨ cur v = none ∧ StartsAs r n v w

theorem Grows.tracks {X : Set (NodeId × Nat)} {r r' : Renaming} (g : Grows X r r') {n : NodeId}
    {cur : Written} (h : Tracks r n cur) : Tracks r' n cur where
  written hc := g.value (h.written hc)
  recorded {v w} hv := by
    cases hr : r.valueAt? n v with
    | none =>
        have hnone : cur v = none := by
          cases hc : cur v with
          | none => rfl
          | some u => simp [h.written hc] at hr
        exact Or.inr ⟨hnone, g.late hv hr⟩
    | some u =>
        obtain rfl : u = w := Option.some.inj ((g.value hr).symm.trans hv)
        exact (h.recorded hr).imp id fun ⟨hc, hs⟩ => ⟨hc, g.startsAs hs⟩

/-- What is recorded for a node tracks as long as it stays the same. -/
theorem Keeps.tracks {r r' : Renaming} (k : Keeps r r') {n : NodeId} {cur : Written}
    (hvalue : ∀ v, r'.valueAt? n v = r.valueAt? n v) (h : Tracks r n cur) : Tracks r' n cur where
  written hc := (hvalue _).trans (h.written hc)
  recorded hv := (h.recorded ((hvalue _).symm.trans hv)).imp id fun ⟨hc, hs⟩ => ⟨hc, k.startsAs hs⟩

end Renaming

end ContractCalls.Body
