/-
# Reading a variable

`readVariable` walks against the edges until it finds a recorded value, the
entry, or a place for a phi.  It ends because a join gets its value before its
predecessors are asked, and because between two joins the walk goes up along
single predecessors, each of which comes earlier in the order.  `openJoins`
counts the first, `rank` measures the second, and the fuel exceeds both.

Reading keeps the invariant, lets the state grow, and records what it gives.
Sealing a node completes the phis that waited for it by reading at the ends of
its predecessors; both uses of the same loop are `leads_collect`.
-/
import ContractCalls.Proofs.Outcome
import ContractCalls.Proofs.SingleAssignment.Invariant
import Mathlib.Data.Finset.Card
import Mathlib.Data.Finset.Range

namespace ContractCalls.Body

open Renaming

theorem leads_onArena {α : Type} {f : Arena → Except ModelError (α × Arena)} {r : Renaming}
    {x : α} {a : Arena} {ok : α → Renaming → Prop} {err : ModelError → Prop}
    (hf : f r.arena = .ok (x, a)) (hok : ok x (r.withArena a)) : Leads (onArena f) r ok err := by
  refine leads_bind (leads_get ?_)
  simp only [show f r.body.arena = .ok (x, a) from hf]
  exact leads_bind (leads_set (leads_pure hok))

/-! ## How long a walk can get -/

/-- The joins at which no value of the variable is recorded. -/
def openJoins (r : Renaming) (v : OperandId) : Nat :=
  ((Finset.range r.body.nodes.size).filter fun i =>
    2 ≤ (r.predsOf ⟨i⟩).length ∧ r.valueAt? ⟨i⟩ v = none).card

/-- How many nodes come before a node in the order. -/
def rank (b : Body) (n : NodeId) : Nat :=
  (b.reversePostorder.filter fun m => (b.node? m).isSome).idxOf n

theorem openJoins_le (r : Renaming) (v : OperandId) : openJoins r v ≤ r.body.nodes.size := by
  have := Finset.card_filter_le (Finset.range r.body.nodes.size)
    fun i => 2 ≤ (r.predsOf ⟨i⟩).length ∧ r.valueAt? ⟨i⟩ v = none
  simpa [openJoins] using this

/-- Growth leaves no more joins open. -/
theorem Renaming.Grows.openJoins_le {X : Set (NodeId × Nat)} {r r' : Renaming} (g : Grows X r r')
    (v : OperandId) : openJoins r' v ≤ openJoins r v := by
  refine Finset.card_le_card fun i hi => ?_
  simp only [Finset.mem_filter, Finset.mem_range, g.predsOf, g.size] at hi ⊢
  refine ⟨hi.1, hi.2.1, ?_⟩
  cases h : r.valueAt? ⟨i⟩ v with
  | none => rfl
  | some w => simp [g.value h] at hi

/-- Recording a value at an open join closes it. -/
theorem openJoins_define_lt {r : Renaming} {n : NodeId} {v w : OperandId}
    (hn : n.index < r.body.nodes.size) (hjoin : 2 ≤ (r.predsOf n).length)
    (hnone : r.valueAt? n v = none) : openJoins (r.define n v w) v < openJoins r v := by
  refine Finset.card_lt_card ((Finset.ssubset_iff_of_subset ?_).mpr ⟨n.index, ?_, ?_⟩)
  · intro i hi
    simp only [Finset.mem_filter, Finset.mem_range, predsOf_define, valueAt?_define] at hi ⊢
    refine ⟨hi.1, hi.2.1, ?_⟩
    have h := hi.2.2
    split at h
    · simp at h
    · exact h
  · exact Finset.mem_filter.mpr ⟨Finset.mem_range.mpr hn, hjoin, hnone⟩
  · simp [valueAt?_define]

theorem length_existing_le (b : Body) :
    (b.reversePostorder.filter fun m => (b.node? m).isSome).length ≤ b.nodes.size := by
  have hnodup := (b.reversePostorder_nodup).filter fun m => (b.node? m).isSome
  have hmap : ((b.reversePostorder.filter fun m => (b.node? m).isSome).map NodeId.index).Nodup :=
    List.Pairwise.map _ (fun m n h hi => h (by cases m; cases n; simpa using hi)) hnodup
  have hsub : (b.reversePostorder.filter fun m => (b.node? m).isSome).map NodeId.index ⊆
      List.range b.nodes.size := by
    intro i hi
    obtain ⟨m, hm, rfl⟩ := List.mem_map.mp hi
    simpa [node?] using (List.mem_filter.mp hm).2
  have := (List.subperm_of_subset hmap hsub).length_le
  simpa using this

theorem rank_lt {b : Body} {n : NodeId} (hn : n ∈ b.reversePostorder) (hnode : b.node? n ≠ none) :
    rank b n < b.nodes.size := by
  refine Nat.lt_of_lt_of_le (List.idxOf_lt_length_iff.mpr ?_) (length_existing_le b)
  exact List.mem_filter.mpr ⟨hn, Option.isSome_iff_ne_none.mpr hnode⟩

/-- A single predecessor comes earlier in the order. -/
theorem rank_pred_lt {b : Body} (hb : b.Unconverted) {c : Option NodeId} {r : Renaming}
    (h : Base b c r) {n p : NodeId} (hn : n ∈ b.reversePostorder) (hp : r.predsOf n = [p]) :
    rank b p < rank b n := by
  obtain ⟨hnode, hedge, hreach⟩ := (h.mem_predsOf hb).mp (hp ▸ List.mem_singleton.mpr rfl)
  obtain ⟨before, after, horder⟩ := List.append_of_mem hn
  obtain ⟨q, hq, hqn⟩ : ∃ q ∈ before, b.Edge q n := by
    rcases exists_earlier_of_reversePostorder horder with he | hq
    · exact absurd hedge (hb.entry he hreach)
    · exact hq
  -- the predecessor that comes earlier is reachable, so it is the single one
  have hqmem : q ∈ b.reversePostorder := horder ▸ List.mem_append_left _ hq
  have hqp : q = p := by
    have := (h.mem_predsOf hb).mpr ⟨hnode, hqn, mem_reversePostorder.mp hqmem⟩
    rw [hp] at this
    exact List.mem_singleton.mp this
  subst hqp
  obtain ⟨node, hqnode, -⟩ := hqn.exists_node
  have hnodup := b.reversePostorder_nodup
  have hnb : n ∉ before := by
    rw [horder] at hnodup
    intro hmem
    exact (List.nodup_append.mp hnodup).2.2 n hmem n List.mem_cons_self rfl
  have hin : q ∈ before.filter fun m => (b.node? m).isSome :=
    List.mem_filter.mpr ⟨hq, by simp [hqnode]⟩
  have hnin : n ∉ before.filter fun m => (b.node? m).isSome := fun hm => hnb (List.mem_of_mem_filter hm)
  unfold rank
  rw [horder, List.filter_append, List.idxOf_append_of_mem hin, List.idxOf_append_of_notMem hnin]
  exact Nat.lt_of_lt_of_le (List.idxOf_lt_length_iff.mpr hin) (Nat.le_add_right _ _)

/-! ## The walk -/

section Walk

variable {b : Body} {c : Option NodeId} {done : List Operation} {E : Set (NodeId × Nat)}
  {r : Renaming}

theorem Renaming.lt_size_of_code? {n : NodeId} (h : r.code? n ≠ none) :
    n.index < r.body.nodes.size := by
  simpa [code?, node?] using h

/-- What nothing wrote yet. -/
theorem Renaming.Sites.not_writes_size (h : Sites c done r) (s : Site) :
    ¬ r.WritesAt c done s ⟨r.arena.size⟩ := fun hs => Arena.not_known_size _ (h.known hs)

/-- A fresh version for a phi. -/
theorem Renaming.Inv.mergeable (h : Inv b c done E r) {n : NodeId} {v : OperandId}
    (hcode : r.code? n ≠ none) (hn : Active c r n) (hjoin : 2 ≤ (r.predsOf n).length)
    (hv : r.arena.IsVariable v) :
    ∃ a w, r.arena.freshVersionOf v = .ok (w, a) ∧ Inv b c done E (r.withArena a) ∧
      Grows ∅ r (r.withArena a) ∧ Mergeable c done (r.withArena a) n v w := by
  obtain ⟨a, k, hfresh, ha, hext, hlink⟩ := Arena.freshVersionOf_spec h.base.coherent hv
  refine ⟨a, ⟨r.arena.size⟩, hfresh, h.withArena ha hext, grows_withArena hext, hcode, hn, hjoin,
    hext.isVariable hv, ⟨k, hlink⟩, ?_⟩
  intro s hs
  refine h.sites.not_writes_size s ?_
  cases s <;> exact hs

theorem leads_pushPhi {n : NodeId} {v w : OperandId} {a : Arena}
    {ok : OperandId × Nat → Renaming → Prop} {err : ModelError → Prop} (hcode : r.code? n ≠ none)
    (hfresh : r.arena.freshVersionOf v = .ok (w, a))
    (hok : ok (w, (r.withArena a).phiCount n) ((r.withArena a).withPhi n ⟨w, v, []⟩)) :
    Leads (pushPhi v n) r ok err := by
  refine leads_bind (leads_onArena hfresh (leads_bind (leads_get ?_)))
  cases hnode : r.body.node? n with
  | none => simp [code?, hnode] at hcode
  | some node =>
      have hnode' : (r.withArena a).body.node? n = some node := hnode
      simp only [hnode']
      refine leads_bind (leads_modify (leads_pure ?_))
      simpa [phiCount, hnode', withPhi] using hok

/-- Collecting the incoming values of an open phi from the predecessors still to come. -/
theorem leads_collect {n : NodeId} {i : Nat} {v : OperandId} {read : NodeId → Rename OperandId}
    (hopen : (n, i) ∈ E)
    (hread : ∀ {s p}, Inv b c done E s → Grows {(n, i)} r s → p ∈ r.predsOf n →
      Leads (read p) s (fun w s' => Inv b c done E s' ∧ Grows ∅ s s' ∧ s'.valueAt? p v = some w)
        fun _ => False) :
    ∀ {rest s φ}, Inv b c done E s → Grows {(n, i)} r s → s.phi? n i = some φ → φ.base = v →
      φ.incoming.map Prod.fst ++ rest = s.predsOf n → (∀ p ∈ s.predsOf n, p ∈ s.filled) →
      (∀ p ∈ φ.incoming, s.valueAt? p.1 v = some p.2) →
      Leads (rest.forM fun p => do
          let w ← read p
          modify (·.addIncoming n i p w)) s
        (fun _ s' => Inv b c done E s' ∧ Grows {(n, i)} r s' ∧
          ∃ φ', s'.phi? n i = some φ' ∧ Complete s' n φ') fun _ => False := by
  intro rest
  induction rest with
  | nil =>
      intro s φ hinv hg hφ hbase hpreds hfilled hvalues
      refine leads_pure ⟨hinv, hg, φ, hφ, by simpa using hpreds, fun p hp => ?_⟩
      have hmem : p.1 ∈ s.predsOf n := by
        rw [← hpreds, List.append_nil]
        exact List.mem_map_of_mem hp
      exact ⟨hfilled _ hmem, hbase ▸ hvalues p hp⟩
  | cons p rest ih =>
      intro s φ hinv hg hφ hbase hpreds hfilled hvalues
      have hp : p ∈ r.predsOf n := by
        rw [← hg.predsOf, ← hpreds]
        exact List.mem_append_right _ List.mem_cons_self
      show Leads ((read p >>= fun w => modify (·.addIncoming n i p w)) >>= fun _ =>
        rest.forM _) s _ _
      refine leads_bind ((hread hinv hg hp).bind ?_)
      rintro w s₁ ⟨hinv₁, hg₁, hw⟩
      refine leads_modify ?_
      obtain ⟨hinv₂, hg₂⟩ := hinv₁.addIncoming (p := p) (w := w) hopen
      -- reading left the phi alone, so it now has one incoming value more
      obtain ⟨φ₁, hφ₁, -, -, he⟩ := hg₁.phi hφ
      obtain rfl := he (Set.notMem_empty _)
      have hφ₂ : (s₁.addIncoming n i p w).phi? n i =
          some { φ₁ with incoming := φ₁.incoming ++ [(p, w)] } := by
        rw [phi?_addIncoming, if_pos ⟨rfl, rfl⟩, hφ₁]
        rfl
      have hg₃ : Grows {(n, i)} r (s₁.addIncoming n i p w) :=
        ((hg.trans hg₁).trans hg₂).mono fun x hx => by
          simpa [Set.mem_union] using hx
      refine ih hinv₂ hg₃ hφ₂ hbase ?_ ?_ ?_
      · rw [hg₂.predsOf, hg₁.predsOf, ← hpreds]
        simp
      · intro q hq
        rw [hg₂.filled, hg₁.filled]
        rw [hg₂.predsOf, hg₁.predsOf] at hq
        exact hfilled q hq
      · intro q hq
        rcases List.mem_append.mp hq with hq | hq
        · exact hg₂.value (hg₁.value (hvalues q hq))
        · rw [List.mem_singleton.mp hq]
          exact hg₂.value hw

/-- What a read gives: the state grew by it, and the value is recorded. -/
def Answers (b : Body) (c : Option NodeId) (done : List Operation) (E : Set (NodeId × Nat))
    (r : Renaming) (n : NodeId) (v : OperandId) (w : OperandId) (r' : Renaming) : Prop :=
  Inv b c done E r' ∧ Grows ∅ r r' ∧ r'.valueAt? n v = some w

/-- The last step of a read: the value is recorded, unless it was meanwhile. -/
theorem Renaming.Inv.answers {r₁ : Renaming} (h : Inv b c done E r₁) (hg : Grows ∅ r r₁)
    {n : NodeId} {v w : OperandId} (hn : Active c r n) (hv : r.arena.IsVariable v)
    (hw : ∃ k, r₁.arena.link? w = some (.version v k))
    (hvalue : r₁.valueAt? n v = some w ∨ r₁.valueAt? n v = none ∧ StartsAs r₁ n v w) :
    Answers b c done E r n v w (r₁.define n v w) := by
  have hn₁ : Active c r₁ n := by rwa [Active, hg.filled]
  obtain ⟨h₂, hg₂, hv₂⟩ := h.define hn₁ (hg.arena.isVariable hv) hw hvalue
  exact ⟨h₂, hg.trans_empty hg₂, hv₂⟩

/-- With one predecessor, all that can be recorded for a node later is what that one ends with. -/
theorem Renaming.Inv.eq_of_late {r₁ : Renaming} (h : Inv b c done E r₁) (hg : Grows ∅ r r₁)
    {n p : NodeId} {v w u : OperandId} (hp : r₁.predsOf n = [p]) (hw : r₁.valueAt? p v = some w)
    (hnone : r.valueAt? n v = none) (hu : r₁.valueAt? n v = some u) : u = w := by
  cases hg.late hu hnone with
  | phi hφ _ =>
      have := h.merges.joins hφ
      simp [hp] at this
  | pred hp' _ hu' =>
      obtain rfl : p = _ := by simpa using hp.symm.trans hp'
      exact Option.some.inj (hu'.symm.trans hw)
  | entry hp' _ => simp [hp] at hp'

/-- A read at a sealed join: the phi is recorded first, then its incoming values are read. -/
theorem leads_merge (hb : b.Unconverted) {n : NodeId} {v : OperandId} (h : Inv b c done E r)
    (hn : Active c r n) (hcode : r.code? n ≠ none) (hv : r.arena.IsVariable v)
    (hsealed : n ∈ r.sealed_) (hjoin : 2 ≤ (r.predsOf n).length) (hvalue : r.valueAt? n v = none)
    {read : NodeId → Rename OperandId}
    (hread : ∀ {E' s p}, Inv b c done E' s → Active c s p → s.code? p ≠ none →
      s.arena.IsVariable v → openJoins s v < openJoins r v →
      Leads (read p) s (Answers b c done E' s p v) fun _ => False) :
    Leads (do
        let (value, phi) ← pushPhi v n
        modify (·.define n v value)
        (r.predsOf n).forM fun p => do
          let incoming ← read p
          modify (·.addIncoming n phi p incoming)
        let value ← pure value
        modify (·.define n v value)
        pure value) r (Answers b c done E r n v) fun _ => False := by
  obtain ⟨a, w, hfresh, h₁, hg₁, m⟩ := h.mergeable hcode hn hjoin hv
  refine leads_bind (leads_pushPhi hcode hfresh ?_)
  dsimp only
  generalize hr₁ : r.withArena a = r₁ at h₁ hg₁ m ⊢
  have hsealed₁ : n ∈ r₁.sealed_ := hg₁.sealed_ n hsealed
  have h₂ := h₁.pushOpen m hsealed₁
  have hg₂ := hg₁.trans_empty (grows_withPhi m.code ⟨w, v, []⟩)
  have hφ₂ : (r₁.withPhi n ⟨w, v, []⟩).phi? n (r₁.phiCount n) = some ⟨w, v, []⟩ := by
    rw [phi?_withPhi m.code, if_pos ⟨rfl, rfl⟩]
  have hvalue₂ : (r₁.withPhi n ⟨w, v, []⟩).valueAt? n v = none := by
    rw [← hr₁]
    exact hvalue
  have hfresh₁ : r.phi? n (r₁.phiCount n) = none := by
    cases hold : r.phi? n (r₁.phiCount n) with
    | none => rfl
    | some φ =>
        obtain ⟨φ', hφ', -⟩ := hg₁.phi hold
        simp [phi?_phiCount] at hφ'
  generalize r₁.phiCount n = i at h₂ hφ₂ hfresh₁ ⊢
  generalize r₁.withPhi n ⟨w, v, []⟩ = r₂ at h₂ hg₂ hφ₂ hvalue₂ ⊢
  have hlink₂ : ∃ k, r₂.arena.link? w = some (.version v k) := by
    obtain ⟨k, hk⟩ := h₂.merges.version hφ₂
    exact ⟨k + 1, hk⟩
  -- recording the phi closes the join before any predecessor is asked
  obtain ⟨h₃, hg₃, hv₃⟩ := h₂.define (by rwa [Active, hg₂.filled]) (hg₂.arena.isVariable hv) hlink₂
    (Or.inr ⟨hvalue₂, .phi hφ₂ rfl⟩)
  have hless : openJoins (r₂.define n v w) v < openJoins r v := by
    refine Nat.lt_of_lt_of_le (openJoins_define_lt ?_ ?_ hvalue₂) (hg₂.openJoins_le v)
    · rw [hg₂.size]
      exact lt_size_of_code? hcode
    · rwa [hg₂.predsOf]
  have hg₄ := hg₂.trans_empty hg₃
  have hready : ∀ p ∈ (r₂.define n v w).predsOf n, p ∈ (r₂.define n v w).filled := by
    intro p hp
    rw [hg₄.predsOf] at hp
    rw [hg₄.filled]
    exact h.base.ready n hsealed p hp
  refine leads_bind (leads_modify (leads_bind ?_))
  refine (leads_collect (r := r₂.define n v w) (Set.mem_insert _ _) ?_ h₃ (.refl _ _) hφ₂ rfl
    (hg₄.predsOf n).symm hready (by simp)).mono ?_
  · intro s p hs hgs hp
    have hpf : p ∈ s.filled := hgs.filled ▸ hready p hp
    refine hread hs (Or.inl hpf) ?_ (hgs.arena.isVariable (hg₄.arena.isVariable hv))
      (Nat.lt_of_le_of_lt (hgs.openJoins_le v) hless)
    exact hs.base.code?_pred hb ((hgs.predsOf n).symm ▸ hp)
  · rintro - r₅ ⟨h₅, hg₅, φ, hφ, hcomplete⟩
    refine leads_bind (leads_pure (leads_bind (leads_modify (leads_pure ?_))))
    -- nothing but the new phi was touched, and it is complete now
    have hg₆ : Grows ∅ r r₅ := (hg₄.trans hg₅).weaken fun x hx => by
      rcases hx with hx | hx
      · exact Or.inl hx
      · rw [Set.mem_singleton_iff.mp hx]
        exact Or.inr hfresh₁
    refine Inv.answers (h₅.close (Set.subset_insert _ _) ?_) hg₆ hn hv ?_ (Or.inl (hg₅.value hv₃))
    · intro m j ψ hm hm' hψ
      obtain ⟨rfl, rfl⟩ := Prod.mk.inj ((Set.mem_insert_iff.mp hm).resolve_right hm')
      obtain rfl := Option.some.inj (hφ.symm.trans hψ)
      exact hcomplete
    · exact (h₅.base.value (hg₅.value hv₃)).2

theorem leads_readVariable (hb : b.Unconverted) {v : OperandId} (fuel : Nat) :
    ∀ {E : Set (NodeId × Nat)} {r : Renaming} {n : NodeId}, Inv b c done E r → Active c r n →
      r.code? n ≠ none → r.arena.IsVariable v →
      openJoins r v * (b.nodes.size + 1) + rank b n < fuel →
      Leads (readVariable v fuel n) r (Answers b c done E r n v) fun _ => False := by
  induction fuel with
  | zero => intro E r n _ _ _ _ hfuel; exact absurd hfuel (Nat.not_lt_zero _)
  | succ fuel ih =>
      intro E r n h hn hcode hv hfuel
      rw [readVariable]
      refine leads_bind (leads_get ?_)
      cases hvalue : r.valueAt? n v with
      | some w => exact leads_pure ⟨h, .refl _ _, hvalue⟩
      | none =>
          dsimp only
          by_cases hsealed : n ∈ r.sealed_
          · rw [if_neg (by simpa using hsealed)]
            have hready := h.base.ready n hsealed
            match hpreds : r.predsOf n with
            | [] =>
                obtain ⟨w, a, he, ha, hext, hw⟩ := Arena.entryVersionOf_spec h.base.coherent hv
                have h₁ := h.withArena ha hext
                have hg₁ := grows_withArena hext
                refine leads_bind (leads_onArena he (leads_bind (leads_modify (leads_pure ?_))))
                exact h₁.answers hg₁ hn hv ⟨0, ha.entryVersion hw⟩
                  (Or.inr ⟨hvalue, .entry hpreds hw⟩)
            | [p] =>
                have hpm : p ∈ r.predsOf n := hpreds ▸ List.mem_singleton.mpr rfl
                have hpf : p ∈ r.filled := hready p hpm
                have hrank := rank_pred_lt hb h.base (h.base.order hn) hpreds
                refine (ih h (Or.inl hpf) (h.base.code?_pred hb hpm) hv (by omega)).bind ?_
                rintro w r₁ ⟨h₁, hg₁, hw₁⟩
                refine leads_bind (leads_modify (leads_pure ?_))
                have hpreds₁ : r₁.predsOf n = [p] := (hg₁.predsOf n).trans hpreds
                refine h₁.answers hg₁ hn hv (h₁.base.value hw₁).2 ?_
                cases hu : r₁.valueAt? n v with
                | none => exact Or.inr ⟨rfl, .pred hpreds₁ (hg₁.filled ▸ hpf) hw₁⟩
                | some u => exact Or.inl (congrArg some (h₁.eq_of_late hg₁ hpreds₁ hw₁ hvalue hu))
            | p :: q :: rest =>
                have hjoin : 2 ≤ (r.predsOf n).length := by simp [hpreds]
                have hmerge := leads_merge hb h hn hcode hv hsealed hjoin hvalue
                  fun {E' s p} hs hp hc hv hless => ih hs hp hc hv (by
                    have hp' := rank_lt (hs.base.order hp) ((hs.base.node?_iff).mp hc)
                    have := Nat.mul_le_mul_right (b.nodes.size + 1) hless
                    rw [Nat.succ_mul] at this
                    omega)
                rw [hpreds] at hmerge
                exact hmerge
          · rw [if_pos (by simpa using hsealed)]
            have hjoin : 2 ≤ (r.predsOf n).length := by
              by_contra hlt
              exact hsealed (h.base.few hn (by omega))
            obtain ⟨a, w, hfresh, h₁, hg₁, m⟩ := h.mergeable hcode hn hjoin hv
            refine leads_bind (leads_pushPhi hcode hfresh ?_)
            dsimp only
            obtain ⟨h₂, hg₂⟩ := h₁.pushWaiting m hsealed
            refine leads_bind (leads_modify ?_)
            refine leads_bind (leads_pure (leads_bind (leads_modify (leads_pure ?_))))
            refine h₂.answers (hg₁.trans_empty hg₂) hn hv ?_ (Or.inr ⟨hvalue, ?_⟩)
            · obtain ⟨k, hk⟩ := m.version
              exact ⟨k + 1, hk⟩
            · refine .phi (i := (r.withArena a).phiCount n) (φ := ⟨w, v, []⟩) ?_ rfl
              show ((r.withArena a).withPhi n ⟨w, v, []⟩).phi? n _ = _
              rw [phi?_withPhi m.code, if_pos ⟨rfl, rfl⟩]

theorem leads_readAt (hb : b.Unconverted) {n : NodeId} {v : OperandId} (h : Inv b c done E r)
    (hn : Active c r n) (hcode : r.code? n ≠ none) (hv : r.arena.IsVariable v) :
    Leads (readAt v n) r (Answers b c done E r n v) fun _ => False := by
  refine leads_bind (leads_get (leads_readVariable hb _ h hn hcode hv ?_))
  have h₁ := rank_lt (h.base.order hn) ((h.base.node?_iff).mp hcode)
  have h₂ := Nat.mul_le_mul_right (b.nodes.size + 1) (openJoins_le r v)
  rw [h.base.size] at h₂
  rw [readFuel, h.base.size, Nat.add_mul]
  omega

end Walk

/-! ## Sealing -/

section Sealing

variable {b : Body} {r : Renaming}

/-- An empty open phi of a sealed node gets all its incoming values. -/
theorem leads_completePhi (hb : b.Unconverted) {E : Set (NodeId × Nat)} {n : NodeId} {i : Nat}
    {φ : Phi} (h : Inv b none [] E r) (hopen : (n, i) ∈ E) (hφ : r.phi? n i = some φ)
    (hempty : φ.incoming = []) :
    Leads (completePhi φ.base n i) r (fun _ r' => Inv b none [] E r' ∧ Grows {(n, i)} r r' ∧
      ∃ φ', r'.phi? n i = some φ' ∧ Complete r' n φ') fun _ => False := by
  have hready := h.base.ready n (h.merges.sealed_ hopen)
  have hv := h.merges.base hφ
  refine leads_bind (leads_get (leads_collect hopen ?_ h (.refl _ _) hφ rfl ?_ hready ?_))
  · intro s p hs hgs hp
    refine leads_readAt hb hs (Or.inl (hgs.filled ▸ hready p hp)) ?_ (hgs.arena.isVariable hv)
    exact hs.base.code?_pred hb ((hgs.predsOf n).symm ▸ hp)
  · simp [hempty]
  · simp [hempty]

/-- The positions of the phis in a list of waiting ones. -/
def positions (waiting : List (NodeId × OperandId × Nat)) : Set (NodeId × Nat) :=
  {p | ∃ v, (p.1, v, p.2) ∈ waiting}

/-- The conversion with a node sealed and its phis no longer waiting. -/
def Renaming.withSealed (r : Renaming) (n : NodeId) : Renaming :=
  { r with
    sealed_ := n :: r.sealed_
    incomplete := r.incomplete.filter (·.1 != n) }

theorem grows_withSealed (r : Renaming) (n : NodeId) : Grows ∅ r (r.withSealed n) where
  preds := rfl
  filled := rfl
  sealed_ _ h := List.mem_cons_of_mem _ h
  size := rfl
  entry := rfl
  arena := .refl _
  code _ := rfl
  phi h := ⟨_, h, rfl, rfl, fun _ => rfl⟩
  value h := h
  late h hnone := absurd (h.symm.trans hnone) (Option.some_ne_none _)

/-- Sealing a node opens the phis that waited for it. -/
theorem Renaming.Inv.withSealed (h : Inv b none [] ∅ r) {n : NodeId}
    (hready : ∀ p ∈ r.predsOf n, p ∈ r.filled) :
    Inv b none [] (positions (r.incomplete.filter (·.1 == n))) (r.withSealed n) := by
  have g := grows_withSealed r n
  refine ⟨?_, ⟨h.merges.base, h.merges.version, h.merges.joins, ?_, ?_, ?_, ?_⟩, ?_⟩
  · refine h.base.grows g h.base.coherent ?_ (fun _ _ hn => Or.inr hn) fun _ _ _ hv => Or.inl hv
    intro m hm
    rcases List.mem_cons.mp hm with rfl | hm
    · exact Or.inr hready
    · exact Or.inl hm
  · intro m i φ hφ
    rcases h.merges.settled hφ with hE | hc | hw
    · exact absurd hE (Set.notMem_empty _)
    · exact Or.inr (Or.inl (hc.grows g))
    · by_cases hm : m = n
      · subst hm
        exact Or.inl ⟨φ.base, List.mem_filter.mpr ⟨hw, by simp⟩⟩
      · exact Or.inr (Or.inr (List.mem_filter.mpr ⟨hw, by simpa using hm⟩))
  · intro m v i hw
    obtain ⟨hw, hm⟩ := List.mem_filter.mp hw
    obtain ⟨hs, hφ⟩ := h.merges.waiting hw
    refine ⟨fun hmem => ?_, hφ⟩
    rcases List.mem_cons.mp hmem with rfl | hmem
    · simp at hm
    · exact hs hmem
  · exact h.merges.nodup.filter _
  · rintro m i ⟨v, hw⟩
    obtain ⟨-, hm⟩ := List.mem_filter.mp hw
    obtain rfl : m = n := by simpa using hm
    exact List.mem_cons_self
  · exact h.sites.mono (.refl _) fun s x hs => by cases s <;> exact hs

/-- The phis of a list wait with nothing come in. -/
def Empty (r : Renaming) (waiting : List (NodeId × OperandId × Nat)) : Prop :=
  ∀ x ∈ waiting, ∃ φ, r.phi? x.1 x.2.2 = some φ ∧ φ.base = x.2.1 ∧ φ.incoming = []

/-- One waiting phi is completed; the others still wait. -/
theorem leads_completePhi_head (hb : b.Unconverted) {n : NodeId} {v : OperandId} {i : Nat}
    {rest : List (NodeId × OperandId × Nat)}
    (h : Inv b none [] (positions ((n, v, i) :: rest)) r) (hempty : Empty r ((n, v, i) :: rest))
    (hnodup : ((n, v, i) :: rest).Nodup) :
    Leads (completePhi v n i) r (fun _ r' => Inv b none [] (positions rest) r' ∧ Empty r' rest ∧
      Grows Set.univ r r') fun _ => False := by
  obtain ⟨φ, hφ, rfl, hin⟩ := hempty _ List.mem_cons_self
  refine (leads_completePhi hb h ⟨φ.base, List.mem_cons_self⟩ hφ hin).mono ?_
  rintro - r' ⟨h', hg, φ', hφ', hcomplete⟩
  -- two waiting phis at one position would be the same
  have hne : ∀ m u, (m, u, i) ∈ rest → m ≠ n := by
    rintro m u hmem rfl
    obtain ⟨ψ, hψ, hb', -⟩ := hempty _ (List.mem_cons_of_mem _ hmem)
    obtain rfl := Option.some.inj (hφ.symm.trans hψ)
    obtain rfl : φ.base = u := hb'
    exact (List.nodup_cons.mp hnodup).1 hmem
  refine ⟨h'.close ?_ ?_, ?_, hg.mono (Set.subset_univ _)⟩
  · rintro x ⟨u, hu⟩
    exact ⟨u, List.mem_cons_of_mem _ hu⟩
  · rintro m j ψ ⟨u, hu⟩ hnot hψ
    rcases List.mem_cons.mp hu with hu | hu
    · obtain ⟨rfl, -, rfl⟩ : m = n ∧ u = φ.base ∧ j = i := by simpa using hu
      obtain rfl := Option.some.inj (hφ'.symm.trans hψ)
      exact hcomplete
    · exact absurd ⟨u, hu⟩ hnot
  · rintro ⟨m, u, j⟩ hx
    obtain ⟨ψ, hψ, hb', hin'⟩ := hempty _ (List.mem_cons_of_mem _ hx)
    obtain ⟨ψ', hψ', -, -, he⟩ := hg.phi hψ
    obtain rfl := he fun hmem => by
      obtain ⟨rfl, rfl⟩ : m = n ∧ j = i := by simpa using hmem
      exact hne m u hx rfl
    exact ⟨ψ', hψ', hb', hin'⟩

/-- Sealing a node that is ready completes the phis that waited for it. -/
theorem leads_sealNode (hb : b.Unconverted) {n : NodeId} (h : Inv b none [] ∅ r)
    (hready : ∀ p ∈ r.predsOf n, p ∈ r.filled) :
    Leads (sealNode n) r (fun _ r' => Inv b none [] ∅ r' ∧ Grows Set.univ r r' ∧ n ∈ r'.sealed_)
      fun _ => False := by
  have hnodup : (r.incomplete.filter (·.1 == n)).Nodup := h.merges.nodup.filter _
  have hempty : Empty (r.withSealed n) (r.incomplete.filter (·.1 == n)) := fun x hx =>
    (h.merges.waiting (List.mem_of_mem_filter hx)).2
  refine leads_bind (leads_get (leads_bind (leads_set ?_)))
  refine Leads.mono (leads_forM (fun rest s => Inv b none [] (positions rest) s ∧
    Empty s rest ∧ Grows Set.univ (r.withSealed n) s)
    ⟨h.withSealed hready, hempty, .refl _ _⟩ ?_) ?_
  rotate_left
  · rintro - r' ⟨h', -, hg⟩
    have hnone : positions [] = ∅ := Set.eq_empty_of_forall_notMem fun x ⟨v, hv⟩ => by simp at hv
    refine ⟨hnone ▸ h', ?_, hg.sealed_ n List.mem_cons_self⟩
    exact ((grows_withSealed r n).trans hg).mono (Set.subset_univ _)
  · rintro ⟨m, v, i⟩ rest s ⟨before, hbefore⟩ ⟨hs, hwait, hg⟩
    have hmem : (m, v, i) ∈ r.incomplete.filter (·.1 == n) :=
      hbefore ▸ List.mem_append_right _ List.mem_cons_self
    obtain rfl : m = n := by simpa using (List.mem_filter.mp hmem).2
    rw [← hbefore] at hnodup
    refine (leads_completePhi_head hb hs hwait (List.nodup_append.mp hnodup).2.1).mono ?_
    rintro - s' ⟨hs', hwait', hg'⟩
    exact ⟨hs', hwait', (hg.trans hg').mono (Set.subset_univ _)⟩

/-- Afterwards every node of the list that was ready is sealed. -/
theorem leads_sealReady (hb : b.Unconverted) {order : List NodeId} (h : Inv b none [] ∅ r) :
    Leads (sealReady order) r (fun _ r' => Inv b none [] ∅ r' ∧ Grows Set.univ r r' ∧
      ∀ n ∈ order, (∀ p ∈ r.predsOf n, p ∈ r.filled) → n ∈ r'.sealed_) fun _ => False := by
  refine Leads.mono (leads_forM (fun rest s => Inv b none [] ∅ s ∧ Grows Set.univ r s ∧
      ∀ n ∈ order, (∀ p ∈ r.predsOf n, p ∈ r.filled) → n ∈ rest ∨ n ∈ s.sealed_)
    ⟨h, .refl _ _, fun n hn _ => Or.inl hn⟩ ?_) ?_
  rotate_left
  · rintro - r' ⟨h', hg, hsealed⟩
    exact ⟨h', hg, fun n hn hready => (hsealed n hn hready).resolve_left List.not_mem_nil⟩
  · rintro n rest s - ⟨hs, hg, hsealed⟩
    refine leads_bind (leads_get ?_)
    have hisReady : s.isReady n = true ↔ ∀ p ∈ r.predsOf n, p ∈ r.filled := by
      simp [isReady, hg.predsOf, hg.filled]
    by_cases hnow : (!s.sealed_.contains n && s.isReady n) = true
    · rw [if_pos hnow]
      have hready := hisReady.mp (Bool.and_eq_true_iff.mp hnow).2
      have hready' : ∀ p ∈ s.predsOf n, p ∈ s.filled := by
        simpa [hg.predsOf, hg.filled] using hready
      refine (leads_sealNode hb hs hready').mono ?_
      rintro - s' ⟨hs', hg', hn⟩
      refine ⟨hs', (hg.trans hg').mono (Set.subset_univ _), fun m hm hmready => ?_⟩
      rcases hsealed m hm hmready with hrest | hdone
      · rcases List.mem_cons.mp hrest with rfl | hrest
        · exact Or.inr hn
        · exact Or.inl hrest
      · exact Or.inr (hg'.sealed_ m hdone)
    · rw [if_neg hnow]
      refine leads_pure ⟨hs, hg, fun m hm hmready => ?_⟩
      rcases hsealed m hm hmready with hrest | hdone
      · rcases List.mem_cons.mp hrest with rfl | hrest
        · -- the node was ready, so it was passed over because it is sealed
          refine Or.inr ?_
          by_contra hnot
          exact hnow (by simp [hisReady.mpr hmready, hnot])
        · exact Or.inl hrest
      · exact Or.inr hdone

end Sealing

end ContractCalls.Body
