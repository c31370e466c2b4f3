/-
# The conversion keeps what a body does

A body and its conversion are run side by side along one path.  The cells `s`
of the body hold a value each; of the cells of the conversion only those are
looked at that stand for an operand of the body at the moment, and these hold
its value.  `Agrees` says so at a point inside a node, where `cur` holds the
versions written last, and `Leaves` at the end of a node.

Every operand of the conversion has an `origin`, the operand it stands for.  A
write therefore changes only what stands for the operand that is written, and
the phis of a node, each of which writes a version of its variable, may do so
in any order.

    an operation keeps `Agrees`                        (`exec_renamesOp`)
    the operations of a node do                        (`exec_renames`)
    a node takes `Enters` to `Leaves`                  (`Converted.exec_node`)
    an edge takes `Leaves` to `Enters`                 (`Converted.enters_of_leaves`)
    a path is followed with the same reads             (`Converted.trace_eq`)
-/
import ContractCalls.Proofs.SingleAssignment.Form

namespace ContractCalls.Body

open Renaming

variable {V : Type} {b : Body} {r : Renaming}

/-! ## Where operands come from -/

/-- The operand that an operand stands for. -/
def origin (a : Arena) (x : OperandId) : OperandId :=
  match a.link? x with
  | some (.version base _) => base
  | some (.variant id) => id
  | none => x

theorem nonSsa_eq_origin (a : Arena) (x : OperandId) : a.nonSsa x = origin a x := by
  unfold Arena.nonSsa origin Arena.link?
  cases (a.get? x).bind (·.ssa) with
  | none => rfl
  | some l => cases l <;> rfl

theorem origin_of_link? {a : Arena} {x : OperandId} (h : a.link? x = none) : origin a x = x := by
  rw [origin, h]

theorem origin_version {a : Arena} {x v : OperandId} {k : Nat}
    (h : a.link? x = some (.version v k)) : origin a x = v := by rw [origin, h]

theorem origin_variant {a : Arena} {x id : OperandId} (h : a.link? x = some (.variant id)) :
    origin a x = id := by rw [origin, h]

theorem origin_fixed {x : OperandId} (h : r.IsFixed x) : origin r.arena x = x := by
  obtain ⟨o, ho, hs, -⟩ := h
  exact origin_of_link? ((Arena.link?_of_get? ho).trans hs)

/-- What is written last of a variable is a version of it. -/
def Versions (a : Arena) (cur : Written) : Prop := ∀ {v w}, cur v = some w → origin a w = v

theorem Renaming.StartsAs.origin (h : Converted b r) {n : NodeId} {v w : OperandId}
    (hs : StartsAs r n v w) : origin r.arena w = v := by
  cases hs with
  | phi hφ hb =>
      obtain ⟨k, hk⟩ := h.inv.merges.version hφ
      exact hb ▸ origin_version hk
  | pred _ _ hv =>
      obtain ⟨-, k, hk⟩ := h.inv.base.value hv
      exact origin_version hk
  | entry _ he => exact origin_version (h.inv.base.coherent.entryVersion he)

theorem Renaming.ReadsAs.origin (h : Converted b r) {n : NodeId} {cur : Written}
    (hcur : Versions r.arena cur) {id x : OperandId} (hx : ReadsAs r n cur id x) :
    origin r.arena x = id := by
  cases hx with
  | written _ hc => exact hcur hc
  | incoming _ _ hs => exact hs.origin h
  | variant _ hw => exact origin_variant (h.inv.base.coherent.variant hw)
  | fixed hf => exact origin_fixed hf

theorem Renaming.WritesAs.origin (h : Converted b r) {cur cur' : Written} {id w : OperandId}
    (hw : WritesAs r cur id w cur') : origin r.arena w = id := by
  cases hw with
  | version _ hl => exact origin_version hl
  | variant _ hv _ => exact origin_variant (h.inv.base.coherent.variant hv)
  | fixed hf => exact origin_fixed hf

theorem Renaming.WritesAs.versions {cur cur' : Written} {id w : OperandId}
    (hw : WritesAs r cur id w cur') (hcur : Versions r.arena cur) : Versions r.arena cur' := by
  cases hw with
  | variant _ _ _ => exact hcur
  | fixed _ => exact hcur
  | version hv hl =>
      intro v x hx
      by_cases he : v = id
      · subst he
        obtain rfl : w = x := by simpa using hx
        exact origin_version hl
      · rw [Function.update_of_ne he] at hx
        exact hcur hx

/-! ## Agreement inside a node -/

/-- A variable is neither introduced by the lowering nor fixed; what is introduced is not fixed. -/
theorem kinds_disjoint (r : Renaming) (id : OperandId) :
    ¬ (r.arena.IsVariable id ∧ r.arena.IsIntroduced id) ∧
      ¬ (r.arena.IsVariable id ∧ r.IsFixed id) ∧ ¬ (r.arena.IsIntroduced id ∧ r.IsFixed id) := by
  refine ⟨?_, ?_, ?_⟩
  · rintro ⟨⟨o, ho, hv, -⟩, o', ho', hi, -⟩
    obtain rfl := Option.some.inj (ho.symm.trans ho')
    cases hk : o.kind <;> simp_all [OperandKind.isVariable, OperandKind.isIntroduced]
  · rintro ⟨⟨o, ho, hv, -⟩, o', ho', -, hf, -⟩
    obtain rfl := Option.some.inj (ho.symm.trans ho')
    simp [hv] at hf
  · rintro ⟨⟨o, ho, hi, -⟩, o', ho', -, -, hf⟩
    obtain rfl := Option.some.inj (ho.symm.trans ho')
    simp [hi] at hf

/-- What is read in place of an operand after it was written is what was written. -/
theorem Renaming.WritesAs.eq_of_readsAs {n : NodeId} {cur cur' : Written} {id w x : OperandId}
    (hw : WritesAs r cur id w cur') (hx : ReadsAs r n cur' id x) : x = w := by
  obtain ⟨h₁, h₂, h₃⟩ := kinds_disjoint r id
  cases hw with
  | version hv hl =>
      cases hx with
      | written _ hc => simpa using hc.symm
      | incoming _ hc _ => simp at hc
      | variant hi _ => exact absurd ⟨hv, hi⟩ h₁
      | fixed hf => exact absurd ⟨hv, hf⟩ h₂
  | variant hi hvar _ =>
      cases hx with
      | written hv _ => exact absurd ⟨hv, hi⟩ h₁
      | incoming hv _ _ => exact absurd ⟨hv, hi⟩ h₁
      | variant _ hvar' => exact Option.some.inj (hvar'.symm.trans hvar)
      | fixed hf => exact absurd ⟨hi, hf⟩ h₃
  | fixed hf =>
      cases hx with
      | written hv _ => exact absurd ⟨hv, hf⟩ h₂
      | incoming hv _ _ => exact absurd ⟨hv, hf⟩ h₂
      | variant hi _ => exact absurd ⟨hi, hf⟩ h₃
      | fixed _ => rfl

/-- What is read in place of other operands stays the same. -/
theorem Renaming.WritesAs.readsAs_of_ne {n : NodeId} {cur cur' : Written} {l w id x : OperandId}
    (hw : WritesAs r cur l w cur') (hne : id ≠ l) (hx : ReadsAs r n cur' id x) :
    ReadsAs r n cur id x := by
  cases hw with
  | variant _ _ _ => exact hx
  | fixed _ => exact hx
  | version _ _ =>
      cases hx with
      | written hv hc => exact .written hv (by rwa [Function.update_of_ne hne] at hc)
      | incoming hv hc hs => exact .incoming hv (by rwa [Function.update_of_ne hne] at hc) hs
      | variant hi hvar => exact .variant hi hvar
      | fixed hf => exact .fixed hf

/-- Whatever is to be read in place of an operand holds its value. -/
def Agrees (r : Renaming) (n : NodeId) (cur : Written) (s : OperandId → V) (τ : Cells V) : Prop :=
  ∀ {id x}, ReadsAs r n cur id x → τ x = some (s id)

theorem Agrees.write (h : Converted b r) {n : NodeId} {cur cur' : Written} {s : OperandId → V}
    {τ : Cells V} (hag : Agrees r n cur s τ) (hcur : Versions r.arena cur) {l w : OperandId}
    (hw : WritesAs r cur l w cur') (value : V) :
    Agrees r n cur' (Function.update s l value) (Function.update τ w (some value)) := by
  intro id x hx
  by_cases hid : id = l
  · subst hid
    rw [hw.eq_of_readsAs hx, Function.update_self, Function.update_self]
  · have hx' := hw.readsAs_of_ne hid hx
    -- the two stand for different operands
    have hne : x ≠ w := by
      rintro rfl
      exact hid ((hx'.origin h hcur).symm.trans (hw.origin h))
    rw [Function.update_of_ne hne, Function.update_of_ne hid]
    exact hag hx'

/-- The cells of a body before its conversion. -/
abbrev full (s : OperandId → V) : Cells V := fun id => some (s id)

theorem full_update (s : OperandId → V) (l : OperandId) (value : V) :
    Function.update (full s) l (some value) = full (Function.update s l value) := by
  funext id
  by_cases hid : id = l
  · subst hid
    simp [full]
  · simp [full, Function.update_of_ne hid]

theorem mapM_eq_some_map {α β : Type} {f : α → Option β} {g : α → β} {l : List α}
    (h : ∀ x ∈ l, f x = some (g x)) : l.mapM f = some (l.map g) := by
  induction l with
  | nil => rfl
  | cons x l ih =>
      simp [List.mapM_cons, h x List.mem_cons_self, ih fun y hy => h y (List.mem_cons_of_mem _ hy)]

theorem mapM_full (s : OperandId → V) (ids : List OperandId) :
    ids.mapM (full s) = some (ids.map s) := mapM_eq_some_map fun _ _ => rfl

/-- Renamed operands are read with the same values. -/
theorem Agrees.mapM {n : NodeId} {cur : Written} {s : OperandId → V} {τ : Cells V}
    (hag : Agrees r n cur s τ) {ids xs : List OperandId}
    (h : List.Forall₂ (ReadsAs r n cur) ids xs) : xs.mapM τ = some (ids.map s) := by
  induction h with
  | nil => rfl
  | cons hx _ ih => simp [List.mapM_cons, ih, hag hx]

section Execution

variable (meaning : Meaning V) {n : NodeId} {cur cur' : Written} {s : OperandId → V} {τ : Cells V}

/-- A renamed operation reads the same values, and leaves cells that agree. -/
theorem exec_renamesOp (h : Converted b r) (hag : Agrees r n cur s τ)
    (hcur : Versions r.arena cur) {op op' : Operation} (hop : RenamesOp r n cur op op' cur') :
    ∃ values s' τ', execOperation meaning (full s) op = some (values, full s') ∧
      execOperation meaning τ op' = some (values, τ') ∧ Agrees r n cur' s' τ' ∧
      Versions r.arena cur' := by
  have hreads : op'.reads.mapM τ = some (op.reads.map s) := hag.mapM hop.reads
  have hl := hop.lvalue
  simp only [execOperation, hreads, mapM_full, hop.shape]
  generalize op.lvalue? = l at hl ⊢
  generalize op'.lvalue? = l' at hl ⊢
  cases hl with
  | none => exact ⟨_, s, τ, rfl, rfl, hag, hcur⟩
  | some hw =>
      refine ⟨op.reads.map s, _, _, ?_, rfl, hag.write h hcur hw _, hw.versions hcur⟩
      rw [← full_update]
      rfl

/-- So do renamed operations in order. -/
theorem exec_renames (h : Converted b r) {ops ops' : List Operation}
    (hren : Renames r n cur ops ops' cur') {s : OperandId → V} {τ : Cells V}
    (hag : Agrees r n cur s τ) (hcur : Versions r.arena cur) :
    ∃ reads s' τ', execOperations meaning (full s) ops = some (reads, full s') ∧
      execOperations meaning τ ops' = some (reads, τ') ∧ Agrees r n cur' s' τ' := by
  induction hren generalizing s τ with
  | nil => exact ⟨[], s, τ, rfl, rfl, hag⟩
  | cons hop _ ih =>
      obtain ⟨values, s₁, τ₁, h₁, h₁', hag₁, hcur₁⟩ := exec_renamesOp meaning h hag hcur hop
      obtain ⟨reads, s₂, τ₂, h₂, h₂', hag₂⟩ := ih hag₁ hcur₁
      refine ⟨values :: reads, s₂, τ₂, ?_, ?_, hag₂⟩
      · simp [execOperations, h₁, h₂]
      · simp [execOperations, h₁', h₂']

end Execution

/-! ## Agreement between nodes -/

/-- At the end of a node, what is recorded for it holds the values of the variables. -/
structure Leaves (r : Renaming) (n : NodeId) (s : OperandId → V) (τ : Cells V) : Prop where
  value : ∀ {v w}, r.valueAt? n v = some w → τ w = some (s v)
  variant : ∀ {id w}, r.arena.IsIntroduced id → r.arena.variant? id = some w → τ w = some (s id)
  fixed : ∀ {id}, r.IsFixed id → τ id = some (s id)

/-- The phis of the node can be done, and leave cells that agree. -/
def Enters (r : Renaming) (left : Option NodeId) (n : NodeId) (s : OperandId → V) (τ : Cells V) :
    Prop :=
  ∀ node, r.body.node? n = some node →
    ∃ τ', enterNode left τ node.phis = some τ' ∧ Agrees r n (fun _ => none) s τ'

theorem Agrees.leaves (h : Converted b r) {n : NodeId} {cur : Written} {s : OperandId → V}
    {τ : Cells V} (hag : Agrees r n cur s τ) (htr : Tracks r n cur) : Leaves r n s τ where
  value {v w} hv := by
    obtain ⟨hvar, -⟩ := h.inv.base.value hv
    rcases htr.recorded hv with hc | ⟨hc, hs⟩
    · exact hag (.written hvar hc)
    · exact hag (.incoming hvar hc hs)
  variant hi hw := hag (.variant hi hw)
  fixed hf := hag (.fixed hf)

/-- A cell holds a value after the phis if the phis that write it put the value there, and it held
the value before or one of them does. -/
theorem assignPhis_apply {value : Phi → V} {x : OperandId} {y : V} :
    ∀ {phis : List Phi} {τ : Cells V}, (∀ φ ∈ phis, φ.lvalue = x → value φ = y) →
      (τ x = some y ∨ ∃ φ ∈ phis, φ.lvalue = x) →
      assignPhis τ phis (phis.map value) x = some y := by
  intro phis
  induction phis with
  | nil =>
      intro τ _ hx
      exact hx.resolve_right (by simp)
  | cons φ phis ih =>
      intro τ hvalue hx
      refine ih (fun ψ hψ => hvalue ψ (List.mem_cons_of_mem _ hψ)) ?_
      by_cases hφ : φ.lvalue = x
      · refine Or.inl ?_
        rw [hφ, Function.update_self, hvalue φ List.mem_cons_self hφ]
      · rcases hx with hx | ⟨ψ, hψ, hψx⟩
        · exact Or.inl (by rwa [Function.update_of_ne (Ne.symm hφ)])
        · rcases List.mem_cons.mp hψ with rfl | hψ
          · exact absurd hψx hφ
          · exact Or.inr ⟨ψ, hψ, hψx⟩

theorem lookup_of_mem_map_fst {l : List (NodeId × OperandId)} {p : NodeId}
    (hp : p ∈ l.map Prod.fst) : ∃ w, l.lookup p = some w ∧ (p, w) ∈ l := by
  induction l with
  | nil => simp at hp
  | cons x l ih =>
      obtain ⟨q, w⟩ := x
      by_cases hq : p = q
      · subst hq
        exact ⟨w, by simp, List.mem_cons_self⟩
      · obtain ⟨u, hu, hmem⟩ := ih ((List.mem_cons.mp hp).resolve_left hq)
        refine ⟨u, ?_, List.mem_cons_of_mem _ hmem⟩
        rwa [List.lookup_cons, beq_eq_false_iff_ne.mpr hq]

namespace Converted

variable {n p : NodeId} {s : OperandId → V} {τ : Cells V}

/-- A phi takes over the value of its variable from the node just left. -/
theorem phiValue_eq (h : Converted b r) (hleaves : Leaves r p s τ) (hp : p ∈ r.predsOf n) {i : Nat}
    {φ : Phi} (hφ : r.phi? n i = some φ) : phiValue (some p) τ φ = some (s φ.base) := by
  obtain ⟨hpreds, hvalues⟩ := h.complete hφ
  obtain ⟨w, hw, hmem⟩ := lookup_of_mem_map_fst (hpreds.symm ▸ hp)
  simp [phiValue, hw, hleaves.value (hvalues _ hmem).2]

/-- An edge is followed into the phis of its end. -/
theorem enters_of_leaves (h : Converted b r) (hleaves : Leaves r p s τ) (hp : p ∈ r.predsOf n) :
    Enters r (some p) n s τ := by
  intro node hnode
  have hphi : ∀ φ ∈ node.phis, ∃ i, r.phi? n i = some φ := by
    intro φ hφ
    obtain ⟨i, hi⟩ := List.getElem?_of_mem hφ
    exact ⟨i, by simp [phi?, hnode, hi]⟩
  have hmapM : node.phis.mapM (phiValue (some p) τ) = some (node.phis.map fun φ => s φ.base) :=
    mapM_eq_some_map fun φ hφ => by
      obtain ⟨i, hi⟩ := hphi φ hφ
      exact h.phiValue_eq hleaves hp hi
  refine ⟨_, by rw [enterNode, hmapM]; rfl, ?_⟩
  intro id x hx
  refine assignPhis_apply (fun φ hφ hφx => ?_) ?_
  · -- a phi that writes what stands for an operand merges that operand
    obtain ⟨i, hi⟩ := hphi φ hφ
    obtain ⟨k, hk⟩ := h.inv.merges.version hi
    rw [← origin_version hk, hφx, hx.origin h (by intro v w hv; simp at hv)]
  · cases hx with
    | written _ hc => simp at hc
    | variant hi hw => exact Or.inl (hleaves.variant hi hw)
    | fixed hf => exact Or.inl (hleaves.fixed hf)
    | incoming _ _ hs =>
        cases hs with
        | phi hφ _ =>
            obtain ⟨node', hnode', hi⟩ := Option.bind_eq_some_iff.mp hφ
            obtain rfl := Option.some.inj (hnode.symm.trans hnode')
            exact Or.inr ⟨_, List.mem_of_getElem? hi, rfl⟩
        | pred hq _ hv =>
            obtain rfl : p = _ := by simpa [hq] using hp
            exact Or.inl (hleaves.value hv)
        | entry hq _ => simp [hq] at hp

/-- The same for an edge out of a reachable node. -/
theorem enters_along (hb : b.Unconverted) (h : Converted b r) (hp : b.Reachable p)
    (hedge : b.Edge p n) (hleaves : Leaves r p s τ) : Enters r (some p) n s τ := by
  intro node hnode
  have hexists : b.node? n ≠ none := h.inv.base.node?_iff.mp (by simp [code?, hnode])
  exact h.enters_of_leaves hleaves ((h.inv.base.mem_predsOf hb).mpr ⟨hexists, hedge, hp⟩) node hnode

/-- The entry is entered with the values on entry. -/
theorem enters_entry (hb : b.Unconverted) (h : Converted b r) (hentry : b.entry = some n)
    (start : OperandId → V) : Enters r none n start (entryCells r.arena start) := by
  intro node hnode
  have hpreds : r.predsOf n = [] := List.eq_nil_iff_forall_not_mem.mpr fun p hp => by
    obtain ⟨-, hedge, hreach⟩ := (h.inv.base.mem_predsOf hb).mp hp
    exact hb.entry hentry hreach hedge
  have hnophi : ∀ i, r.phi? n i = none := fun i => by
    cases hφ : r.phi? n i with
    | none => rfl
    | some φ =>
        have := h.inv.merges.joins hφ
        simp [hpreds] at this
  have hphis : node.phis = [] := by
    cases hl : node.phis with
    | nil => rfl
    | cons φ rest =>
        have := hnophi 0
        simp [phi?, hnode, hl] at this
  refine ⟨_, by rw [hphis]; rfl, ?_⟩
  intro id x hx
  cases hx with
  | written _ hc => simp at hc
  | variant _ hw =>
      have hl : (r.arena.get? x).bind (·.ssa) = _ := h.inv.base.coherent.variant hw
      simp [assignPhis, entryCells, hl]
  | fixed hf =>
      obtain ⟨o, ho, hs, -⟩ := hf
      simp [assignPhis, entryCells, ho, hs]
  | incoming _ _ hs =>
      cases hs with
      | phi hφ _ => simp [hnophi] at hφ
      | pred hq _ _ => simp [hpreds] at hq
      | entry _ he =>
          have hl : (r.arena.get? x).bind (·.ssa) = _ := h.inv.base.coherent.entryVersion he
          simp [assignPhis, entryCells, hl]

/-! ## Agreement along a path -/

section Run

variable (meaning : Meaning V)

/-- Going through a renamed node reads the same values. -/
theorem exec_node (hb : b.Unconverted) (h : Converted b r) (hn : b.Reachable n) {node : Node}
    (hnode : b.node? n = some node) {left : Option NodeId} (hent : Enters r left n s τ) :
    ∃ node' reads s' τ', r.body.node? n = some node' ∧
      execNode meaning left (full s) node = some (reads, full s') ∧
      execNode meaning left τ node' = some (reads, τ') ∧ Leaves r n s' τ' := by
  obtain ⟨ops, cur, f, hcode, hren, htr, hterm⟩ := h.inv.base.filled n (h.filled.mpr hn) node hnode
  obtain ⟨node', hnode', he⟩ := Option.map_eq_some_iff.mp hcode
  obtain ⟨hops, hterminator⟩ : node'.operations = ops ∧
      node'.terminator = node.terminator.mapReads f := by
    simp only [Node.mk.injEq] at he
    exact ⟨he.2.2.1, he.2.2.2.1⟩
  obtain ⟨τ₁, hτ₁, hag₁⟩ := hent node' hnode'
  obtain ⟨reads, s₂, τ₂, h₂, h₂', hag₂⟩ := exec_renames meaning h hren hag₁
    (by intro v w hv; simp at hv)
  have hreads : node'.terminator.reads.mapM τ₂ = some (node.terminator.reads.map s₂) := by
    rw [hterminator, Terminator.reads_mapReads]
    exact hag₂.mapM (List.forall₂_map_right_iff.mpr (List.forall₂_same.mpr hterm))
  refine ⟨node', reads ++ [node.terminator.reads.map s₂], s₂, τ₂, hnode', ?_, ?_,
    hag₂.leaves h htr⟩
  · simp [execNode, enterNode, assignPhis, hb.phis hnode, h₂, mapM_full]
  · simp [execNode, hτ₁, hops, h₂', hreads]

/-- A path is followed with the same reads. -/
theorem trace_eq (hb : b.Unconverted) (h : Converted b r) :
    ∀ {path : List NodeId} {left : Option NodeId} {n : NodeId} {s : OperandId → V} {τ : Cells V},
      b.Reachable n → (n :: path).IsChain b.Edge → Enters r left n s τ →
      ∃ t, b.trace meaning left (full s) (n :: path) = some t ∧
        r.body.trace meaning left τ (n :: path) = some t := by
  intro path
  induction path with
  | nil =>
      intro left n s τ hn _ hent
      cases hnode : b.node? n with
      | none =>
          have hnode' : r.body.node? n = none := by
            have := (not_congr (h.inv.base.node?_iff (n := n))).mpr (by simp [hnode])
            simpa [code?] using this
          exact ⟨[[]], by simp [trace, hnode], by simp [trace, hnode']⟩
      | some node =>
          obtain ⟨node', reads, s', τ', hnode', h₁, h₂, -⟩ := h.exec_node meaning hb hn hnode hent
          exact ⟨[reads], by simp [trace, hnode, h₁], by simp [trace, hnode', h₂]⟩
  | cons m path ih =>
      intro left n s τ hn hchain hent
      obtain ⟨hedge, hrest⟩ := List.isChain_cons_cons.mp hchain
      obtain ⟨node, hnode, -⟩ := hedge.exists_node
      obtain ⟨node', reads, s', τ', hnode', h₁, h₂, hleaves⟩ :=
        h.exec_node meaning hb hn hnode hent
      have hm : b.Reachable m := by
        obtain ⟨e, he, hpath⟩ := hn
        exact ⟨e, he, hpath.tail hedge⟩
      obtain ⟨t, ht, ht'⟩ := ih hm hrest (h.enters_along hb hn hedge hleaves)
      refine ⟨reads :: t, ?_, ?_⟩
      · rw [trace, hnode]
        simp [h₁, ht]
      · rw [trace, hnode']
        simp [h₂, ht']

end Run

end Converted

/-- The conversion of a body succeeds, and the converted body reads the same values as the body in
every operation and terminator along every path, whatever operations compute and whatever the
values on entry are.  Reads of cells that hold nothing have no trace, so no version is read before
it was written. -/
theorem toSsa_trace {b : Body} (hb : b.Unconverted) :
    ∃ b', b.toSsa = (.ok (), b') ∧ (∀ n, b'.successors n = b.successors n) ∧
      ∀ {V : Type} (meaning : Meaning V) (start : OperandId → V) (path : List NodeId),
        b.IsPath path → ∃ t, b.trace meaning none (fun id => some (start id)) path = some t ∧
          b'.trace meaning none (entryCells b'.arena start) path = some t := by
  obtain ⟨r, hr, h⟩ := toSsa_spec hb
  refine ⟨_, hr, h.sameFlow.successors, ?_⟩
  rintro V meaning start path ⟨e, rest, he, rfl, hchain⟩
  obtain ⟨t, ht, ht'⟩ := h.trace_eq meaning hb ⟨e, he, .refl⟩ hchain (h.enters_entry hb he start)
  refine ⟨t, ht, ?_⟩
  rw [← ht']
  exact trace_congr meaning (by rfl) _ _ _

/-- Two rounds of the loop. -/
theorem countdown_trace :
    ∃ b', countdown.toSsa = (.ok (), b') ∧ ∃ t,
      countdown.trace (fun _ values => values.sum) none (fun _ => some 1)
        [⟨0⟩, ⟨1⟩, ⟨2⟩, ⟨1⟩, ⟨2⟩, ⟨1⟩, ⟨3⟩] = some t ∧
      b'.trace (fun _ values => values.sum) none (entryCells b'.arena fun _ => 1)
        [⟨0⟩, ⟨1⟩, ⟨2⟩, ⟨1⟩, ⟨2⟩, ⟨1⟩, ⟨3⟩] = some t := by
  obtain ⟨b', hb', -, h⟩ := toSsa_trace (b := countdown) (by decide)
  exact ⟨b', hb', h (fun _ values => values.sum) (fun _ => 1) _
    ⟨⟨0⟩, _, rfl, rfl, by decide⟩⟩

end ContractCalls.Body
