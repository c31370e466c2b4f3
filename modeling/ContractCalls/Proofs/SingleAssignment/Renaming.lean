/-
# Renaming the nodes in order

Renaming a node empties it, renames its operations one by one and its
terminator, and puts them back; then the node is filled.  None of this is
growth: what is recorded for the node changes with every write.  But no other
node looks at an unfilled one, so what renamed code elsewhere refers to is
kept.

While a node is renamed, `cur` holds the last version of each variable written
so far, and `Tracks` ties it to what is recorded.  The nodes come in reverse
postorder, so a node where fewer than two paths meet is sealed before its turn.
-/
import ContractCalls.Proofs.SingleAssignment.Reading

namespace ContractCalls.Body

open Renaming

namespace Renaming

/-! ## Changes of the node being renamed -/

/-- The conversion with other code in a node. -/
def withCode (r : Renaming) (n : NodeId) (ops : List Operation) (t : Terminator) : Renaming :=
  { r with body := r.body.modifyNode n fun node => { node with operations := ops, terminator := t } }

/-- The conversion with one more node filled. -/
def withFilled (r : Renaming) (n : NodeId) : Renaming := { r with filled := n :: r.filled }

theorem code?_withCode (r : Renaming) (n m : NodeId) (ops : List Operation) (t : Terminator) :
    (r.withCode n ops t).code? m =
      if n = m then (r.code? m).map fun node => { node with operations := ops, terminator := t }
      else r.code? m := by
  simp only [code?, withCode, node?_modifyNode]
  split
  · simp [Option.map_map, Function.comp_def]
  · rfl

@[simp] theorem phi?_withCode (r : Renaming) (n m : NodeId) (i : Nat) (ops : List Operation)
    (t : Terminator) : (r.withCode n ops t).phi? m i = r.phi? m i := by
  simp only [phi?, withCode, node?_modifyNode]
  split
  · cases r.body.node? m <;> rfl
  · rfl

/-- A node that is not there has no code to change. -/
theorem withCode_eq_self {r : Renaming} {n : NodeId} (h : r.body.node? n = none)
    (ops : List Operation) (t : Terminator) : r.withCode n ops t = r := by
  have hnodes : r.body.nodes.modify n.index
      (fun node => { node with operations := ops, terminator := t }) = r.body.nodes := by
    refine Array.ext_getElem? fun i => ?_
    rw [Array.getElem?_modify]
    split
    · subst i
      rw [show r.body.nodes[n.index]? = none from h]
      rfl
    · rfl
  unfold withCode modifyNode
  rw [hnodes]

/-- What renamed code refers to is kept, and no further node is filled. -/
structure Advances (r r' : Renaming) : Prop where
  keeps : Keeps r r'
  filled : r'.filled = r.filled

theorem Grows.advances {X : Set (NodeId × Nat)} {r r' : Renaming} (g : Grows X r r') :
    Advances r r' := ⟨g.keeps, g.filled⟩

theorem Advances.trans {r r' r'' : Renaming} (a : Advances r r') (a' : Advances r' r'') :
    Advances r r'' := ⟨a.keeps.trans a'.keeps, a'.filled.trans a.filled⟩

theorem keeps_withCode (r : Renaming) (n : NodeId) (ops : List Operation) (t : Terminator) :
    Keeps r (r.withCode n ops t) where
  arena := .refl _
  startsAs h := by
    cases h with
    | phi hφ hb => exact .phi ((phi?_withCode ..).trans hφ) hb
    | pred hp hf hv => exact .pred hp hf hv
    | entry hp he => exact .entry hp he

theorem keeps_fill (r : Renaming) (n : NodeId) (ops : List Operation) (t : Terminator) :
    Keeps r ((r.withCode n ops t).withFilled n) where
  arena := .refl _
  startsAs h := by
    cases (keeps_withCode r n ops t).startsAs h with
    | phi hφ hb => exact .phi hφ hb
    | pred hp hf hv => exact .pred hp (List.mem_cons_of_mem _ hf) hv
    | entry hp he => exact .entry hp he

section Changes

variable {b : Body} {n : NodeId} {done : List Operation} {r : Renaming}

/-- A node whose turn it is is emptied. -/
theorem Inv.start (h : Inv b none [] ∅ r) (hn : n ∈ b.reversePostorder) (hnot : n ∉ r.filled)
    (hfew : (r.predsOf n).length < 2 → n ∈ r.sealed_) :
    Inv b (some n) [] ∅ (r.withCode n [] .open_) ∧
      Tracks (r.withCode n [] .open_) n fun _ => none := by
  have k := keeps_withCode r n [] .open_
  have hinactive : ¬ Active none r n := by simp [Active, hnot]
  obtain ⟨hcode, -, hvalues⟩ := h.base.untouched hinactive
  refine ⟨⟨?_, ?_, ?_⟩, ⟨by simp, fun {v w} hv => ?_⟩⟩
  · exact
      { preds := h.base.preds
        size := by simpa [withCode] using h.base.size
        entry := h.base.entry
        coherent := h.base.coherent
        arena := h.base.arena
        order := by
          rintro m (hm | hm)
          · exact h.base.order (Or.inl hm)
          · exact Option.some.inj hm ▸ hn
        current := by
          intro m hm
          obtain rfl := Option.some.inj hm
          rw [code?_withCode, if_pos rfl, hcode]
          exact ⟨hnot, rfl⟩
        ready := h.base.ready
        few := by
          rintro m (hm | hm) hlt
          · exact h.base.few (Or.inl hm) hlt
          · obtain rfl := Option.some.inj hm
            exact hfew hlt
        untouched := by
          intro m hm
          have hne : n ≠ m := fun he => hm (Or.inr (congrArg some he))
          obtain ⟨hc, hp, hv⟩ := h.base.untouched (n := m) fun ha =>
            hm (Or.inl (ha.resolve_right (by simp)))
          rw [code?_withCode, if_neg hne]
          exact ⟨hc, fun i => (phi?_withCode ..).trans (hp i), hv⟩
        filled := by
          intro m hm
          refine (h.base.filled m hm).keeps k ?_ fun _ => rfl
          rw [code?_withCode, if_neg]
          rintro rfl
          exact hnot hm
        value := h.base.value
        aliases := h.base.aliases }
  · exact h.merges.keeps k rfl rfl rfl (fun _ _ => phi?_withCode ..) fun hc => ⟨hc.preds, hc.values⟩
  · refine h.sites.mono (.refl _) fun s w hs => ?_
    cases s with
    | phi m i =>
        obtain ⟨φ, hφ, hw⟩ := hs
        exact ⟨φ, (phi?_withCode ..).symm.trans hφ, hw⟩
    | operation m i =>
        obtain ⟨op, hop, hw⟩ := hs
        simp only [opsAt, code?_withCode] at hop
        by_cases hm : some n = some m
        · simp [hm] at hop
        · rw [if_neg hm, if_neg fun he => hm (congrArg some he)] at hop
          exact ⟨op, by simpa [opsAt] using hop, hw⟩
  · exact absurd (hv.symm.trans (hvalues v)) (Option.some_ne_none w)

/-- A value recorded for the node being renamed is seen by no filled node. -/
theorem Inv.keeps_define {E : Set (NodeId × Nat)} (h : Inv b (some n) done E r)
    (v w : OperandId) :
    Advances r (r.define n v w) ∧
      ∀ p ∈ r.filled, ∀ u, (r.define n v w).valueAt? p u = r.valueAt? p u := by
  have hother : ∀ p ∈ r.filled, ∀ u, (r.define n v w).valueAt? p u = r.valueAt? p u := by
    intro p hp u
    rw [valueAt?_define, if_neg]
    rintro ⟨rfl, -⟩
    exact (h.base.current rfl).1 hp
  refine ⟨⟨⟨.refl _, fun {m u x} hs => ?_⟩, rfl⟩, hother⟩
  cases hs with
  | phi hφ hb => exact .phi hφ hb
  | pred hp hf hv => exact .pred hp hf ((hother _ hf u).trans hv)
  | entry hp he => exact .entry hp he

/-- A write in the node being renamed. -/
theorem Inv.write {E : Set (NodeId × Nat)} (h : Inv b (some n) done E r) {cur : Written}
    (htr : Tracks r n cur) {v w : OperandId} {k : Nat} (hv : r.arena.IsVariable v)
    (hw : r.arena.link? w = some (.version v k)) :
    Inv b (some n) done E (r.define n v w) ∧
      Tracks (r.define n v w) n (Function.update cur v (some w)) := by
  obtain ⟨⟨k, -⟩, hother⟩ := h.keeps_define v w
  refine ⟨⟨?_, ?_, ?_⟩, ⟨?_, ?_⟩⟩
  · exact
      { preds := h.base.preds
        size := h.base.size
        entry := h.base.entry
        coherent := h.base.coherent
        arena := h.base.arena
        order := h.base.order
        current := h.base.current
        ready := h.base.ready
        few := h.base.few
        untouched := by
          intro m hm
          obtain ⟨hc, hp, hvalues⟩ := h.base.untouched hm
          refine ⟨hc, hp, fun u => ?_⟩
          rw [valueAt?_define, if_neg, hvalues u]
          rintro ⟨rfl, -⟩
          exact hm (Or.inr rfl)
        filled := fun m hm => (h.base.filled m hm).keeps k rfl (hother m hm)
        value := by
          intro m u x hx
          rw [valueAt?_define] at hx
          split at hx
          · obtain ⟨rfl, rfl⟩ := ‹n = m ∧ v = u›
            obtain rfl := Option.some.inj hx
            exact ⟨hv, _, hw⟩
          · exact h.base.value hx
        aliases := h.base.aliases }
  · refine h.merges.keeps k rfl rfl rfl (fun _ _ => rfl) fun hc => ⟨hc.preds, fun p hp => ?_⟩
    obtain ⟨hf, hvalue⟩ := hc.values p hp
    exact ⟨hf, (hother _ hf _).trans hvalue⟩
  · exact h.sites.mono (.refl _) fun s x hs => by cases s <;> exact hs
  · intro u x hx
    rw [Function.update_apply] at hx
    rw [valueAt?_define]
    split at hx
    · rw [if_pos ⟨rfl, ‹u = v›.symm⟩, ← hx]
    · rw [if_neg fun he => ‹¬ u = v› he.2.symm]
      exact htr.written hx
  · intro u x hx
    rw [valueAt?_define] at hx
    rw [Function.update_apply]
    split at hx
    · rw [if_pos (‹n = n ∧ v = u›.2.symm)]
      exact Or.inl hx
    · rw [if_neg fun he => ‹¬ (n = n ∧ v = u)› ⟨rfl, he.symm⟩]
      exact (htr.recorded hx).imp id fun ⟨hc, hs⟩ => ⟨hc, k.startsAs hs⟩

/-- An operation whose write is writable is done. -/
theorem Inv.emit {E : Set (NodeId × Nat)} (h : Inv b (some n) done E r) {op : Operation}
    (hw : ∀ w, op.lvalue? = some w → Writable (some n) done r w) :
    Inv b (some n) (done ++ [op]) E r := by
  -- the operations done before stand where they stood
  have hcases : ∀ s w, r.WritesAt (some n) (done ++ [op]) s w →
      r.WritesAt (some n) done s w ∨ s = .operation n done.length ∧ op.lvalue? = some w := by
    intro s w hs
    cases s with
    | phi m i => exact Or.inl hs
    | operation m i =>
        obtain ⟨op', hop, hw'⟩ := hs
        by_cases hm : some n = some m
        · rw [opsAt, if_pos hm, List.getElem?_append] at hop
          split at hop
          · exact Or.inl ⟨op', by rwa [opsAt, if_pos hm], hw'⟩
          · obtain ⟨hi, rfl⟩ : i - done.length = 0 ∧ op = op' := by
              simpa [List.getElem?_singleton] using hop
            obtain rfl := Option.some.inj hm
            refine Or.inr ⟨?_, hw'⟩
            rw [show i = done.length by omega]
        · rw [opsAt, if_neg hm] at hop
          exact Or.inl ⟨op', by rwa [opsAt, if_neg hm], hw'⟩
  refine ⟨h.base, h.merges, ?_⟩
  cases hl : op.lvalue? with
  | none =>
      refine h.sites.mono (.refl _) fun s w hs => (hcases s w hs).resolve_right ?_
      rintro ⟨-, hw'⟩
      simp [hl] at hw'
  | some x =>
      refine h.sites.extend rfl (.operation n done.length) (hw x hl) fun s w hs => ?_
      refine (hcases s w hs).imp id ?_
      rintro ⟨hs', hw'⟩
      exact ⟨hs', (Option.some.inj (hl.symm.trans hw')).symm⟩

/-- The renamed operations and terminator are put into their node, and it is filled. -/
theorem Inv.fill {ops : List Operation} {t : Terminator} (h : Inv b (some n) ops ∅ r)
    (hfilled : Filled b ((r.withCode n ops t).withFilled n) n) :
    Inv b none [] ∅ ((r.withCode n ops t).withFilled n) := by
  obtain ⟨hnot, hcode⟩ := h.base.current rfl
  have k := keeps_fill r n ops t
  have hactive : ∀ {m}, Active none ((r.withCode n ops t).withFilled n) m →
      Active (some n) r m := by
    rintro m (hm | hm)
    · rcases List.mem_cons.mp hm with rfl | hm
      · exact Or.inr rfl
      · exact Or.inl hm
    · simp at hm
  refine ⟨?_, ?_, ?_⟩
  · exact
      { preds := h.base.preds
        size := by simpa [withCode, withFilled] using h.base.size
        entry := h.base.entry
        coherent := h.base.coherent
        arena := h.base.arena
        order := fun ha => h.base.order (hactive ha)
        current := by simp
        ready := fun m hm p hp => List.mem_cons_of_mem _ (h.base.ready m hm p hp)
        few := fun ha hlt => h.base.few (hactive ha) hlt
        untouched := by
          intro m hm
          have hmn : n ≠ m := by
            rintro rfl
            exact hm (Or.inl List.mem_cons_self)
          have hm' : ¬ Active (some n) r m := by
            rintro (hf | he)
            · exact hm (Or.inl (List.mem_cons_of_mem _ hf))
            · exact hmn (Option.some.inj he)
          obtain ⟨hc, hp, hv⟩ := h.base.untouched hm'
          refine ⟨?_, fun i => (phi?_withCode ..).trans (hp i), hv⟩
          exact ((code?_withCode ..).trans (if_neg hmn)).trans hc
        filled := by
          intro m hm
          rcases List.mem_cons.mp hm with rfl | hm
          · exact hfilled
          · refine (h.base.filled m hm).keeps k ?_ fun _ => rfl
            refine (code?_withCode ..).trans (if_neg ?_)
            rintro rfl
            exact hnot hm
        value := h.base.value
        aliases := h.base.aliases }
  · exact h.merges.keeps k rfl rfl rfl (fun _ _ => phi?_withCode ..) fun hc =>
      ⟨hc.preds, fun p hp => ⟨List.mem_cons_of_mem _ (hc.values p hp).1, (hc.values p hp).2⟩⟩
  · refine h.sites.mono (.refl _) fun s w hs => ?_
    cases s with
    | phi m i =>
        obtain ⟨φ, hφ, hw⟩ := hs
        exact ⟨φ, (phi?_withCode ..).symm.trans hφ, hw⟩
    | operation m i =>
        obtain ⟨op, hop, hw⟩ := hs
        change (opsAt none [] (r.withCode n ops t) m)[i]? = some op at hop
        rw [opsAt, if_neg (by simp), code?_withCode] at hop
        by_cases hm : n = m
        · subst hm
          refine ⟨op, ?_, hw⟩
          rw [opsAt, if_pos rfl]
          cases hn : b.node? n with
          | none => simp [hcode, hn] at hop
          | some node => simpa [hcode, hn] using hop
        · rw [if_neg hm] at hop
          exact ⟨op, by rwa [opsAt, if_neg fun he => hm (Option.some.inj he)], hw⟩

end Changes

end Renaming

/-! ## Renaming the operands of a node -/

/-- The state while a node is renamed, with the operations done so far and the versions written
last in them. -/
structure Within (b : Body) (n : NodeId) (done : List Operation) (cur : Written) (r : Renaming) :
    Prop where
  node : b.node? n ≠ none
  inv : Inv b (some n) done ∅ r
  tracks : Tracks r n cur

/-- The operands are there and rename nothing. -/
def Plain (a : Arena) (ids : List OperandId) : Prop := ∀ id ∈ ids, a.Known id ∧ a.link? id = none

theorem Plain.extends {a a' : Arena} {ids : List OperandId} (h : Plain a ids) (ha : a.Extends a') :
    Plain a' ids := fun id hid => by
  obtain ⟨hk, hl⟩ := h id hid
  exact ⟨ha.known hk, (ha.link?_eq hk).trans hl⟩

section Node

variable {b : Body} {n : NodeId} {done : List Operation} {cur : Written} {r : Renaming}

/-- Looking up a known operand. -/
theorem leads_getOperand {id : OperandId} {o : Operand} {ok : Operand → Renaming → Prop}
    {err : ModelError → Prop} (ho : r.arena.get? id = some o) (hok : ok o r) :
    Leads (onArena fun a => (a.get id).map (·, a)) r ok err :=
  leads_onArena (by rw [Arena.get_of_get? ho]; rfl) hok

/-- An operand added for a read leaves everything else as it was. -/
theorem Within.withArena (h : Within b n done cur r) {a : Arena} (ha : a.Coherent)
    (hadds : r.arena.Adds a) : Within b n done cur (r.withArena a) :=
  ⟨h.node, h.inv.withArena ha hadds, (grows_withArena hadds).tracks h.tracks⟩

/-- What a renamed read gives: an operand that stands for the one read, and the one to read if the
operand read renames nothing. -/
theorem leads_renameRead (hb : b.Unconverted) (h : Within b n done cur r) {id : OperandId}
    (hid : r.arena.Known id) :
    Leads (renameRead n id) r (fun w r' => Within b n done cur r' ∧ Grows ∅ r r' ∧
      r'.arena.StandsFor id w ∧ (r.arena.link? id = none → ReadsAs r' n cur id w))
      fun _ => False := by
  obtain ⟨o, ho⟩ := Arena.known_iff.mp hid
  refine leads_bind (leads_getOperand ho ?_)
  cases hs : o.ssa with
  | some l =>
      rw [if_pos Option.isSome_some]
      refine leads_pure ⟨h, .refl _ _, .kept ho (by simp [hs]), fun hl => ?_⟩
      rw [Arena.link?_of_get? ho, hs] at hl
      exact absurd hl (Option.some_ne_none l)
  | none =>
      rw [if_neg (by simp)]
      by_cases hv : o.kind.isVariable = true
      · rw [if_pos hv]
        have hcode : r.code? n ≠ none := h.inv.base.node?_iff.mpr h.node
        refine (leads_readAt hb h.inv (Or.inr rfl) hcode ⟨o, ho, hv, hs⟩).mono ?_
        rintro w r' ⟨h', hg, hw⟩
        obtain ⟨hvar, k, hk⟩ := h'.base.value hw
        refine ⟨⟨h.node, h', hg.tracks h.tracks⟩, hg, .version hvar hk, fun _ => ?_⟩
        rcases (hg.tracks h.tracks).recorded hw with hc | ⟨hc, hstart⟩
        · exact .written hvar hc
        · exact .incoming hvar hc hstart
      · rw [if_neg hv]
        by_cases hi : o.kind.isIntroduced = true
        · rw [if_pos hi]
          have hintro : r.arena.IsIntroduced id := ⟨o, ho, hi, hs⟩
          obtain ⟨w, a, hvariant, ha, hinc, hw⟩ := Arena.variantOf_spec h.inv.base.coherent hintro
          have hintro' := hinc.isIntroduced hintro
          exact leads_onArena hvariant ⟨h.withArena ha hinc, grows_withArena hinc,
            .variant hintro' hw, fun _ => .variant hintro' hw⟩
        · rw [if_neg hi]
          have hkind : o.kind.isVariable = false ∧ o.kind.isIntroduced = false :=
            ⟨by simpa using hv, by simpa using hi⟩
          exact leads_pure ⟨h, .refl _ _, .kept ho fun _ => hkind, fun _ =>
            .fixed ⟨o, ho, hs, hkind⟩⟩

/-- Every replacement in the list is one to read. -/
def Replaces (r : Renaming) (n : NodeId) (cur : Written) (renamed : List (OperandId × OperandId)) :
    Prop := ∀ {id w}, renamed.lookup id = some w → ReadsAs r n cur id w

theorem leads_renameReads (hb : b.Unconverted) :
    ∀ {ids : List OperandId} {renamed : List (OperandId × OperandId)} {r : Renaming},
      Within b n done cur r → Plain r.arena ids → Replaces r n cur renamed →
      Leads (renameReads n renamed ids) r (fun all r' => Within b n done cur r' ∧
        Grows ∅ r r' ∧ Replaces r' n cur all ∧
        ∀ id, id ∈ ids ∨ renamed.lookup id ≠ none → all.lookup id ≠ none) fun _ => False := by
  intro ids
  induction ids with
  | nil =>
      intro renamed r h _ hren
      exact leads_pure ⟨h, .refl _ _, hren, fun id hid => hid.resolve_left List.not_mem_nil⟩
  | cons id ids ih =>
      intro renamed r h hplain hren
      have hrest : Plain r.arena ids := fun x hx => hplain x (List.mem_cons_of_mem _ hx)
      rw [renameReads]
      by_cases hseen : (renamed.lookup id).isSome = true
      · rw [if_pos hseen]
        refine (ih h hrest hren).mono ?_
        rintro all r' ⟨h', hg, hren', hall⟩
        refine ⟨h', hg, hren', fun x hx => hall x ?_⟩
        rcases hx with hx | hx
        · rcases List.mem_cons.mp hx with rfl | hx
          · exact Or.inr (Option.isSome_iff_ne_none.mp hseen)
          · exact Or.inl hx
        · exact Or.inr hx
      · rw [if_neg hseen]
        obtain ⟨hknown, hlink⟩ := hplain id List.mem_cons_self
        refine (leads_renameRead hb h hknown).bind ?_
        rintro w r₁ ⟨h₁, hg₁, -, hread⟩
        have hren₁ : Replaces r₁ n cur ((id, w) :: renamed) := by
          intro x y hxy
          rw [List.lookup_cons] at hxy
          split at hxy
          · obtain rfl := Option.some.inj hxy
            obtain rfl : x = id := eq_of_beq ‹(x == id) = true›
            exact hread hlink
          · exact hg₁.keeps.readsAs (hren hxy)
        refine (ih h₁ (hrest.extends hg₁.arena.toExtends) hren₁).mono ?_
        rintro all r' ⟨h', hg, hren', hall⟩
        refine ⟨h', hg₁.trans_empty hg, hren', fun x hx => hall x ?_⟩
        by_cases hxid : x = id
        · subst hxid
          exact Or.inr (by simp)
        · rcases hx with hx | hx
          · exact Or.inl ((List.mem_cons.mp hx).resolve_left hxid)
          · refine Or.inr ?_
            rwa [List.lookup_cons, beq_eq_false_iff_ne.mpr hxid]

/-- All operands of a list are renamed, each by one to read. -/
theorem leads_renameReads_nil (hb : b.Unconverted) (h : Within b n done cur r)
    {ids : List OperandId} (hplain : Plain r.arena ids) :
    Leads (renameReads n [] ids) r (fun renamed r' => Within b n done cur r' ∧ Grows ∅ r r' ∧
      ∀ id ∈ ids, ReadsAs r' n cur id (replace renamed id)) fun _ => False := by
  have hnil : Replaces r n cur [] := fun hl => by simp at hl
  refine (leads_renameReads hb h hplain hnil).mono ?_
  rintro renamed r' ⟨h', hg, hren, hall⟩
  refine ⟨h', hg, fun id hid => ?_⟩
  cases hl : renamed.lookup id with
  | none => exact absurd hl (hall id (Or.inl hid))
  | some w =>
      rw [replace, hl]
      exact hren hl

/-! ## Renaming the operations of a node -/

/-- What a renamed write gives: the operand to write, which is writable, and what is written last
then. -/
def WriteResult (b : Body) (n : NodeId) (done : List Operation) (cur : Written) (r : Renaming)
    (id w : OperandId) (r' : Renaming) : Prop :=
  ∃ cur', Within b n done cur' r' ∧ Advances r r' ∧ WritesAs r' cur id w cur' ∧
    Writable (some n) done r' w

/-- Writing a variable writes a fresh version. -/
theorem leads_renameWrite_variable (h : Within b n done cur r) {id : OperandId}
    (hid : r.arena.IsVariable id) :
    Leads (do
        let version ← onArena (·.freshVersionOf id)
        modify (·.define n id version)
        return version) r (WriteResult b n done cur r id) fun _ => False := by
  obtain ⟨a, k, hfresh, ha, hinc, hlink⟩ := Arena.freshVersionOf_spec h.inv.base.coherent hid
  have h₁ := h.withArena ha hinc
  have hvar := hinc.isVariable hid
  refine leads_bind (leads_onArena hfresh (leads_bind (leads_modify (leads_pure ?_))))
  obtain ⟨h₂, htr₂⟩ := h₁.inv.write h₁.tracks hvar hlink
  refine ⟨_, ⟨h.node, h₂, htr₂⟩, ?_, .version hvar hlink, .of_version hlink fun s hs => ?_⟩
  · exact (grows_withArena hinc).advances.trans (h₁.inv.keeps_define id _).1
  · refine h.inv.sites.not_writes_size s ?_
    cases s <;> exact hs

/-- A form may be written at any place. -/
theorem Within.writeResult {r' : Renaming} (h : Within b n done cur r') (ha : Advances r r')
    {id w : OperandId} (hid : r.arena.IsIntroduced id) (hw : r'.arena.variant? id = some w)
    (hbinds : r'.arena.Binds id w) : WriteResult b n done cur r id w r' := by
  have hlink := h.inv.base.coherent.variant hw
  refine ⟨cur, h, ha, .variant (ha.keeps.arena.isIntroduced hid) hw hbinds, ?_, fun hl => ?_⟩
  · exact Arena.known_of_link? hlink
  · rw [hlink] at hl
    simp at hl

/-- The form of what the lowering introduced. -/
theorem leads_variantOf (h : Within b n done cur r) {id : OperandId}
    (hid : r.arena.IsIntroduced id) :
    Leads (onArena (·.variantOf id)) r (fun w r' => Within b n done cur r' ∧ Grows ∅ r r' ∧
      r'.arena.variant? id = some w) fun _ => False := by
  obtain ⟨w, a, hvariant, ha, hinc, hw⟩ := Arena.variantOf_spec h.inv.base.coherent hid
  exact leads_onArena hvariant ⟨h.withArena ha hinc, grows_withArena hinc, hw⟩

/-- Writing what the lowering introduced, unless it is a bound reference, writes its form. -/
theorem leads_renameWrite_variant (h : Within b n done cur r) {id : OperandId} {o : Operand}
    (ho : r.arena.get? id = some o) (hs : o.ssa = none) (hk : o.kind.isIntroduced = true)
    (hbound : ∀ index target, o.kind ≠ .reference index (some target)) :
    Leads (onArena (·.variantOf id)) r (WriteResult b n done cur r id) fun _ => False := by
  have hid : r.arena.IsIntroduced id := ⟨o, ho, hk, hs⟩
  refine (leads_variantOf h hid).mono fun w r' ⟨h', hg, hw⟩ => h'.writeResult hg.advances hid hw ?_
  exact hg.arena.toExtends.binds_of_kind ho hs hbound

/-- Binding the form of a reference to what stands for what the reference aliases. -/
theorem leads_bindReference (h : Within b n done cur r) {id w target x : OperandId} {form : Operand}
    {index : Nat} (hid : r.arena.IsIntroduced id) (hw : r.arena.variant? id = some w)
    (hform : r.arena.get? w = some form) (hunbound : form.kind = .reference index none)
    (htarget : r.arena.PointsTo id target) (hx : r.arena.StandsFor target x) :
    Leads (onArena fun a => (a.bindReference w x).map ((), ·)) r (fun _ r' =>
      Within b n done cur r' ∧ Advances r r' ∧ r'.arena.variant? id = some w ∧
      r'.arena.PointsTo w x) fun _ => False := by
  have hcoherent := h.inv.base.coherent
  have hlink := hcoherent.variant hw
  have hssa : form.ssa ≠ none := by
    rw [← Arena.link?_of_get? hform, hlink]
    exact Option.some_ne_none _
  obtain ⟨a, hbind, ha, hext, hbound, hothers⟩ :=
    Arena.bindReference_spec hcoherent hform hunbound hssa (hx.known hcoherent)
  have hmirrors : a.Mirrors w x := hext.mirrors ⟨id, target, hid, hw, htarget, hx⟩
  have hinv := h.inv.withBindings ha hext fun hy => (hothers hy).imp_right fun he => by
    obtain ⟨rfl, rfl⟩ := he
    exact hmirrors
  refine leads_onArena (by rw [hbind]; rfl) ⟨⟨h.node, hinv, ?_⟩, ⟨keeps_withArena hext, rfl⟩,
    hext.variant hw, hbound⟩
  exact (keeps_withArena hext).tracks (fun _ => rfl) h.tracks

theorem leads_renameWrite (hb : b.Unconverted) (h : Within b n done cur r) {id : OperandId}
    (hknown : r.arena.Known id) (hlink : r.arena.link? id = none) :
    Leads (renameWrite n id) r (WriteResult b n done cur r id) fun _ => False := by
  obtain ⟨o, ho⟩ := Arena.known_iff.mp hknown
  have hs : o.ssa = none := (Arena.link?_of_get? ho).symm.trans hlink
  have hfixed : o.kind.isVariable = false → o.kind.isIntroduced = false →
      WriteResult b n done cur r id id r := fun hv hi =>
    ⟨cur, h, (Grows.refl ∅ r).advances, .fixed ⟨o, ho, hs, hv, hi⟩, hknown, fun hl => by
      rw [hlink] at hl
      simp at hl⟩
  refine leads_bind (leads_getOperand ho ?_)
  rw [if_neg (by simp [hs])]
  cases hk : o.kind with
  | stateVar name => exact leads_renameWrite_variable h ⟨o, ho, by rw [hk]; rfl, hs⟩
  | localVar name => exact leads_renameWrite_variable h ⟨o, ho, by rw [hk]; rfl, hs⟩
  | temporary index =>
      exact leads_renameWrite_variant h ho hs (by rw [hk]; rfl) (by simp [hk])
  | tuple index =>
      exact leads_renameWrite_variant h ho hs (by rw [hk]; rfl) (by simp [hk])
  | constant value =>
      exact leads_pure (hfixed (by rw [hk]; rfl) (by rw [hk]; rfl))
  | builtin name =>
      exact leads_pure (hfixed (by rw [hk]; rfl) (by rw [hk]; rfl))
  | reference index pointsTo =>
      have hid : r.arena.IsIntroduced id := ⟨o, ho, by rw [hk]; rfl, hs⟩
      dsimp only
      refine (leads_variantOf h hid).bind ?_
      rintro w r₁ ⟨h₁, hg₁, hw₁⟩
      have hlink₁ := h₁.inv.base.coherent.variant hw₁
      obtain ⟨form, hform, -⟩ := Option.bind_eq_some_iff.mp hlink₁
      refine leads_bind (leads_getOperand hform ?_)
      split
      · -- the form of a bound reference that is not bound itself yet
        rename_i target index' hunbound
        have hbound : r.arena.PointsTo id target := ⟨o, index, ho, hk⟩
        have htarget : r.arena.Known target := h.inv.base.coherent.bound ho hk
        refine (leads_renameRead hb h₁ (hg₁.arena.known htarget)).bind ?_
        rintro x r₂ ⟨h₂, hg₂, hx, -⟩
        have hg := hg₁.trans_empty hg₂
        refine (leads_bindReference h₂ (hg.arena.isIntroduced hid) (hg₂.arena.variant hw₁)
          (hg₂.arena.same hform) hunbound (hg.arena.pointsTo hbound) hx).bind ?_
        rintro - r₃ ⟨h₃, hadv, hw₃, hwx⟩
        refine leads_pure (h₃.writeResult (hg.advances.trans hadv) hid hw₃ fun _ => ?_)
        obtain ⟨o', index', ho', hk'⟩ := hwx
        exact ⟨o', ho', Arena.not_unbound_of_kind hk'⟩
      · -- the reference is not bound, or its form is bound already
        rename_i hsettled
        refine leads_pure (h₁.writeResult hg₁.advances hid hw₁ fun ht => ⟨form, hform, ?_⟩)
        obtain ⟨p, index', hp, hk'⟩ := hg₁.arena.toExtends.pointsTo_of_ssa ho hs ht
        obtain rfl := Option.some.inj (ho.symm.trans hp)
        rintro ⟨index'', hunbound⟩
        simp only [hk, OperandKind.reference.injEq] at hk'
        exact hsettled _ index'' hk'.2 hunbound

theorem leads_renameOperation (hb : b.Unconverted) (h : Within b n done cur r) {op : Operation}
    (hplain : Plain r.arena (op.reads ++ op.lvalue?.toList)) :
    Leads (renameOperation n op) r (fun op' r' => ∃ cur', Within b n (done ++ [op']) cur' r' ∧
      Advances r r' ∧ RenamesOp r' n cur op op' cur') fun _ => False := by
  have hreads : Plain r.arena op.reads := fun id hid => hplain id (List.mem_append_left _ hid)
  refine (leads_renameReads_nil hb h hreads).bind ?_
  rintro renamed r₁ ⟨h₁, hg₁, hrenamed⟩
  have hforall : List.Forall₂ (ReadsAs r₁ n cur) op.reads (op.reads.map (replace renamed)) :=
    List.forall₂_map_right_iff.mpr (List.forall₂_same.mpr hrenamed)
  dsimp only
  rw [Operation.lvalue?_mapReads]
  cases hl : op.lvalue? with
  | none =>
      refine leads_pure ⟨cur, ⟨h₁.node, h₁.inv.emit ?_, h₁.tracks⟩, hg₁.advances, ?_⟩
      · intro w hw
        simp [hl] at hw
      · exact ⟨by simpa using hforall, by simpa [hl] using .none, by simp⟩
  | some l =>
      obtain ⟨hknown, hlink⟩ := (hplain.extends hg₁.arena.toExtends) l (by simp [hl])
      refine (leads_renameWrite hb h₁ hknown hlink).bind ?_
      rintro w r₂ ⟨cur', h₂, hadv, hwrites, hwritable⟩
      refine leads_pure ⟨cur', ⟨h₂.node, h₂.inv.emit ?_, h₂.tracks⟩, hg₁.advances.trans hadv, ?_⟩
      · intro x hx
        obtain rfl : w = x := by simpa [hl] using hx
        exact hwritable
      · refine ⟨?_, by simpa [hl] using .some hwrites, by simp⟩
        simpa using hforall.imp fun _ _ => hadv.keeps.readsAs

theorem leads_renameOperations (hb : b.Unconverted) :
    ∀ {ops done : List Operation} {cur : Written} {r : Renaming}, Within b n done cur r →
      (∀ op ∈ ops, Plain r.arena (op.reads ++ op.lvalue?.toList)) →
      Leads (ops.mapM (renameOperation n)) r (fun ops' r' => ∃ cur',
        Within b n (done ++ ops') cur' r' ∧ Advances r r' ∧ Renames r' n cur ops ops' cur')
        fun _ => False := by
  intro ops
  induction ops with
  | nil =>
      intro done cur r h _
      exact leads_pure ⟨cur, by simpa using h, (Grows.refl ∅ r).advances, .nil⟩
  | cons op ops ih =>
      intro done cur r h hplain
      rw [List.mapM_cons]
      refine (leads_renameOperation hb h (hplain op List.mem_cons_self)).bind ?_
      rintro op' r₁ ⟨cur₁, h₁, hadv₁, hop⟩
      have hrest : ∀ op ∈ ops, Plain r₁.arena (op.reads ++ op.lvalue?.toList) := fun o ho =>
        (hplain o (List.mem_cons_of_mem _ ho)).extends hadv₁.keeps.arena
      refine (ih h₁ hrest).bind ?_
      rintro ops' r₂ ⟨cur₂, h₂, hadv₂, hops⟩
      refine leads_pure ⟨cur₂, by simpa using h₂, hadv₁.trans hadv₂, ?_⟩
      exact .cons (hadv₂.keeps.renamesOp hop) hops

end Node

/-! ## Renaming all nodes -/

section All

variable {b : Body} {n : NodeId} {r : Renaming}

/-- What an unconverted body uses is plain. -/
theorem Unconverted.plain (hb : b.Unconverted) {node : Node} (hnode : b.node? n = some node) :
    Plain b.arena node.operands := by
  intro id hid
  obtain ⟨o, ho, hs⟩ := hb.uses hnode id hid
  exact ⟨Arena.known_of_get? ho, (Arena.link?_of_get? ho).trans hs⟩

/-- A renamed node can be filled. -/
theorem Within.filled {ops : List Operation} {cur : Written} {f : OperandId → OperandId}
    {node : Node} (h : Within b n ops cur r) (hnode : b.node? n = some node)
    (hops : Renames r n (fun _ => none) node.operations ops cur)
    (hreads : ∀ id ∈ node.terminator.reads, ReadsAs r n cur id (f id)) :
    Inv b none [] ∅ ((r.withCode n ops (node.terminator.mapReads f)).withFilled n) := by
  have k := keeps_fill r n ops (node.terminator.mapReads f)
  refine h.inv.fill fun node' hnode' => ?_
  obtain rfl := Option.some.inj (hnode.symm.trans hnode')
  refine ⟨ops, cur, f, ?_, k.renames hops, k.tracks (fun _ => rfl) h.tracks,
    fun id hid => k.readsAs (hreads id hid)⟩
  refine (code?_withCode ..).trans ((if_pos rfl).trans ?_)
  rw [(h.inv.base.current rfl).2, hnode]
  rfl

theorem leads_renameNode (hb : b.Unconverted) (h : Inv b none [] ∅ r)
    (hn : n ∈ b.reversePostorder) (hnot : n ∉ r.filled)
    (hfew : (r.predsOf n).length < 2 → n ∈ r.sealed_) :
    Leads (renameNode n) r (fun _ r' => Inv b none [] ∅ (r'.withFilled n) ∧ r'.filled = r.filled)
      fun _ => False := by
  obtain ⟨h₀, htr₀⟩ := h.start hn hnot hfew
  obtain ⟨hcode, -, -⟩ := h.base.untouched (n := n) (by simp [Active, hnot])
  refine leads_bind (leads_get ?_)
  cases hrn : r.body.node? n with
  | none =>
      have hnode : b.node? n = none := by rw [← hcode, code?, hrn]; rfl
      -- there is no code to put back
      have hfill := h₀.fill (t := .open_) fun node hnode' => by simp [hnode] at hnode'
      rw [withCode_eq_self hrn, withCode_eq_self hrn] at hfill
      exact leads_pure ⟨hfill, rfl⟩
  | some node' =>
      obtain ⟨node, hnode, hops, hterm⟩ : ∃ node, b.node? n = some node ∧
          node'.operations = node.operations ∧ node'.terminator = node.terminator :=
        ⟨{ node' with phis := [] }, by rw [← hcode, code?, hrn]; rfl, rfl, rfl⟩
      have hplain := hb.plain hnode
      have h₁ : Within b n [] (fun _ => none) (r.withCode n [] .open_) :=
        ⟨by simp [hnode], h₀, htr₀⟩
      dsimp only
      rw [hops, hterm]
      refine leads_bind (leads_modify ?_)
      refine (leads_renameOperations hb h₁ ?_).bind ?_
      · intro op hop id hid
        refine (hplain.extends h.base.arena) id (List.mem_append_left _ ?_)
        exact List.mem_flatMap.mpr ⟨op, hop, hid⟩
      · rintro ops r₂ ⟨cur, h₂, hadv₂, hren⟩
        rw [List.nil_append] at h₂
        have hreads : Plain r₂.arena node.terminator.reads := fun id hid =>
          (hplain.extends h₂.inv.base.arena) id (List.mem_append_right _ hid)
        refine (leads_renameReads_nil hb h₂ hreads).bind ?_
        rintro renamed r₃ ⟨h₃, hg₃, hrenamed⟩
        refine leads_modify ⟨?_, ?_⟩
        · exact h₃.filled hnode (hg₃.keeps.renames hren) hrenamed
        · exact hg₃.filled.trans hadv₂.filled

theorem inv_start (hb : b.Unconverted) : Inv b none [] ∅ (b.startRenaming b.reversePostorder) := by
  have hphi : ∀ m i, (b.startRenaming b.reversePostorder).phi? m i = none := by
    intro m i
    cases hm : b.node? m with
    | none => simp [phi?, startRenaming, hm]
    | some node => simp [phi?, startRenaming, hm, hb.phis hm]
  have hcode : ∀ m, (b.startRenaming b.reversePostorder).code? m = b.node? m := by
    intro m
    cases hm : b.node? m with
    | none => simp [code?, startRenaming, hm]
    | some node => simp [code?, startRenaming, hm, ← hb.phis hm]
  -- what the operations write renames nothing
  have hwrites : ∀ s w, (b.startRenaming b.reversePostorder).WritesAt none [] s w →
      b.arena.Known w ∧ b.arena.link? w = none := by
    intro s w hs
    cases s with
    | phi m i =>
        obtain ⟨φ, hφ, -⟩ := hs
        simp [hphi] at hφ
    | operation m i =>
        obtain ⟨op, hop, hw⟩ := hs
        rw [opsAt, if_neg (by simp), hcode] at hop
        cases hm : b.node? m with
        | none => simp [hm] at hop
        | some node =>
            have hmem : op ∈ node.operations := List.mem_of_getElem? (by simpa [hm] using hop)
            exact hb.plain hm w (Node.mem_operands_of_lvalue hmem hw)
  refine ⟨?_, ?_, ?_⟩
  · exact
      { preds := rfl
        size := rfl
        entry := rfl
        coherent := hb.coherent
        arena := .refl _
        order := fun ha => by simp [Active, startRenaming] at ha
        current := by simp
        ready := fun m hm => by simp [startRenaming] at hm
        few := fun ha => by simp [Active, startRenaming] at ha
        untouched := fun _ => ⟨hcode _, hphi _, fun _ => rfl⟩
        filled := fun m hm => by simp [startRenaming] at hm
        value := fun hv => by simp [valueAt?, startRenaming] at hv
        aliases := Or.inl }
  · exact
      { base := fun hφ => by simp [hphi] at hφ
        version := fun hφ => by simp [hphi] at hφ
        joins := fun hφ => by simp [hphi] at hφ
        settled := fun hφ => by simp [hphi] at hφ
        waiting := fun hw => by simp [startRenaming] at hw
        nodup := List.nodup_nil
        sealed_ := fun hE => absurd hE (Set.notMem_empty _) }
  · exact
      { known := fun hs => (hwrites _ _ hs).1
        once := fun hs _ hl => absurd (hl.symm.trans (hwrites _ _ hs).2) (Option.some_ne_none _)
        entry := fun hs hl => absurd (hl.symm.trans (hwrites _ _ hs).2) (Option.some_ne_none _) }

/-- Where fewer than two paths meet, the predecessor comes earlier. -/
theorem Renaming.Base.ready_of_few (hb : b.Unconverted) (h : Base b none r) {before rest : List NodeId}
    (horder : b.reversePostorder = before ++ n :: rest) (hfew : (r.predsOf n).length < 2)
    {p : NodeId} (hp : p ∈ r.predsOf n) : p ∈ before := by
  obtain ⟨hnode, hedge, hreach⟩ := (h.mem_predsOf hb).mp hp
  rcases exists_earlier_of_reversePostorder horder with he | ⟨q, hq, hqn⟩
  · exact absurd hedge (hb.entry he hreach)
  · have hqmem : q ∈ b.reversePostorder := horder ▸ List.mem_append_left _ hq
    have hq' := (h.mem_predsOf hb).mpr ⟨hnode, hqn, mem_reversePostorder.mp hqmem⟩
    match hpreds : r.predsOf n with
    | [] => simp [hpreds] at hp
    | [x] =>
        rw [hpreds, List.mem_singleton] at hp hq'
        rwa [hp, ← hq']
    | _ :: _ :: _ =>
        rw [hpreds] at hfew
        simp only [List.length_cons] at hfew
        omega

/-- The nodes filled so far are the first ones in the order. -/
def Reached (b : Body) (rest : List NodeId) (r : Renaming) : Prop :=
  Inv b none [] ∅ r ∧ ∃ before, b.reversePostorder = before ++ rest ∧ ∀ m, m ∈ r.filled ↔ m ∈ before

/-- One round: whatever is ready is sealed, and the next node is renamed. -/
theorem leads_round (hb : b.Unconverted) {rest : List NodeId} (h : Reached b (n :: rest) r) :
    Leads (do
        sealReady b.reversePostorder
        renameNode n
        modify fun r => { r with filled := n :: r.filled }) r (fun _ => Reached b rest)
      fun _ => False := by
  obtain ⟨hinv, before, horder, hfilled⟩ := h
  have hn : n ∈ b.reversePostorder := horder ▸ List.mem_append_right _ List.mem_cons_self
  have hnot : n ∉ before := by
    have hnodup := b.reversePostorder_nodup
    rw [horder] at hnodup
    intro hmem
    exact (List.nodup_append.mp hnodup).2.2 n hmem n List.mem_cons_self rfl
  refine (leads_sealReady hb hinv).bind ?_
  rintro - r₁ ⟨h₁, hg₁, hsealed⟩
  have hfew : (r₁.predsOf n).length < 2 → n ∈ r₁.sealed_ := by
    intro hlt
    refine hsealed n hn fun p hp => (hfilled p).mpr ?_
    rw [hg₁.predsOf] at hlt
    exact hinv.base.ready_of_few hb horder hlt hp
  have hnot₁ : n ∉ r₁.filled := by
    rw [hg₁.filled, hfilled]
    exact hnot
  refine (leads_renameNode hb h₁ hn hnot₁ hfew).bind ?_
  rintro - r₂ ⟨h₂, hfilled₂⟩
  refine leads_modify ⟨h₂, before ++ [n], by simpa using horder, fun m => ?_⟩
  simp [hfilled₂, hg₁.filled, hfilled, or_comm]

/-- A finished conversion: every reachable node is filled, and every phi is complete. -/
structure Converted (b : Body) (r : Renaming) : Prop where
  inv : Inv b none [] ∅ r
  filled : ∀ {n}, n ∈ r.filled ↔ b.Reachable n
  complete : ∀ {n i φ}, r.phi? n i = some φ → Complete r n φ

theorem leads_renameAll (hb : b.Unconverted) :
    Leads (renameAll b.reversePostorder) (b.startRenaming b.reversePostorder)
      (fun _ => Converted b) fun _ => False := by
  have hstart : Reached b b.reversePostorder (b.startRenaming b.reversePostorder) :=
    ⟨inv_start hb, [], rfl, by simp [startRenaming]⟩
  refine (leads_forM (Reached b) hstart fun n rest r _ h => leads_round hb h).bind ?_
  rintro - r ⟨h, before, horder, hfilled⟩
  rw [List.append_nil] at horder
  refine (leads_sealReady hb h).mono ?_
  rintro - r' ⟨h', hg, hsealed⟩
  have hfilled' : ∀ {n}, n ∈ r'.filled ↔ b.Reachable n := by
    intro n
    rw [hg.filled, hfilled, ← horder, mem_reversePostorder]
  refine ⟨h', hfilled', fun {n i φ} hφ => ?_⟩
  rcases h'.merges.settled hφ with hE | hc | hw
  · exact absurd hE (Set.notMem_empty _)
  · exact hc
  · -- every node with a phi was ready, so nothing waits
    have hactive : Active none r' n := by
      by_contra hnot
      simp [(h'.base.untouched hnot).2.1 i] at hφ
    have hn := h'.base.order hactive
    refine absurd (hsealed n hn fun p hp => ?_) (h'.merges.waiting hw).1
    obtain ⟨-, -, hp⟩ := (h.base.mem_predsOf hb).mp hp
    rw [hfilled, ← horder]
    exact mem_reversePostorder.mpr hp

/-- The conversion of an unconverted body succeeds, and ends in a finished state. -/
theorem toSsa_spec (hb : b.Unconverted) :
    ∃ r, b.toSsa = (.ok (), { r.body with isSsa := true }) ∧ Converted b r := by
  have h := leads_renameAll hb
  unfold Leads at h
  unfold toSsa
  rw [if_neg (by simp [hb.isSsa])]
  dsimp only
  split at h
  · rename_i u r hr
    exact ⟨r, by rw [hr], h⟩
  · exact absurd h not_false

end All

end ContractCalls.Body
