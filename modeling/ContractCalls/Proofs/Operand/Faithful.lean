/-
# Renamings are of the kind of what they rename

A version of a variable and the form of what the lowering introduced have the
kind and the type of the operand they rename, but for the binding of a
reference, which comes later.  `Faithful` says so of an arena.  Whatever the
conversion does to an arena is one of four changes; `Renews` says what each of
them may do, and everything else is read off it.
-/
import ContractCalls.Proofs.Operand.Chain

namespace ContractCalls

/-- The operand that a link leads to. -/
def SsaLink.renamed : SsaLink → OperandId
  | .variant of => of
  | .version base _ => base

/-- The kind without what a reference aliases. -/
def OperandKind.unbound : OperandKind → OperandKind
  | .reference index _ => .reference index none
  | kind => kind

/-- The operands differ at most in what a reference aliases. -/
structure Operand.Alike (o p : Operand) : Prop where
  kind : o.kind.unbound = p.kind.unbound
  ty : o.ty = p.ty
  ssa : o.ssa = p.ssa

theorem isReference_of_unbound {o p : Operand} (h : o.kind.unbound = p.kind.unbound) :
    o.isReference = p.isReference := by
  unfold Operand.isReference
  cases ho : o.kind <;> cases hp : p.kind <;> simp_all [OperandKind.unbound]

theorem variableName?_of_unbound {k k' : OperandKind} (h : k.unbound = k'.unbound) :
    k.variableName? = k'.variableName? := by
  cases k <;> cases k' <;> simp_all [OperandKind.unbound, OperandKind.variableName?]

namespace Arena

/-- One change that the conversion makes to an arena. -/
inductive Change (a : Arena) : Arena → Prop
  | entryVersion {base v : OperandId} {a' : Arena} : a.entryVersionOf base = .ok (v, a') →
      Change a a'
  | freshVersion {base v : OperandId} {a' : Arena} : a.freshVersionOf base = .ok (v, a') →
      Change a a'
  | variant {id v : OperandId} {a' : Arena} : a.variantOf id = .ok (v, a') → Change a a'
  | bind {reference target : OperandId} {a' : Arena} :
      a.bindReference reference target = .ok a' → Change a a'

/-- The second arena comes from the first by changes of the conversion. -/
abbrev Changes : Arena → Arena → Prop := Relation.ReflTransGen Change

/-- Every renaming has the kind and the type of the operand it renames. -/
structure Faithful (a : Arena) : Prop where
  kept : ∀ {id o l}, a.get? id = some o → o.ssa = some l →
    ∃ p, a.get? l.renamed = some p ∧ o.kind.unbound = p.kind.unbound ∧ o.ty = p.ty

/-- The form of a bound reference is a bound one, unless it is an unbound one. -/
theorem Faithful.exists_pointsTo {a : Arena} (ha : a.Faithful) {x l t : OperandId} {o : Operand}
    (ho : a.get? x = some o) (hbound : ¬ o.Unbound) (hlink : a.link? x = some (.variant l))
    (hl : a.PointsTo l t) : ∃ u, a.PointsTo x u := by
  obtain ⟨p, index, hp, hk⟩ := hl
  rw [link?_of_get? ho] at hlink
  obtain ⟨q, hq, hkind, -⟩ := ha.kept ho hlink
  obtain rfl := Option.some.inj (hp.symm.trans hq)
  cases ho' : o.kind with
  | reference index' target =>
      cases target with
      | none => exact absurd ⟨index', ho'⟩ hbound
      | some u => exact ⟨u, o, index', ho, ho'⟩
  | _ => simp [hk, ho', OperandKind.unbound] at hkind

/-- The operand renames one of the arena of its kind and type. -/
def Copies (a : Arena) (o : Operand) : Prop :=
  ∃ l p, o.ssa = some l ∧ a.get? l.renamed = some p ∧ o.kind.unbound = p.kind.unbound ∧ o.ty = p.ty

/-- What one change does: every operand stays, up to the binding of a reference, what is new
renames an operand of its kind and type, and references are counted. -/
structure Renews (a a' : Arena) : Prop where
  alike : ∀ {id o}, a.get? id = some o → ∃ o', a'.get? id = some o' ∧ o'.Alike o
  new : ∀ {id o'}, a'.get? id = some o' → a.get? id = none → a.Copies o'
  counted : a.Counted → a'.Counted

theorem Renews.refl (a : Arena) : Renews a a where
  alike h := ⟨_, h, rfl, rfl, rfl⟩
  new h hnone := by simp [h] at hnone
  counted h := h

/-- What slots remember does not matter. -/
theorem Renews.modifySlot {a a₁ : Arena} (h : Renews a a₁) (id : OperandId) {f : Slot → Slot}
    (hf : ∀ s, (f s).operand = s.operand) : Renews a (a₁.modifySlot id f) := by
  have hget : ∀ i, (a₁.modifySlot id f).get? i = a₁.get? i := fun i =>
    get?_modifySlot_of_operand a₁ id i hf
  exact ⟨fun {i o} ho => by rw [hget]; exact h.alike ho,
    fun {i o'} ho' hnone => h.new ((hget i).symm.trans ho') hnone,
    fun hc => (h.counted hc).modifySlot id fun s _ => by rw [hf s]⟩

theorem renews_add {a : Arena} {o p : Operand} {l : SsaLink} (hl : o.ssa = some l)
    (hp : a.get? l.renamed = some p) (hkind : o.kind.unbound = p.kind.unbound)
    (hty : o.ty = p.ty) : Renews a (a.add o).2 where
  alike h := ⟨_, (includes_add a o).same h, rfl, rfl, rfl⟩
  new {id o'} ho' hnone := by
    rw [get?_add] at ho'
    split at ho'
    · obtain rfl := Option.some.inj ho'
      exact ⟨l, p, hl, hp, hkind, hty⟩
    · simp [hnone] at ho'
  counted h := h.add o

/-! ## What the changes do -/

theorem get?_of_slot {a : Arena} {id : OperandId} {s : Slot} (h : a.slot id = .ok s) :
    a.get? id = some s.operand :=
  get?_of_get (by rw [get, h]; rfl)

/-- A version has the kind and the type of its variable. -/
theorem renews_addVersion {a a' : Arena} {base v : OperandId} {number : Nat}
    (hadd : a.addVersion base number = .ok (v, a')) : Renews a a' := by
  obtain ⟨o, ho, hadd⟩ := bind_eq_ok hadd
  split at hadd
  · have ha' : (a.add ⟨o.kind, o.ty, some (.version base number)⟩).2 = a' :=
      congrArg Prod.snd (Except.ok.inj hadd)
    exact ha' ▸ renews_add rfl (get?_of_get ho) rfl rfl
  · cases hadd

theorem renews_entryVersionOf {a a' : Arena} {base v : OperandId}
    (hrun : a.entryVersionOf base = .ok (v, a')) : Renews a a' := by
  obtain ⟨s, -, hrun⟩ := bind_eq_ok hrun
  split at hrun
  · cases hrun
    exact .refl a
  · obtain ⟨⟨w, a₁⟩, hadd, hrun⟩ := bind_eq_ok hrun
    cases hrun
    exact (renews_addVersion hadd).modifySlot base fun _ => rfl

theorem renews_freshVersionOf {a a' : Arena} {base v : OperandId}
    (hrun : a.freshVersionOf base = .ok (v, a')) : Renews a a' := by
  obtain ⟨s, -, hrun⟩ := bind_eq_ok hrun
  obtain ⟨⟨w, a₁⟩, hadd, hrun⟩ := bind_eq_ok hrun
  cases hrun
  exact (renews_addVersion hadd).modifySlot base fun _ => rfl

/-- The form of an operand has its kind, with a reference unbound. -/
theorem unbound_variantKind? {kind kind' : OperandKind} (h : variantKind? kind = some kind') :
    kind'.unbound = kind.unbound := by
  cases kind with
  | temporary index => cases h; rfl
  | tuple index => cases h; rfl
  | reference index target => cases h; rfl
  | _ => cases h

theorem renews_variantOf {a a' : Arena} {id v : OperandId}
    (hrun : a.variantOf id = .ok (v, a')) : Renews a a' := by
  obtain ⟨s, hs, hrun⟩ := bind_eq_ok hrun
  split at hrun
  · cases hrun
    exact .refl a
  · split at hrun
    · cases hrun
      exact .refl a
    · split at hrun
      · cases hrun
      · next kind hkind =>
          cases hrun
          have hadd : Renews a (a.add ⟨kind, s.operand.ty, some (.variant id)⟩).2 :=
            renews_add rfl (get?_of_slot hs) (unbound_variantKind? hkind) rfl
          exact hadd.modifySlot id fun _ => rfl

/-- Binding a reference changes nothing but what it aliases. -/
theorem renews_bindReference {a a' : Arena} {reference target : OperandId}
    (hrun : a.bindReference reference target = .ok a') : Renews a a' := by
  obtain ⟨-, -, hrun⟩ := bind_eq_ok hrun
  obtain ⟨o, ho, hrun⟩ := bind_eq_ok hrun
  split at hrun
  · next index hkind =>
      cases hrun
      have ho := get?_of_get ho
      obtain ⟨s, hs, -, rfl⟩ := slot_of_get? ho
      refine ⟨fun {i p} hp => ?_, fun {i o'} ho' hnone => ?_,
        fun hc => hc.modifySlot reference fun s' hs' => ?_⟩
      · by_cases hi : reference = i
        · subst hi
          obtain rfl := Option.some.inj (ho.symm.trans hp)
          refine ⟨{ s.operand with kind := .reference index (some target) },
            get?_modifySlot_self hs _, ?_, rfl, rfl⟩
          rw [hkind]
          rfl
        · exact ⟨p, (get?_modifySlot_of_ne a hi _).trans hp, rfl, rfl, rfl⟩
      · -- no operand is new
        have hknown : a.Known i := by simpa [Known, size, Arena.modifySlot] using known_of_get? ho'
        obtain ⟨p, hp⟩ := known_iff.mp hknown
        simp [hp] at hnone
      · -- what is bound is a reference before and after
        obtain rfl := Option.some.inj (hs.symm.trans hs')
        simp [Operand.isReference, hkind]
  · cases hrun
  · cases hrun

theorem Change.renews {a a' : Arena} (h : a.Change a') : Renews a a' := by
  cases h with
  | entryVersion hrun => exact renews_entryVersionOf hrun
  | freshVersion hrun => exact renews_freshVersionOf hrun
  | variant hrun => exact renews_variantOf hrun
  | bind hrun => exact renews_bindReference hrun

/-! ## What they keep -/

theorem Renews.copies {a a' : Arena} (hr : Renews a a') {o o' : Operand} (h : a.Copies o)
    (halike : o'.Alike o) : a'.Copies o' := by
  obtain ⟨l, p, hl, hp, hkind, hty⟩ := h
  obtain ⟨p', hp', hp⟩ := hr.alike hp
  exact ⟨l, p', halike.ssa.trans hl, hp', (halike.kind.trans hkind).trans hp.kind.symm,
    (halike.ty.trans hty).trans hp.ty.symm⟩

theorem Renews.faithful {a a' : Arena} (hr : Renews a a') (h : a.Faithful) : a'.Faithful := by
  refine ⟨fun {id o' l} ho' hl => ?_⟩
  have hcopies : a'.Copies o' := by
    cases hold : a.get? id with
    | none => exact hr.copies (hr.new ho' hold) ⟨rfl, rfl, rfl⟩
    | some o =>
        obtain ⟨o₁, ho₁, halike⟩ := hr.alike hold
        obtain rfl := Option.some.inj (ho₁.symm.trans ho')
        obtain ⟨p, hp, hkind, hty⟩ := h.kept hold (halike.ssa.symm.trans hl)
        exact hr.copies ⟨l, p, halike.ssa.symm.trans hl, hp, hkind, hty⟩ halike
  obtain ⟨l', p, hl', hp⟩ := hcopies
  obtain rfl := Option.some.inj (hl'.symm.trans hl)
  exact ⟨p, hp⟩

theorem Faithful.changes {a a' : Arena} (h : a.Faithful) (hc : a.Changes a') : a'.Faithful := by
  induction hc with
  | refl => exact h
  | tail _ hstep ih => exact hstep.renews.faithful ih

theorem Counted.changes {a a' : Arena} (h : a.Counted) (hc : a.Changes a') : a'.Counted := by
  induction hc with
  | refl => exact h
  | tail _ hstep ih => exact hstep.renews.counted ih

/-- Operands stay, up to bindings of references. -/
theorem Changes.alike {a a' : Arena} (hc : a.Changes a') {id : OperandId} {o : Operand}
    (ho : a.get? id = some o) : ∃ o', a'.get? id = some o' ∧ o'.Alike o := by
  induction hc with
  | refl => exact ⟨o, ho, rfl, rfl, rfl⟩
  | tail _ hstep ih =>
      obtain ⟨o₁, ho₁, h₁⟩ := ih
      obtain ⟨o₂, ho₂, h₂⟩ := hstep.renews.alike ho₁
      exact ⟨o₂, ho₂, h₂.kind.trans h₁.kind, h₂.ty.trans h₁.ty, h₂.ssa.trans h₁.ssa⟩

/-- What is new has the kind and the type of what it renames. -/
theorem Changes.new {a a' : Arena} (hc : a.Changes a') {id : OperandId} {o' : Operand}
    (ho' : a'.get? id = some o') (hnone : a.get? id = none) : a'.Copies o' := by
  induction hc generalizing o' with
  | refl => simp [hnone] at ho'
  | @tail a₁ a₂ _ hstep ih =>
      cases hold : a₁.get? id with
      | none => exact hstep.renews.copies (hstep.renews.new ho' hold) ⟨rfl, rfl, rfl⟩
      | some o =>
          obtain ⟨o₂, ho₂, halike⟩ := hstep.renews.alike hold
          obtain rfl := Option.some.inj (ho₂.symm.trans ho')
          exact hstep.renews.copies (ih hold) halike

end Arena

end ContractCalls
