/-
# Histories of an arena

Whatever is asked of an arena, in whatever order and with whatever arguments,
some requests failing: operands are never lost, links and what operands
remember agree, and references are counted.

A request that succeeds has one of seven effects (`Effect`), read off the
operations once.  Everything else is said of effects: what a later arena keeps
of an earlier one (`Keeps`), that each operand with a link is remembered where
the link says (`Linked`), that bound references alias what is there
(`Tallied`), and that references are renamed by references (`Akin`).  By
induction it holds after every history (`after_regular`, `akin_after`).
-/
import ContractCalls.Proofs.Operand.InPlace
import Mathlib.Data.List.Induction

namespace ContractCalls.Arena

/-! ## Views -/

/-- Whether an operand is a reference. -/
def isReference? (a : Arena) (id : OperandId) : Option Bool := (a.get? id).map (·.isReference)

/-- How many versions of a variable were made beside that on entry. -/
def versionsOf (a : Arena) (id : OperandId) : Nat := (a.slots[id.index]?.map (·.versions)).getD 0

theorem link?_add (a : Arena) (o : Operand) (id : OperandId) :
    (a.add o).2.link? id = if id = ⟨a.size⟩ then o.ssa else a.link? id := by
  have hiff : id.index = a.size ↔ id = ⟨a.size⟩ := by cases id; simp
  rw [link?, get?_add, apply_ite (Option.bind · _)]
  simp only [hiff, Option.bind_some, link?]

theorem link?_size (a : Arena) : a.link? ⟨a.size⟩ = none :=
  Option.eq_none_iff_forall_ne_some.2 fun _ h => a.not_known_size (known_of_link? h)

theorem versionsOf_add (a : Arena) (o : Operand) (id : OperandId) :
    (a.add o).2.versionsOf id = a.versionsOf id := by
  simp only [add, versionsOf, Array.getElem?_push]
  split
  · simp [*]
  · rfl

/-- An operand that is added changes no other. -/
theorem isReference?_add {a : Arena} {id : OperandId} {isRef : Bool}
    (h : a.isReference? id = some isRef) (o : Operand) :
    (a.add o).2.isReference? id = some isRef := by
  obtain ⟨p, hp, rfl⟩ := Option.map_eq_some_iff.mp h
  rw [isReference?, (includes_add a o).same hp, Option.map_some]

theorem isReference?_size_add (a : Arena) (o : Operand) :
    (a.add o).2.isReference? ⟨a.size⟩ = some o.isReference := by
  rw [isReference?, get?_add, if_pos rfl, Option.map_some]

theorem isReference?_modifySlot {a : Arena} {id : OperandId} {f : Slot → Slot}
    (hf : ∀ s, a.slots[id.index]? = some s → (f s).operand.isReference = s.operand.isReference)
    (other : OperandId) : (a.modifySlot id f).isReference? other = a.isReference? other := by
  by_cases h : id = other
  · subst h
    simp only [isReference?, get?, getElem?_modifySlot, if_pos, Option.map_map]
    exact Option.map_congr hf
  · rw [isReference?, get?_modifySlot_of_ne a h, isReference?]

theorem link?_modifySlot (a : Arena) (id other : OperandId) {f : Slot → Slot}
    (hf : ∀ s, (f s).operand.ssa = s.operand.ssa) :
    (a.modifySlot id f).link? other = a.link? other := by
  simp only [link?, get?, getElem?_modifySlot]
  split
  · cases a.slots[other.index]? <;> simp [hf]
  · rfl

theorem versionsOf_modifySlot (a : Arena) (id other : OperandId) {f : Slot → Slot}
    (hf : ∀ s, (f s).versions = s.versions) :
    (a.modifySlot id f).versionsOf other = a.versionsOf other := by
  simp only [versionsOf, getElem?_modifySlot]
  split
  · simp [Option.map_map, Function.comp_def, hf]
  · rfl

/-! ## What stays -/

/-- What a later arena has kept of an earlier one. -/
structure Keeps (a b : Arena) : Prop where
  known : ∀ {id}, a.Known id → b.Known id
  isIntroduced : ∀ {id}, a.IsIntroduced id → b.IsIntroduced id
  isVariable : ∀ {id}, a.IsVariable id → b.IsVariable id
  variant : ∀ {id v}, a.variant? id = some v → b.variant? id = some v
  pointsTo : ∀ {id t}, a.PointsTo id t → b.PointsTo id t

theorem Keeps.refl (a : Arena) : a.Keeps a := ⟨id, id, id, id, id⟩

theorem Keeps.trans {a b c : Arena} (hab : a.Keeps b) (hbc : b.Keeps c) : a.Keeps c where
  known h := hbc.known (hab.known h)
  isIntroduced h := hbc.isIntroduced (hab.isIntroduced h)
  isVariable h := hbc.isVariable (hab.isVariable h)
  variant h := hbc.variant (hab.variant h)
  pointsTo h := hbc.pointsTo (hab.pointsTo h)

theorem Extends.keeps {a b : Arena} (h : a.Extends b) : a.Keeps b :=
  ⟨h.known, h.isIntroduced, h.isVariable, h.variant, h.pointsTo⟩

/-- Nothing is lost when a slot changes but keeps the sort and the link of its operand, what it is
bound to and the form it remembers. -/
theorem keeps_modifySlot {a : Arena} {id : OperandId} {s : Slot} {f : Slot → Slot}
    (hs : a.slots[id.index]? = some s) (hssa : (f s).operand.ssa = s.operand.ssa)
    (hintroduced : (f s).operand.kind.isIntroduced = s.operand.kind.isIntroduced)
    (hvariable : (f s).operand.kind.isVariable = s.operand.kind.isVariable)
    (hbound : ∀ index t, s.operand.kind = .reference index (some t) →
      ∃ index', (f s).operand.kind = .reference index' (some t))
    (hvariant : (f s).variant = s.variant ∨ s.variant = none) : a.Keeps (a.modifySlot id f) := by
  have hself : (a.modifySlot id f).get? id = some (f s).operand := get?_modifySlot_self hs f
  have hold : a.get? id = some s.operand := by rw [get?, hs]; rfl
  have hother {i : OperandId} (hi : id ≠ i) := get?_modifySlot_of_ne a hi f
  refine ⟨fun h => by simpa [Known, size, modifySlot] using h, ?_, ?_, ?_, ?_⟩
  · rintro i ⟨o, ho, hk, ho'⟩
    by_cases hi : id = i
    · subst hi
      obtain rfl := Option.some.inj (hold.symm.trans ho)
      exact ⟨_, hself, hintroduced.trans hk, hssa.trans ho'⟩
    · exact ⟨o, (hother hi).trans ho, hk, ho'⟩
  · rintro i ⟨o, ho, hk, ho'⟩
    by_cases hi : id = i
    · subst hi
      obtain rfl := Option.some.inj (hold.symm.trans ho)
      exact ⟨_, hself, hvariable.trans hk, hssa.trans ho'⟩
    · exact ⟨o, (hother hi).trans ho, hk, ho'⟩
  · intro i v hv
    rw [variant?, getElem?_modifySlot]
    split
    · subst id
      rw [variant?, hs] at hv
      rw [hs]
      exact hvariant.elim (fun h => h.trans hv) fun h => by simp [h] at hv
    · exact hv
  · rintro i t ⟨o, index, ho, hk⟩
    by_cases hi : id = i
    · subst hi
      obtain rfl := Option.some.inj (hold.symm.trans ho)
      obtain ⟨index', hk'⟩ := hbound index t hk
      exact ⟨_, index', hself, hk'⟩
    · exact ⟨o, index, (hother hi).trans ho, hk⟩

/-! ## What agrees -/

/-- Links and what operands remember agree. -/
structure Linked (a : Arena) : Prop where
  variant : ∀ {id v}, a.variant? id = some v ↔ a.link? v = some (.variant id)
  entryVersion : ∀ {base v}, a.entryVersion? base = some v ↔ a.link? v = some (.version base 0)
  numbered : ∀ {base v n}, a.link? v = some (.version base n) → n ≤ a.versionsOf base
  distinct : ∀ {base v w n}, a.link? v = some (.version base n) →
    a.link? w = some (.version base n) → v = w
  variantBase : ∀ {id v}, a.link? v = some (.variant id) → a.IsIntroduced id
  versionBase : ∀ {base v n}, a.link? v = some (.version base n) → a.IsVariable base

theorem Linked.of_views {a b : Arena} (ha : a.Linked) (hkeeps : a.Keeps b)
    (hlink : ∀ id, b.link? id = a.link? id) (hvariant : ∀ id, b.variant? id = a.variant? id)
    (hentry : ∀ id, b.entryVersion? id = a.entryVersion? id)
    (hversions : ∀ id, b.versionsOf id = a.versionsOf id) : b.Linked where
  variant := by simp only [hlink, hvariant, ha.variant, implies_true]
  entryVersion := by simp only [hlink, hentry, ha.entryVersion, implies_true]
  numbered h := hversions _ ▸ ha.numbered (hlink _ ▸ h)
  distinct h h' := ha.distinct (hlink _ ▸ h) (hlink _ ▸ h')
  variantBase h := hkeeps.isIntroduced (ha.variantBase (hlink _ ▸ h))
  versionBase h := hkeeps.isVariable (ha.versionBase (hlink _ ▸ h))

/-- A new operand with a link that no other has, which is remembered where the link says. -/
theorem Linked.issue {a b : Arena} (ha : a.Linked) (hkeeps : a.Keeps b) {l : SsaLink}
    (hfresh : ∀ w, a.link? w ≠ some l) (hintroduced : ∀ id, l = .variant id → a.IsIntroduced id)
    (hvariable : ∀ base n, l = .version base n → a.IsVariable base ∧ n ≤ b.versionsOf base)
    (hlink : ∀ w, b.link? w = if w = ⟨a.size⟩ then some l else a.link? w)
    (hvariant : ∀ i, if l = .variant i then b.variant? i = some ⟨a.size⟩
      else b.variant? i = a.variant? i)
    (hentry : ∀ i, if l = .version i 0 then b.entryVersion? i = some ⟨a.size⟩
      else b.entryVersion? i = a.entryVersion? i)
    (hversions : ∀ i, a.versionsOf i ≤ b.versionsOf i) : b.Linked := by
  have hsize := a.link?_size
  -- an operand with a link is the new one with the new link, or was there with its link
  have hcases {w : OperandId} {l' : SsaLink} (h : b.link? w = some l') :
      w = ⟨a.size⟩ ∧ l = l' ∨ a.link? w = some l' := by
    rw [hlink] at h
    split at h
    · exact .inl ⟨‹_›, Option.some.inj h⟩
    · exact .inr h
  have hremembered {l' : SsaLink} {v : OperandId} {old new : Option OperandId}
      (h : old = some v ↔ a.link? v = some l')
      (hnew : if l = l' then new = some ⟨a.size⟩ else new = old) :
      new = some v ↔ b.link? v = some l' := by
    rw [hlink]
    split at hnew
    · next heq =>
        subst heq
        have := hfresh v
        split <;> simp_all [eq_comm]
    · next hne =>
        split
        · next hv =>
            subst hv
            simp_all
        · exact hnew ▸ h
  refine ⟨hremembered ha.variant (hvariant _), hremembered ha.entryVersion (hentry _),
    fun {base v n} h => ?_, fun {base v w n} hv hw => ?_, fun {id v} h => ?_,
    fun {base v n} h => ?_⟩
  · rcases hcases h with ⟨-, heq⟩ | hold
    · exact (hvariable base n heq).2
    · exact Nat.le_trans (ha.numbered hold) (hversions base)
  · rcases hcases hv with ⟨rfl, heq⟩ | hold <;> rcases hcases hw with ⟨rfl, heq'⟩ | hold'
    · rfl
    · exact absurd (heq ▸ hold') (hfresh w)
    · exact absurd (heq' ▸ hold) (hfresh v)
    · exact ha.distinct hold hold'
  · rcases hcases h with ⟨-, heq⟩ | hold
    · exact hkeeps.isIntroduced (hintroduced id heq)
    · exact hkeeps.isIntroduced (ha.variantBase hold)
  · rcases hcases h with ⟨-, heq⟩ | hold
    · exact hkeeps.isVariable (hvariable base n heq).1
    · exact hkeeps.isVariable (ha.versionBase hold)

/-! ## What a request does -/

/-- What a request that succeeds does to an arena. -/
inductive Effect (a : Arena) : Arena → Prop
  | nothing : Effect a a
  | added {kind : OperandKind} {ty : Ty} : (∀ index t, kind ≠ .reference index (some t)) →
      Effect a (a.add ⟨kind, ty, none⟩).2
  | variant {id : OperandId} {o : Operand} {kind : OperandKind} : a.get? id = some o →
      o.ssa = none → variantKind? o.kind = some kind → a.variant? id = none →
      Effect a ((a.add ⟨kind, o.ty, some (.variant id)⟩).2.modifySlot id fun slot =>
        { slot with variant := some ⟨a.size⟩ })
  | entryVersion {base : OperandId} {o : Operand} : a.get? base = some o →
      o.kind.isVariable = true → o.ssa = none → a.entryVersion? base = none →
      Effect a ((a.add ⟨o.kind, o.ty, some (.version base 0)⟩).2.modifySlot base fun slot =>
        { slot with entryVersion := some ⟨a.size⟩ })
  | freshVersion {base : OperandId} {o : Operand} : a.get? base = some o →
      o.kind.isVariable = true → o.ssa = none →
      Effect a ((a.add ⟨o.kind, o.ty, some (.version base (a.versionsOf base + 1))⟩).2.modifySlot
        base fun slot => { slot with versions := a.versionsOf base + 1 })
  | bound {id target : OperandId} {o : Operand} {index : Nat} : a.get? id = some o →
      o.kind = .reference index none → a.Known target →
      Effect a (a.modifySlot id fun slot =>
        { slot with operand := { slot.operand with kind := .reference index (some target) } })
  | renumbered {id : OperandId} {o : Operand} {kind : OperandKind} {number : Nat} :
      a.get? id = some o → renumber? number o.kind = some kind →
      Effect a (a.modifySlot id fun slot =>
        { slot with operand := { slot.operand with kind } })

theorem addVersion_cases {a b : Arena} {base v : OperandId} {number : Nat}
    (h : a.addVersion base number = .ok (v, b)) :
    ∃ o, a.get? base = some o ∧ o.kind.isVariable = true ∧ o.ssa = none ∧ v = ⟨a.size⟩ ∧
      b = (a.add ⟨o.kind, o.ty, some (.version base number)⟩).2 := by
  obtain ⟨o, ho, h⟩ := bind_eq_ok h
  split at h
  · next hkind =>
      cases h
      rw [Bool.and_eq_true, Option.isNone_iff_eq_none] at hkind
      exact ⟨o, get?_of_get ho, hkind.1, hkind.2, rfl, rfl⟩
  · cases h

theorem getElem?_of_slot {a : Arena} {id : OperandId} {s : Slot} (h : a.slot id = .ok s) :
    a.slots[id.index]? = some s := by
  unfold slot at h
  split at h
  · cases h
    assumption
  · cases h

section Effects

variable {a b : Arena} {id v : OperandId}

theorem effect_variantOf (h : a.variantOf id = .ok (v, b)) : a.Effect b := by
  obtain ⟨s, hs, h⟩ := bind_eq_ok h
  have hslot := getElem?_of_slot hs
  split at h
  · cases h
    exact .nothing
  · next hnone =>
      split at h
      · cases h
        exact .nothing
      · next hssa =>
          split at h
          · cases h
          · next kind hkind =>
              cases h
              refine .variant (get?_of_slot hs) (by simpa using hssa) hkind ?_
              rw [variant?, hslot]
              exact hnone

theorem effect_entryVersionOf (h : a.entryVersionOf id = .ok (v, b)) : a.Effect b := by
  obtain ⟨s, hs, h⟩ := bind_eq_ok h
  have hslot := getElem?_of_slot hs
  split at h
  · cases h
    exact .nothing
  · next hnone =>
      obtain ⟨⟨w, c⟩, hadd, h⟩ := bind_eq_ok h
      obtain ⟨o, ho, hkind, hssa, rfl, rfl⟩ := addVersion_cases hadd
      cases h
      refine .entryVersion ho hkind hssa ?_
      rw [Arena.entryVersion?, hslot]
      exact hnone

theorem effect_freshVersionOf (h : a.freshVersionOf id = .ok (v, b)) : a.Effect b := by
  obtain ⟨s, hs, h⟩ := bind_eq_ok h
  obtain ⟨⟨w, c⟩, hadd, h⟩ := bind_eq_ok h
  obtain ⟨o, ho, hkind, hssa, rfl, rfl⟩ := addVersion_cases hadd
  have hversions : a.versionsOf id = s.versions := by
    rw [versionsOf, getElem?_of_slot hs]
    rfl
  cases h
  rw [← hversions]
  exact .freshVersion ho hkind hssa

theorem effect_bindReference {target : OperandId} (h : a.bindReference id target = .ok b) :
    a.Effect b := by
  obtain ⟨t, ht, h⟩ := bind_eq_ok h
  obtain ⟨o, ho, h⟩ := bind_eq_ok h
  split at h
  · next index hkind =>
      cases h
      exact .bound (get?_of_get ho) hkind (known_of_get? (get?_of_get ht))
  · cases h
  · cases h

theorem effect_reindex {number : Nat} (h : a.reindex id number = .ok b) : a.Effect b := by
  obtain ⟨o, ho, h⟩ := bind_eq_ok h
  split at h
  · next kind hkind =>
      cases h
      exact .renumbered (get?_of_get ho) hkind
  · cases h

/-- Every request that succeeds has one of the effects. -/
theorem Request.effect {r : Request} {answer : Option OperandId}
    (h : r.outcome a = .ok (answer, b)) : a.Effect b := by
  cases r with
  | bindReference id target =>
      obtain ⟨c, hc, h⟩ := bind_eq_ok h
      cases h
      exact effect_bindReference hc
  | reindex id number =>
      obtain ⟨c, hc, h⟩ := bind_eq_ok h
      cases h
      exact effect_reindex hc
  | variantOf id =>
      obtain ⟨⟨v, c⟩, hc, h⟩ := bind_eq_ok h
      cases h
      exact effect_variantOf hc
  | entryVersionOf base =>
      obtain ⟨⟨v, c⟩, hc, h⟩ := bind_eq_ok h
      cases h
      exact effect_entryVersionOf hc
  | freshVersionOf base =>
      obtain ⟨⟨v, c⟩, hc, h⟩ := bind_eq_ok h
      cases h
      exact effect_freshVersionOf hc
  | _ =>
      cases h
      exact .added (by simp)

end Effects

/-! ## What it keeps -/

theorem unbound_of_variantKind? {kind kind' : OperandKind} (h : variantKind? kind = some kind')
    (index : Nat) (t : OperandId) : kind' ≠ .reference index (some t) := by
  cases kind <;> cases h <;> simp

/-- What an operand remembers does not matter to the others. -/
theorem keeps_issue {a : Arena} {id : OperandId} (hid : a.Known id) (o : Operand) {f : Slot → Slot}
    (hf : ∀ s, (f s).operand = s.operand)
    (hvariant : (∀ s, (f s).variant = s.variant) ∨ a.variant? id = none) :
    a.Keeps ((a.add o).2.modifySlot id f) := by
  have hadd := (includes_add a o).toExtends.keeps
  obtain ⟨p, hp⟩ := known_iff.mp (hadd.known hid)
  obtain ⟨s, hs, -, -⟩ := slot_of_get? hp
  have hkept : (f s).variant = s.variant ∨ s.variant = none := by
    refine hvariant.imp (fun h => h s) fun h => ?_
    rw [← variant?_add a o, variant?, hs] at h
    exact h
  exact hadd.trans (keeps_modifySlot hs (by rw [hf]) (by rw [hf]) (by rw [hf])
    (fun index t hk => ⟨index, by rw [hf, hk]⟩) hkept)

theorem Effect.keeps {a b : Arena} (h : a.Effect b) : a.Keeps b := by
  cases h with
  | nothing => exact .refl a
  | added _ => exact (includes_add a _).toExtends.keeps
  | variant ho _ _ hnone => exact keeps_issue (known_of_get? ho) _ (fun _ => rfl) (.inr hnone)
  | entryVersion ho _ _ _ =>
      exact keeps_issue (known_of_get? ho) _ (fun _ => rfl) (.inl fun _ => rfl)
  | freshVersion ho _ _ => exact keeps_issue (known_of_get? ho) _ (fun _ => rfl) (.inl fun _ => rfl)
  | bound ho hkind _ =>
      obtain ⟨s, hs, -, rfl⟩ := slot_of_get? ho
      refine keeps_modifySlot hs rfl ?_ ?_ ?_ (.inl rfl)
      · rw [hkind]; rfl
      · rw [hkind]; rfl
      · intro index t hk
        rw [hkind] at hk
        cases hk
  | @renumbered id o kind number ho hkind =>
      obtain ⟨s, hs, -, rfl⟩ := slot_of_get? ho
      cases hk : s.operand.kind <;> rw [hk] at hkind <;> cases hkind <;>
        refine keeps_modifySlot hs rfl (by rw [hk]; rfl) (by rw [hk]; rfl) ?_ (.inl rfl) <;>
        intro index t hk' <;> rw [hk] at hk' <;> cases hk'
      exact ⟨number, rfl⟩

/-- Other renumberings and bindings leave links and what is remembered alone. -/
theorem Linked.modifySlot {a : Arena} (ha : a.Linked) {id : OperandId} {f : Slot → Slot}
    (hkeeps : a.Keeps (a.modifySlot id f)) (hssa : ∀ s, (f s).operand.ssa = s.operand.ssa)
    (hvariant : ∀ s, (f s).variant = s.variant) (hentry : ∀ s, (f s).entryVersion = s.entryVersion)
    (hversions : ∀ s, (f s).versions = s.versions) : (a.modifySlot id f).Linked :=
  ha.of_views hkeeps (fun i => link?_modifySlot a id i hssa)
    (fun i => variant?_modifySlot_of_variant a id i hvariant)
    (fun i => entryVersion?_modifySlot_of_entryVersion a id i hentry)
    (fun i => versionsOf_modifySlot a id i hversions)

section Issue

variable (a : Arena) (o : Operand) (id i : OperandId) {f : Slot → Slot}

theorem link?_issue (hf : ∀ s, (f s).operand = s.operand) :
    ((a.add o).2.modifySlot id f).link? i = if i = ⟨a.size⟩ then o.ssa else a.link? i := by
  rw [link?_modifySlot _ _ _ fun s => congrArg Operand.ssa (hf s), link?_add]

theorem variant?_issue (hf : id = i → ∀ s, (f s).variant = s.variant) :
    ((a.add o).2.modifySlot id f).variant? i = a.variant? i := by
  rw [← variant?_add a o i]
  by_cases hi : id = i
  · exact variant?_modifySlot_of_variant _ _ _ (hf hi)
  · rw [variant?, getElem?_modifySlot, if_neg hi, variant?]

theorem entryVersion?_issue (hf : id = i → ∀ s, (f s).entryVersion = s.entryVersion) :
    ((a.add o).2.modifySlot id f).entryVersion? i = a.entryVersion? i := by
  rw [← entryVersion?_add a o i]
  by_cases hi : id = i
  · exact entryVersion?_modifySlot_of_entryVersion _ _ _ (hf hi)
  · rw [entryVersion?, getElem?_modifySlot, if_neg hi, entryVersion?]

theorem versionsOf_issue (hf : id = i → ∀ s, (f s).versions = s.versions) :
    ((a.add o).2.modifySlot id f).versionsOf i = a.versionsOf i := by
  rw [← versionsOf_add a o i]
  by_cases hi : id = i
  · exact versionsOf_modifySlot _ _ _ (hf hi)
  · rw [versionsOf, getElem?_modifySlot, if_neg hi, versionsOf]

variable {a id}

/-- The slot of an operand that was there. -/
theorem exists_slot_issue (h : a.Known id) :
    ∃ s, ((a.add o).2.modifySlot id f).slots[id.index]? = some (f s) := by
  obtain ⟨p, hp⟩ := known_iff.mp ((includes_add a o).known h)
  obtain ⟨s, hs, -, -⟩ := slot_of_get? hp
  exact ⟨s, by rw [getElem?_modifySlot, if_pos rfl, hs]; rfl⟩

end Issue

theorem isIntroduced_of_variantKind? {kind kind' : OperandKind}
    (h : variantKind? kind = some kind') : kind.isIntroduced = true := by
  cases kind <;> first | rfl | cases h

section LinkedIssue

variable {a : Arena} {id : OperandId} {o : Operand}

theorem Linked.issueVariant (ha : a.Linked) (ho : a.get? id = some o) (hssa : o.ssa = none)
    {kind : OperandKind} (hkind : variantKind? o.kind = some kind) (hnone : a.variant? id = none) :
    ((a.add ⟨kind, o.ty, some (.variant id)⟩).2.modifySlot id fun slot =>
      { slot with variant := some ⟨a.size⟩ }).Linked := by
  have hknown := known_of_get? ho
  have hkeeps := (Effect.variant ho hssa hkind hnone).keeps
  refine ha.issue hkeeps (l := .variant id) (fun w hw => ?_) ?_ (by simp)
    (fun w => link?_issue a _ id w fun _ => rfl) (fun i => ?_) (fun i => ?_) (fun i => ?_)
  · simp [ha.variant.2 hw] at hnone
  · rintro i ⟨⟩
    exact ⟨o, ho, isIntroduced_of_variantKind? hkind, hssa⟩
  · split
    · next h =>
        cases h
        obtain ⟨s, hs⟩ := exists_slot_issue ⟨kind, o.ty, some (.variant id)⟩ hknown
        rw [variant?, hs]
        rfl
    · next h => exact variant?_issue a _ id i fun hi => absurd (congrArg SsaLink.variant hi) h
  · rw [if_neg SsaLink.noConfusion]
    exact entryVersion?_issue a _ id i fun _ _ => rfl
  · refine Nat.le_of_eq (Eq.symm ?_)
    exact versionsOf_issue a _ id i fun _ _ => rfl

theorem Linked.issueEntryVersion (ha : a.Linked) (ho : a.get? id = some o)
    (hkind : o.kind.isVariable = true) (hssa : o.ssa = none) (hnone : a.entryVersion? id = none) :
    ((a.add ⟨o.kind, o.ty, some (.version id 0)⟩).2.modifySlot id fun slot =>
      { slot with entryVersion := some ⟨a.size⟩ }).Linked := by
  have hknown := known_of_get? ho
  have hkeeps := (Effect.entryVersion ho hkind hssa hnone).keeps
  refine ha.issue hkeeps (l := .version id 0) (fun w hw => ?_) (by simp) ?_
    (fun w => link?_issue a _ id w fun _ => rfl) (fun i => ?_) (fun i => ?_) (fun i => ?_)
  · simp [ha.entryVersion.2 hw] at hnone
  · rintro i n ⟨⟩
    exact ⟨⟨o, ho, hkind, hssa⟩, Nat.zero_le _⟩
  · rw [if_neg SsaLink.noConfusion]
    exact variant?_issue a _ id i fun _ _ => rfl
  · split
    · next h =>
        cases h
        obtain ⟨s, hs⟩ := exists_slot_issue ⟨o.kind, o.ty, some (.version id 0)⟩ hknown
        rw [entryVersion?, hs]
        rfl
    · next h =>
        exact entryVersion?_issue a _ id i fun hi => absurd (congrArg (SsaLink.version · 0) hi) h
  · refine Nat.le_of_eq (Eq.symm ?_)
    exact versionsOf_issue a _ id i fun _ _ => rfl

theorem Linked.issueFreshVersion (ha : a.Linked) (ho : a.get? id = some o)
    (hkind : o.kind.isVariable = true) (hssa : o.ssa = none) :
    ((a.add ⟨o.kind, o.ty, some (.version id (a.versionsOf id + 1))⟩).2.modifySlot id fun slot =>
      { slot with versions := a.versionsOf id + 1 }).Linked := by
  have hknown := known_of_get? ho
  have hkeeps := (Effect.freshVersion ho hkind hssa).keeps
  obtain ⟨s, hs⟩ := exists_slot_issue
    (f := fun slot => { slot with versions := a.versionsOf id + 1 })
    ⟨o.kind, o.ty, some (.version id (a.versionsOf id + 1))⟩ hknown
  have hself : ((a.add ⟨o.kind, o.ty, some (.version id (a.versionsOf id + 1))⟩).2.modifySlot id
      fun slot => { slot with versions := a.versionsOf id + 1 }).versionsOf id =
      a.versionsOf id + 1 := by
    rw [versionsOf, hs]
    rfl
  refine ha.issue hkeeps (l := .version id (a.versionsOf id + 1)) (fun w hw => ?_) (by simp) ?_
    (fun w => link?_issue a _ id w fun _ => rfl) (fun i => ?_) (fun i => ?_) (fun i => ?_)
  · exact absurd (ha.numbered hw) (Nat.not_succ_le_self _)
  · rintro i n ⟨⟩
    exact ⟨⟨o, ho, hkind, hssa⟩, Nat.le_of_eq hself.symm⟩
  · rw [if_neg SsaLink.noConfusion]
    exact variant?_issue a _ id i fun _ _ => rfl
  · rw [if_neg (by simp)]
    exact entryVersion?_issue a _ id i fun _ _ => rfl
  · by_cases hi : id = i
    · subst hi
      rw [hself]
      exact Nat.le_succ _
    · exact Nat.le_of_eq (versionsOf_issue a _ id i fun h => absurd h hi).symm

end LinkedIssue

theorem Effect.linked {a b : Arena} (h : a.Effect b) (ha : a.Linked) : b.Linked := by
  have hkeeps := h.keeps
  cases h with
  | nothing => exact ha
  | added _ =>
      refine ha.of_views hkeeps (fun id => ?_) (variant?_add a _) (entryVersion?_add a _)
        (versionsOf_add a _)
      rw [link?_add]
      split
      · next h => rw [h, link?_size]
      · rfl
  | variant ho hssa hkind hnone => exact ha.issueVariant ho hssa hkind hnone
  | entryVersion ho hkind hssa hnone => exact ha.issueEntryVersion ho hkind hssa hnone
  | freshVersion ho hkind hssa => exact ha.issueFreshVersion ho hkind hssa
  | bound _ _ _ =>
      exact ha.modifySlot hkeeps (fun _ => rfl) (fun _ => rfl) (fun _ => rfl) fun _ => rfl
  | renumbered _ _ =>
      exact ha.modifySlot hkeeps (fun _ => rfl) (fun _ => rfl) (fun _ => rfl) fun _ => rfl

/-! ## What is counted and bound -/

/-- What an operand remembers binds nothing. -/
theorem pointsTo_of_issue {a : Arena} {o : Operand} {id i t : OperandId} {f : Slot → Slot}
    (hi : ((a.add o).2.modifySlot id f).PointsTo i t) (hf : ∀ s, (f s).operand = s.operand)
    (ho : ∀ index t, o.kind ≠ .reference index (some t)) : a.PointsTo i t :=
  (adds_add a ho).bound (hi.congr (get?_modifySlot_of_operand _ _ _ hf).symm)

/-- What is bound afterwards was bound before, or to what is there. -/
theorem Effect.bound_or_known {a b : Arena} (h : a.Effect b) {i t : OperandId}
    (hi : b.PointsTo i t) : a.PointsTo i t ∨ a.Known t := by
  cases h with
  | nothing => exact .inl hi
  | added hkind => exact .inl ((adds_add a hkind).bound hi)
  | variant _ _ hkind _ =>
      exact .inl (pointsTo_of_issue hi (fun _ => rfl) (unbound_of_variantKind? hkind))
  | entryVersion _ hkind _ _ =>
      exact .inl (pointsTo_of_issue hi (fun _ => rfl) (not_reference_of_isVariable hkind · ·))
  | freshVersion _ hkind _ =>
      exact .inl (pointsTo_of_issue hi (fun _ => rfl) (not_reference_of_isVariable hkind · ·))
  | @bound id target o index ho hkind hknown =>
      obtain ⟨s, hs, -, rfl⟩ := slot_of_get? ho
      by_cases hid : id = i
      · subst hid
        have hself := hi.unique ⟨_, index, get?_modifySlot_self hs _, rfl⟩
        exact .inr (hself ▸ hknown)
      · exact .inl (hi.congr (get?_modifySlot_of_ne a hid _).symm)
  | @renumbered id o kind number ho hkind =>
      obtain ⟨s, hs, -, rfl⟩ := slot_of_get? ho
      by_cases hid : id = i
      · subst hid
        obtain ⟨o', index, ho', hk'⟩ := hi
        rw [get?_modifySlot_self hs] at ho'
        obtain rfl := Option.some.inj ho'
        refine .inl ?_
        cases hk : s.operand.kind <;> rw [hk] at hkind <;> cases hkind <;> cases hk'
        exact ⟨s.operand, _, ho, hk⟩
      · exact .inl (hi.congr (get?_modifySlot_of_ne a hid _).symm)

/-- No reference is left out of the count, and nothing else is in it. -/
def Exact (a : Arena) : Prop := a.references = a.referencesBelow a.size

theorem exact_empty : empty.Exact := rfl

theorem Exact.counted {a : Arena} (h : a.Exact) : a.Counted := Nat.le_of_eq h.symm

theorem Exact.add {a : Arena} (h : a.Exact) (o : Operand) : (a.add o).2.Exact := by
  rw [Exact, referencesBelow_size_add, ← h]
  show (if o.isReference then a.references + 1 else a.references) = _
  split <;> rfl

/-- Changing a slot keeps the count exact, if references stay references. -/
theorem Exact.modifySlot {a : Arena} (h : a.Exact) {id : OperandId} {f : Slot → Slot}
    (hf : ∀ s, a.slots[id.index]? = some s → (f s).operand.isReference = s.operand.isReference) :
    (a.modifySlot id f).Exact := by
  rw [Exact, referencesBelow_modifySlot hf]
  exact h

theorem operand_of_get? {a : Arena} {id : OperandId} {o : Operand} {s : Slot}
    (ho : a.get? id = some o) (hs : a.slots[id.index]? = some s) : s.operand = o := by
  rw [get?, hs] at ho
  exact Option.some.inj ho

theorem isReference_of_renumber? {number : Nat} {kind kind' : OperandKind}
    (h : renumber? number kind = some kind') (o : Operand) (hkind : o.kind = kind) :
    Operand.isReference { o with kind := kind' } = o.isReference := by
  unfold Operand.isReference
  rw [hkind]
  cases kind <;> cases h <;> rfl

theorem Effect.exact {a b : Arena} (h : a.Effect b) (ha : a.Exact) : b.Exact := by
  cases h with
  | nothing => exact ha
  | added _ => exact ha.add _
  | variant _ _ _ _ => exact (ha.add _).modifySlot fun _ _ => rfl
  | entryVersion _ _ _ _ => exact (ha.add _).modifySlot fun _ _ => rfl
  | freshVersion _ _ _ => exact (ha.add _).modifySlot fun _ _ => rfl
  | bound ho hkind _ =>
      refine ha.modifySlot fun s hs => ?_
      obtain rfl := operand_of_get? ho hs
      simp [Operand.isReference, hkind]
  | renumbered ho hkind =>
      refine ha.modifySlot fun s hs => ?_
      obtain rfl := operand_of_get? ho hs
      exact isReference_of_renumber? hkind _ rfl

/-- Bound references alias operands that are there, and the references are counted. -/
structure Tallied (a : Arena) : Prop where
  target : ∀ {id t}, a.PointsTo id t → a.Known t
  counted : a.Exact

theorem Effect.tallied {a b : Arena} (h : a.Effect b) (ha : a.Tallied) : b.Tallied where
  target hbound := h.keeps.known ((h.bound_or_known hbound).elim ha.target id)
  counted := h.exact ha.counted

/-- What renames a reference is a reference, and what renames anything else is none.  A form that
was renumbered is not `Faithful` any more, but it stays akin to what it renames. -/
structure Akin (a : Arena) : Prop where
  renamed : ∀ {id l}, a.link? id = some l → a.isReference? l.renamed = a.isReference? id

theorem akin_empty : empty.Akin where
  renamed h := by simp [empty, link?, get?] at h

/-- A renaming that is added has to be akin to what it renames. -/
theorem Akin.add {a : Arena} (h : a.Akin) {o : Operand}
    (ho : ∀ l, o.ssa = some l → a.isReference? l.renamed = some o.isReference) :
    (a.add o).2.Akin := by
  refine ⟨fun {id l} hlink => ?_⟩
  rw [link?_add] at hlink
  split at hlink
  · next heq =>
      subst heq
      rw [isReference?_size_add, isReference?_add (ho l hlink)]
  · obtain ⟨p, hp⟩ := known_iff.mp (known_of_link? hlink)
    have hid : a.isReference? id = some p.isReference := by rw [isReference?, hp, Option.map_some]
    rw [isReference?_add hid, isReference?_add ((h.renamed hlink).trans hid)]

/-- A slot may change if it keeps the link, and whether it holds a reference. -/
theorem Akin.modifySlot {a : Arena} (h : a.Akin) {id : OperandId} {f : Slot → Slot}
    (hlink : ∀ s, (f s).operand.ssa = s.operand.ssa)
    (hf : ∀ s, a.slots[id.index]? = some s → (f s).operand.isReference = s.operand.isReference) :
    (a.modifySlot id f).Akin := by
  refine ⟨fun {i l} hl => ?_⟩
  rw [link?_modifySlot a id i hlink] at hl
  rw [isReference?_modifySlot hf, isReference?_modifySlot hf, h.renamed hl]

/-- A version is akin to its variable, whose kind it has. -/
theorem Akin.addVersion {a : Arena} (h : a.Akin) {base : OperandId} {o : Operand} {number : Nat}
    (ho : a.get? base = some o) :
    (a.add ⟨o.kind, o.ty, some (.version base number)⟩).2.Akin := by
  refine h.add fun l hl => ?_
  cases hl
  rw [SsaLink.renamed, isReference?, ho, Option.map_some]
  rfl

theorem Effect.akin {a b : Arena} (h : a.Effect b) (ha : a.Akin) : b.Akin := by
  cases h with
  | nothing => exact ha
  | added _ => exact ha.add nofun
  | variant ho _ hkind _ =>
      refine Akin.modifySlot (ha.add fun l hl => ?_) (fun _ => rfl) fun _ _ => rfl
      cases hl
      rw [SsaLink.renamed, isReference?, ho, Option.map_some]
      exact congrArg some (isReference_of_unbound (unbound_variantKind? hkind).symm)
  | entryVersion ho _ _ _ =>
      exact (ha.addVersion ho).modifySlot (fun _ => rfl) fun _ _ => rfl
  | freshVersion ho _ _ =>
      exact (ha.addVersion ho).modifySlot (fun _ => rfl) fun _ _ => rfl
  | bound ho hkind _ =>
      refine ha.modifySlot (fun _ => rfl) fun s hs => ?_
      obtain rfl := operand_of_get? ho hs
      simp [Operand.isReference, hkind]
  | renumbered ho hkind =>
      refine ha.modifySlot (fun _ => rfl) fun s hs => ?_
      obtain rfl := operand_of_get? ho hs
      exact isReference_of_renumber? hkind _ rfl

/-- The conversion does to an arena what requests do. -/
theorem Change.effect {a b : Arena} (h : a.Change b) : a.Effect b := by
  cases h with
  | entryVersion hrun => exact effect_entryVersionOf hrun
  | freshVersion hrun => exact effect_freshVersionOf hrun
  | variant hrun => exact effect_variantOf hrun
  | bind hrun => exact effect_bindReference hrun

theorem Akin.changes {a b : Arena} (h : a.Akin) (hc : a.Changes b) : b.Akin := by
  induction hc with
  | refl => exact h
  | tail _ hstep ih => exact hstep.effect.akin ih

/-! ## Histories -/

/-- The arena after requests, each done in place on what the ones before it left. -/
def after (requests : List Request) : Arena :=
  requests.foldl (fun a r => (r.perform.run a).2) .empty

/-- What holds of an arena at any time. -/
structure Regular (a : Arena) : Prop where
  /-- An operand has one form at most. -/
  oneVariant : ∀ {id v w}, a.link? v = some (.variant id) → a.link? w = some (.variant id) → v = w
  /-- The form an operand remembers renames that operand. -/
  variantLink : ∀ {id v}, a.variant? id = some v → a.link? v = some (.variant id)
  /-- Different operands have different forms. -/
  variantsApart : ∀ {id id' v}, a.variant? id = some v → a.variant? id' = some v → id = id'
  /-- What the lowering introduced has a form once it is asked for it. -/
  variantMade : ∀ {id}, a.IsIntroduced id → ∃ v b, a.variantOf id = .ok (v, b) ∧
    b.variant? id = some v ∧ b.link? v = some (.variant id)
  /-- A form is its own form, and that of something the lowering introduced. -/
  variantIdle : ∀ {id v}, a.link? v = some (.variant id) →
    a.IsIntroduced id ∧ a.variantOf v = .ok (v, a)
  /-- A version is one of a variable of the program that renames nothing. -/
  versionBase : ∀ {base v n}, a.link? v = some (.version base n) → a.IsVariable base
  /-- Different versions of a variable have different numbers, so one at most has number 0. -/
  versionsApart : ∀ {base v w m n}, a.link? v = some (.version base m) →
    a.link? w = some (.version base n) → v ≠ w → m ≠ n
  counted : a.references = a.referencesBelow a.size
  links : ∀ {id l}, a.link? id = some l → a.Known l.renamed
  targets : ∀ {id t}, a.PointsTo id t → a.Known t

/-- What an arena still holds to later on. -/
structure Lasting (a b : Arena) : Prop where
  variant : ∀ {id v}, a.variant? id = some v → b.variantOf id = .ok (v, b)
  pointsTo : ∀ {id t}, a.PointsTo id t → b.PointsTo id t

theorem linked_empty : empty.Linked where
  variant := by simp [empty, variant?, link?, get?]
  entryVersion := by simp [empty, entryVersion?, link?, get?]
  numbered h := by simp [empty, link?, get?] at h
  distinct h := by simp [empty, link?, get?] at h
  variantBase h := by simp [empty, link?, get?] at h
  versionBase h := by simp [empty, link?, get?] at h

theorem tallied_empty : empty.Tallied where
  target h := by
    obtain ⟨o, index, ho, -⟩ := h
    simp [empty, get?] at ho
  counted := rfl

/-- A request has an effect or none. -/
theorem Request.effect_perform (a : Arena) (r : Request) : a.Effect (r.perform.run a).2 := by
  rw [InPlace.settles_perform a r]
  cases h : r.outcome a with
  | error e => exact .nothing
  | ok answer => exact Request.effect h

theorem after_append (earlier later : List Request) :
    after (earlier ++ later) = later.foldl (fun a r => (r.perform.run a).2) (after earlier) :=
  List.foldl_append

/-- What every effect keeps, requests keep. -/
theorem after_induction {motive : Arena → Prop} (hempty : motive .empty)
    (hstep : ∀ {a b}, a.Effect b → motive a → motive b) (requests : List Request) :
    motive (after requests) := by
  induction requests using List.reverseRecOn with
  | nil => exact hempty
  | append_singleton requests r ih =>
      rw [after_append]
      exact hstep (r.effect_perform _) ih

/-- After any requests, references are renamed by references and by nothing else. -/
theorem akin_after (requests : List Request) : (after requests).Akin :=
  after_induction akin_empty Effect.akin requests

theorem keeps_after (earlier later : List Request) :
    (after earlier).Keeps (after (earlier ++ later)) := by
  rw [after_append]
  generalize after earlier = a
  induction later generalizing a with
  | nil => exact .refl a
  | cons r later ih => exact (r.effect_perform a).keeps.trans (ih _)

theorem variantOf_of_variant? {a : Arena} {id v : OperandId} (h : a.variant? id = some v) :
    a.variantOf id = .ok (v, a) := by
  obtain ⟨s, hs, hv⟩ := Option.bind_eq_some_iff.mp h
  simp [variantOf, slot, hs, hv, bind, Except.bind, pure, Except.pure]

/-- What renames another and has no form itself is left as it is. -/
theorem variantOf_of_link? {a : Arena} {v : OperandId} {l : SsaLink} (h : a.link? v = some l)
    (hnone : a.variant? v = none) : a.variantOf v = .ok (v, a) := by
  obtain ⟨o, ho, hssa⟩ := Option.bind_eq_some_iff.mp h
  obtain ⟨s, hs, hslot, rfl⟩ := slot_of_get? ho
  have hvariant : s.variant = none := by
    rw [variant?, hs] at hnone
    exact hnone
  simp [variantOf, hslot, hvariant, hssa, bind, Except.bind, pure, Except.pure]

theorem IsIntroduced.known {a : Arena} {id : OperandId} (h : a.IsIntroduced id) : a.Known id := by
  obtain ⟨o, ho, -⟩ := h
  exact known_of_get? ho

theorem IsIntroduced.link? {a : Arena} {id : OperandId} (h : a.IsIntroduced id) :
    a.link? id = none := by
  obtain ⟨o, ho, -, hssa⟩ := h
  rw [link?_of_get? ho, hssa]

theorem Linked.coherent {a : Arena} (ha : a.Linked) (ht : a.Tallied) : a.Coherent :=
  ⟨fun ho hk => ht.target ⟨_, _, ho, hk⟩, ha.variant.1, ha.entryVersion.1⟩

theorem Linked.regular {a : Arena} (ha : a.Linked) (ht : a.Tallied) : a.Regular where
  oneVariant hv hw := Option.some.inj ((ha.variant.2 hv).symm.trans (ha.variant.2 hw))
  variantLink := ha.variant.1
  variantsApart h h' := by
    have heq := (ha.variant.1 h).symm.trans (ha.variant.1 h')
    simpa using heq
  variantMade hid := by
    obtain ⟨v, b, hrun, hb, -, hv⟩ := variantOf_spec (ha.coherent ht) hid
    exact ⟨v, b, hrun, hv, hb.variant hv⟩
  variantIdle {id v} h := by
    refine ⟨ha.variantBase h,
      variantOf_of_link? h (Option.eq_none_iff_forall_ne_some.2 fun w hw => ?_)⟩
    have hnone := (ha.variantBase (ha.variant.1 hw)).link?
    rw [h] at hnone
    cases hnone
  versionBase h := ha.versionBase h
  versionsApart hv hw hne := by
    rintro rfl
    exact hne (ha.distinct hv hw)
  counted := ht.counted
  links {id l} h := by
    cases l with
    | variant id => exact (ha.variantBase h).known
    | version base n =>
        obtain ⟨o, ho, -⟩ := ha.versionBase h
        exact known_of_get? ho
  targets h := ht.target h

/-- After any requests, also failed ones, an arena is regular, and what it holds to it still holds
to after any more.  Done in place, a further request has the outcome that it has otherwise: if it
fails, the arena is as it was. -/
theorem after_regular (earlier later : List Request) (next : Request) :
    (after earlier).Regular ∧ (after earlier).Lasting (after (earlier ++ later)) ∧
      InPlace.Settles next.perform (after earlier) (next.outcome (after earlier)) := by
  have hlinked := after_induction (motive := Linked) linked_empty Effect.linked earlier
  have htallied := after_induction (motive := Tallied) tallied_empty Effect.tallied earlier
  have hkeeps := keeps_after earlier later
  exact ⟨hlinked.regular htallied,
    ⟨fun h => variantOf_of_variant? (hkeeps.variant h), fun h => hkeeps.pointsTo h⟩,
    InPlace.settles_perform _ next⟩

end ContractCalls.Arena
