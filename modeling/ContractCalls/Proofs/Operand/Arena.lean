/-
# What the operations of an arena keep

An arena is read through five views: the operand of an id, its link to the
operand it renames, the two renamings each operand remembers, and what each
reference is bound to.  `Coherent` says that the views agree with each other;
`Extends` says what a later arena has kept of an earlier one.  Every operation
that adds a renaming gives a coherent arena again, binds no reference
(`Adds`), and says what it added.
-/
import ContractCalls.Operand.Arena
import Mathlib.Tactic.Basic

namespace ContractCalls

/-- The operand is a reference that aliases nothing yet. -/
def Operand.Unbound (o : Operand) : Prop := ∃ index, o.kind = .reference index none

namespace Arena

/-! ## Views -/

/-- The id names an operand. -/
def Known (a : Arena) (id : OperandId) : Prop := id.index < a.size

/-- The operand that an operand renames. -/
def link? (a : Arena) (id : OperandId) : Option SsaLink := (a.get? id).bind (·.ssa)

/-- The remembered form of a temporary, reference or tuple. -/
def variant? (a : Arena) (id : OperandId) : Option OperandId :=
  a.slots[id.index]?.bind (·.variant)

/-- The remembered version of a variable on entry. -/
def entryVersion? (a : Arena) (id : OperandId) : Option OperandId :=
  a.slots[id.index]?.bind (·.entryVersion)

/-- The reference is bound to the operand. -/
def PointsTo (a : Arena) (id target : OperandId) : Prop :=
  ∃ o index, a.get? id = some o ∧ o.kind = .reference index (some target)

theorem known_iff {a : Arena} {id : OperandId} : a.Known id ↔ ∃ o, a.get? id = some o := by
  simp only [Known, size, get?, Option.map_eq_some_iff]
  constructor
  · intro h
    exact ⟨_, _, Array.getElem?_eq_getElem h, rfl⟩
  · rintro ⟨_, _, h, _⟩
    exact (Array.getElem?_eq_some_iff.mp h).1

theorem known_of_get? {a : Arena} {id : OperandId} {o : Operand} (h : a.get? id = some o) :
    a.Known id := known_iff.mpr ⟨o, h⟩

theorem known_of_link? {a : Arena} {id : OperandId} {l : SsaLink} (h : a.link? id = some l) :
    a.Known id := by
  obtain ⟨o, ho, -⟩ := Option.bind_eq_some_iff.mp h
  exact known_of_get? ho

theorem link?_of_get? {a : Arena} {id : OperandId} {o : Operand} (h : a.get? id = some o) :
    a.link? id = o.ssa := by simp [link?, h]

theorem slot_of_get? {a : Arena} {id : OperandId} {o : Operand} (h : a.get? id = some o) :
    ∃ s, a.slots[id.index]? = some s ∧ a.slot id = .ok s ∧ s.operand = o := by
  obtain ⟨s, hs, rfl⟩ := Option.map_eq_some_iff.mp h
  exact ⟨s, hs, by simp [slot, hs], rfl⟩

theorem get_of_get? {a : Arena} {id : OperandId} {o : Operand} (h : a.get? id = some o) :
    a.get id = .ok o := by
  obtain ⟨s, -, hs, rfl⟩ := slot_of_get? h
  simp [get, hs, Except.map]

theorem get?_of_get {a : Arena} {id : OperandId} {o : Operand} (h : a.get id = .ok o) :
    a.get? id = some o := by
  unfold get slot at h
  split at h
  · simp only [Except.map, Except.ok.injEq] at h
    simp [get?, *]
  · simp [Except.map] at h

theorem not_unbound_of_kind {o : Operand} {index : Nat} {target : OperandId}
    (h : o.kind = .reference index (some target)) : ¬ o.Unbound := by
  rintro ⟨index', h'⟩
  simp [h] at h'

/-- A reference is bound to one operand. -/
theorem PointsTo.unique {a : Arena} {id t t' : OperandId} (h : a.PointsTo id t)
    (h' : a.PointsTo id t') : t = t' := by
  obtain ⟨o, index, ho, hk⟩ := h
  obtain ⟨o', index', ho', hk'⟩ := h'
  obtain rfl := Option.some.inj (ho.symm.trans ho')
  have he := hk.symm.trans hk'
  simp only [OperandKind.reference.injEq, Option.some.injEq] at he
  exact he.2

theorem PointsTo.known {a : Arena} {id target : OperandId} (h : a.PointsTo id target) :
    a.Known id := by
  obtain ⟨o, index, ho, -⟩ := h
  exact known_of_get? ho

/-- Bindings are read off the operands. -/
theorem PointsTo.congr {a a' : Arena} {id target : OperandId} (h : a.PointsTo id target)
    (hget : a'.get? id = a.get? id) : a'.PointsTo id target := by
  obtain ⟨o, index, ho, hk⟩ := h
  exact ⟨o, index, hget.trans ho, hk⟩

/-! ### After adding an operand -/

@[simp] theorem add_fst (a : Arena) (o : Operand) : (a.add o).1 = ⟨a.size⟩ := rfl

@[simp] theorem size_add (a : Arena) (o : Operand) : (a.add o).2.size = a.size + 1 := by
  simp [add, size]

theorem get?_add (a : Arena) (o : Operand) (id : OperandId) :
    (a.add o).2.get? id = if id.index = a.size then some o else a.get? id := by
  by_cases h : id.index = a.size
  · rw [if_pos h]
    simp [add, get?, show id.index = a.slots.size from h]
  · rw [if_neg h]
    simp [add, get?, Array.getElem?_push, show id.index ≠ a.slots.size from h]

@[simp] theorem variant?_add (a : Arena) (o : Operand) (id : OperandId) :
    (a.add o).2.variant? id = a.variant? id := by
  simp only [add, variant?, Array.getElem?_push]
  split
  · simp [*]
  · rfl

@[simp] theorem entryVersion?_add (a : Arena) (o : Operand) (id : OperandId) :
    (a.add o).2.entryVersion? id = a.entryVersion? id := by
  simp only [add, entryVersion?, Array.getElem?_push]
  split
  · simp [*]
  · rfl

/-! ### After changing a slot -/

theorem getElem?_modifySlot (a : Arena) (id other : OperandId) (f : Slot → Slot) :
    (a.modifySlot id f).slots[other.index]? =
      if id = other then a.slots[other.index]?.map f else a.slots[other.index]? := by
  have h : id = other ↔ id.index = other.index := by cases id; cases other; simp
  simp only [modifySlot, Array.getElem?_modify, h]

theorem get?_modifySlot_self {a : Arena} {id : OperandId} {slot : Slot}
    (h : a.slots[id.index]? = some slot) (f : Slot → Slot) :
    (a.modifySlot id f).get? id = some (f slot).operand := by
  rw [get?, getElem?_modifySlot, if_pos rfl, h]
  rfl

theorem get?_modifySlot_of_ne (a : Arena) {id other : OperandId} (h : id ≠ other)
    (f : Slot → Slot) : (a.modifySlot id f).get? other = a.get? other := by
  rw [get?, getElem?_modifySlot, if_neg h, get?]

/-- A change that keeps the operand keeps all operands. -/
theorem get?_modifySlot_of_operand (a : Arena) (id other : OperandId) {f : Slot → Slot}
    (hf : ∀ s, (f s).operand = s.operand) : (a.modifySlot id f).get? other = a.get? other := by
  simp only [get?, getElem?_modifySlot]
  split
  · simp [Option.map_map, Function.comp_def, hf]
  · rfl

/-- A change that keeps what its slot remembers keeps all that is remembered. -/
theorem variant?_modifySlot_of_variant (a : Arena) (id other : OperandId) {f : Slot → Slot}
    (hf : ∀ s, (f s).variant = s.variant) :
    (a.modifySlot id f).variant? other = a.variant? other := by
  simp only [variant?, getElem?_modifySlot]
  split
  · cases a.slots[other.index]? <;> simp [hf]
  · rfl

theorem entryVersion?_modifySlot_of_entryVersion (a : Arena) (id other : OperandId)
    {f : Slot → Slot} (hf : ∀ s, (f s).entryVersion = s.entryVersion) :
    (a.modifySlot id f).entryVersion? other = a.entryVersion? other := by
  simp only [entryVersion?, getElem?_modifySlot]
  split
  · cases a.slots[other.index]? <;> simp [hf]
  · rfl

/-! ## Coherence and extension -/

/-- What an arena remembers is there: bound references alias operands, and the remembered
renamings of an operand link back to it. -/
structure Coherent (a : Arena) : Prop where
  bound : ∀ {id o index target}, a.get? id = some o → o.kind = .reference index (some target) →
    a.Known target
  variant : ∀ {id v}, a.variant? id = some v → a.link? v = some (.variant id)
  entryVersion : ∀ {id v}, a.entryVersion? id = some v → a.link? v = some (.version id 0)

/-- What a reference is bound to is there. -/
theorem Coherent.target {a : Arena} (ha : a.Coherent) {id target : OperandId}
    (h : a.PointsTo id target) : a.Known target := by
  obtain ⟨o, index, ho, hk⟩ := h
  exact ha.bound ho hk

/-- Every operand of the first arena is in the second, with its link; one that renames nothing or is
no unbound reference is unchanged.  Renamings that were remembered still are. -/
structure Extends (a a' : Arena) : Prop where
  operand : ∀ {id o}, a.get? id = some o →
    ∃ o', a'.get? id = some o' ∧ o'.ssa = o.ssa ∧ (o.ssa = none → o' = o)
  settled : ∀ {id o}, a.get? id = some o → ¬ o.Unbound → a'.get? id = some o
  variant : ∀ {id v}, a.variant? id = some v → a'.variant? id = some v
  entryVersion : ∀ {id v}, a.entryVersion? id = some v → a'.entryVersion? id = some v

namespace Extends

theorem refl (a : Arena) : a.Extends a where
  operand h := ⟨_, h, rfl, fun _ => rfl⟩
  settled h _ := h
  variant h := h
  entryVersion h := h

theorem trans {a b c : Arena} (hab : a.Extends b) (hbc : b.Extends c) : a.Extends c where
  operand h := by
    obtain ⟨o₁, h₁, hs₁, he₁⟩ := hab.operand h
    obtain ⟨o₂, h₂, hs₂, he₂⟩ := hbc.operand h₁
    exact ⟨o₂, h₂, hs₂.trans hs₁, fun hs => (he₂ (hs₁.trans hs)).trans (he₁ hs)⟩
  settled h hbound := hbc.settled (hab.settled h hbound) hbound
  variant h := hbc.variant (hab.variant h)
  entryVersion h := hbc.entryVersion (hab.entryVersion h)

theorem known {a a' : Arena} (h : a.Extends a') {id : OperandId} (hid : a.Known id) :
    a'.Known id := by
  obtain ⟨o, ho⟩ := known_iff.mp hid
  obtain ⟨o', ho', -⟩ := h.operand ho
  exact known_of_get? ho'

/-- The link of a known operand stays. -/
theorem link?_eq {a a' : Arena} (h : a.Extends a') {id : OperandId} (hid : a.Known id) :
    a'.link? id = a.link? id := by
  obtain ⟨o, ho⟩ := known_iff.mp hid
  obtain ⟨o', ho', hs, -⟩ := h.operand ho
  rw [link?_of_get? ho', link?_of_get? ho, hs]

theorem link? {a a' : Arena} (h : a.Extends a') {id : OperandId} {l : SsaLink}
    (hid : a.link? id = some l) : a'.link? id = some l := by
  rw [h.link?_eq (known_of_link? hid), hid]

/-- An operand that renames nothing stays as it is. -/
theorem get?_of_ssa {a a' : Arena} (h : a.Extends a') {id : OperandId} {o : Operand}
    (ho : a.get? id = some o) (hs : o.ssa = none) : a'.get? id = some o := by
  obtain ⟨o', ho', -, he⟩ := h.operand ho
  rw [ho', he hs]

/-- A binding stays. -/
theorem pointsTo {a a' : Arena} (h : a.Extends a') {id target : OperandId}
    (hid : a.PointsTo id target) : a'.PointsTo id target := by
  obtain ⟨o, index, ho, hk⟩ := hid
  exact ⟨o, index, h.settled ho (not_unbound_of_kind hk), hk⟩

/-- What renames nothing is bound to what it was bound to. -/
theorem pointsTo_of_ssa {a a' : Arena} (h : a.Extends a') {id target : OperandId} {o : Operand}
    (ho : a.get? id = some o) (hs : o.ssa = none) (hid : a'.PointsTo id target) :
    a.PointsTo id target :=
  hid.congr (ho.trans (h.get?_of_ssa ho hs).symm)

end Extends

/-- The second arena extends the first, and every operand of the first is unchanged. -/
structure Includes (a a' : Arena) : Prop extends Extends a a' where
  same : ∀ {id o}, a.get? id = some o → a'.get? id = some o

namespace Includes

theorem of_same {a a' : Arena} (same : ∀ {id o}, a.get? id = some o → a'.get? id = some o)
    (variant : ∀ {id v}, a.variant? id = some v → a'.variant? id = some v)
    (entryVersion : ∀ {id v}, a.entryVersion? id = some v → a'.entryVersion? id = some v) :
    a.Includes a' :=
  ⟨⟨fun h => ⟨_, same h, rfl, fun _ => rfl⟩, fun h _ => same h, variant, entryVersion⟩, same⟩

theorem refl (a : Arena) : a.Includes a := ⟨.refl a, fun h => h⟩

theorem trans {a b c : Arena} (hab : a.Includes b) (hbc : b.Includes c) : a.Includes c :=
  ⟨hab.toExtends.trans hbc.toExtends, fun h => hbc.same (hab.same h)⟩

end Includes

/-- The second arena includes the first, and no reference was bound meanwhile. -/
structure Adds (a a' : Arena) : Prop extends Includes a a' where
  bound : ∀ {id target}, a'.PointsTo id target → a.PointsTo id target

namespace Adds

theorem refl (a : Arena) : a.Adds a := ⟨.refl a, fun h => h⟩

theorem trans {a b c : Arena} (hab : a.Adds b) (hbc : b.Adds c) : a.Adds c :=
  ⟨hab.toIncludes.trans hbc.toIncludes, fun h => hab.bound (hbc.bound h)⟩

/-- An arena with the same operands binds the same references. -/
theorem of_get? {a a' : Arena} (h : a.Includes a') (hget : ∀ id, a'.get? id = a.get? id) :
    a.Adds a' := ⟨h, fun hid => hid.congr (hget _).symm⟩

end Adds

theorem not_known_size (a : Arena) : ¬ a.Known ⟨a.size⟩ := Nat.lt_irrefl _

theorem includes_add (a : Arena) (o : Operand) : a.Includes (a.add o).2 :=
  .of_same (fun h => by rw [get?_add, if_neg (Nat.ne_of_lt (known_of_get? h)), h])
    (fun h => by rw [variant?_add, h]) fun h => by rw [entryVersion?_add, h]

/-- An operand that is no bound reference. -/
theorem adds_add (a : Arena) {o : Operand}
    (ho : ∀ index target, o.kind ≠ .reference index (some target)) : a.Adds (a.add o).2 := by
  refine ⟨includes_add a o, ?_⟩
  rintro id target ⟨p, index, hp, hk⟩
  rw [get?_add] at hp
  split at hp
  · obtain rfl := Option.some.inj hp
    exact absurd hk (ho index target)
  · exact ⟨p, index, hp, hk⟩

/-- A larger arena is coherent if what is new in it is. -/
theorem Coherent.grow {a a' : Arena} (ha : a.Coherent) (hext : a.Extends a')
    (hbound : ∀ {id o index target}, a'.get? id = some o →
      o.kind = .reference index (some target) → a.get? id = some o ∨ a'.Known target)
    (hvariant : ∀ {id v}, a'.variant? id = some v →
      a.variant? id = some v ∨ a'.link? v = some (.variant id))
    (hentry : ∀ {id v}, a'.entryVersion? id = some v →
      a.entryVersion? id = some v ∨ a'.link? v = some (.version id 0)) : a'.Coherent where
  bound h hk := by
    rcases hbound h hk with h | h
    · exact hext.known (ha.bound h hk)
    · exact h
  variant h := by
    rcases hvariant h with h | h
    · exact hext.link? (ha.variant h)
    · exact h
  entryVersion h := by
    rcases hentry h with h | h
    · exact hext.link? (ha.entryVersion h)
    · exact h

/-- Adding an operand that is not bound to an unknown one keeps coherence. -/
theorem Coherent.add {a : Arena} (ha : a.Coherent) {o : Operand}
    (ho : ∀ index target, o.kind = .reference index (some target) → a.Known target) :
    (a.add o).2.Coherent := by
  have hext := (includes_add a o).toExtends
  refine ha.grow hext ?_ (fun h => Or.inl ((variant?_add ..).symm.trans h))
    fun h => Or.inl ((entryVersion?_add ..).symm.trans h)
  intro id p index target h hk
  rw [get?_add] at h
  split at h
  · obtain rfl := Option.some.inj h
    exact Or.inr (hext.known (ho index target hk))
  · exact Or.inl h

/-! ## Operations that add a renaming -/

/-- The operand is a variable of the program, and no renaming of one. -/
def IsVariable (a : Arena) (id : OperandId) : Prop :=
  ∃ o, a.get? id = some o ∧ o.kind.isVariable = true ∧ o.ssa = none

/-- The operand was introduced by the lowering, and renames nothing. -/
def IsIntroduced (a : Arena) (id : OperandId) : Prop :=
  ∃ o, a.get? id = some o ∧ o.kind.isIntroduced = true ∧ o.ssa = none

theorem Extends.isVariable {a a' : Arena} (h : a.Extends a') {id : OperandId}
    (hid : a.IsVariable id) : a'.IsVariable id := by
  obtain ⟨o, ho, hk, hs⟩ := hid
  exact ⟨o, h.get?_of_ssa ho hs, hk, hs⟩

theorem Extends.isIntroduced {a a' : Arena} (h : a.Extends a') {id : OperandId}
    (hid : a.IsIntroduced id) : a'.IsIntroduced id := by
  obtain ⟨o, ho, hk, hs⟩ := hid
  exact ⟨o, h.get?_of_ssa ho hs, hk, hs⟩

/-- If the operand is a bound reference, the other one is no unbound one. -/
def Binds (a : Arena) (id w : OperandId) : Prop :=
  ∀ {t}, a.PointsTo id t → ∃ o, a.get? w = some o ∧ ¬ o.Unbound

theorem Extends.binds_of_kind {a a' : Arena} (h : a.Extends a') {id w : OperandId} {o : Operand}
    (ho : a.get? id = some o) (hs : o.ssa = none)
    (hk : ∀ index target, o.kind ≠ .reference index (some target)) : a'.Binds id w := by
  intro t ht
  obtain ⟨p, index, hp, hp'⟩ := h.pointsTo_of_ssa ho hs ht
  obtain rfl := Option.some.inj (ho.symm.trans hp)
  exact absurd hp' (hk index t)

theorem Extends.binds {a a' : Arena} (h : a.Extends a') {id w : OperandId}
    (hid : a.IsIntroduced id) (hw : a.Binds id w) : a'.Binds id w := by
  obtain ⟨p, hp, -, hs⟩ := hid
  intro t ht
  obtain ⟨o, ho, hbound⟩ := hw (h.pointsTo_of_ssa hp hs ht)
  exact ⟨o, h.settled ho hbound, hbound⟩

/-- The second operand stands for the first: a version of a variable, the remembered form of what
the lowering introduced, and for anything else the operand itself. -/
inductive StandsFor (a : Arena) (id : OperandId) : OperandId → Prop
  | version {w : OperandId} {k : Nat} : a.IsVariable id → a.link? w = some (.version id k) →
      StandsFor a id w
  | variant {w : OperandId} : a.IsIntroduced id → a.variant? id = some w → StandsFor a id w
  | kept {o : Operand} : a.get? id = some o →
      (o.ssa = none → o.kind.isVariable = false ∧ o.kind.isIntroduced = false) → StandsFor a id id

theorem StandsFor.known {a : Arena} (ha : a.Coherent) {id w : OperandId} (h : a.StandsFor id w) :
    a.Known w := by
  cases h with
  | version _ hl => exact known_of_link? hl
  | variant _ hw => exact known_of_link? (ha.variant hw)
  | kept ho _ => exact known_of_get? ho

theorem Extends.standsFor {a a' : Arena} (h : a.Extends a') {id w : OperandId}
    (hw : a.StandsFor id w) : a'.StandsFor id w := by
  cases hw with
  | version hid hl => exact .version (h.isVariable hid) (h.link? hl)
  | variant hid hw => exact .variant (h.isIntroduced hid) (h.variant hw)
  | kept ho hkind =>
      obtain ⟨o', ho', hs, he⟩ := h.operand ho
      refine .kept ho' fun hnone => ?_
      have hold := hs.symm.trans hnone
      exact he hold ▸ hkind hold

/-- The binding mirrors that of a reference which renames nothing: what is bound is its form, to
what stands for the operand it aliases. -/
def Mirrors (a : Arena) (x t : OperandId) : Prop :=
  ∃ l target, a.IsIntroduced l ∧ a.variant? l = some x ∧ a.PointsTo l target ∧ a.StandsFor target t

theorem Extends.mirrors {a a' : Arena} (h : a.Extends a') {x t : OperandId} (hx : a.Mirrors x t) :
    a'.Mirrors x t := by
  obtain ⟨l, target, hl, hv, hbound, hstands⟩ := hx
  exact ⟨l, target, h.isIntroduced hl, h.variant hv, h.pointsTo hbound, h.standsFor hstands⟩

theorem not_reference_of_isVariable {k : OperandKind} (h : k.isVariable = true) (index : Nat)
    (target : Option OperandId) : k ≠ .reference index target := by
  rintro rfl
  simp [OperandKind.isVariable] at h

/-- Adding a version of a variable. -/
theorem addVersion_eq {a : Arena} {base : OperandId} {o : Operand} (ho : a.get? base = some o)
    (hk : o.kind.isVariable = true) (hs : o.ssa = none) (number : Nat) :
    a.addVersion base number = .ok (a.add ⟨o.kind, o.ty, some (.version base number)⟩) := by
  simp [addVersion, get_of_get? ho, hk, hs, bind, Except.bind, pure, Except.pure]

/-- Arenas with the same views are coherent together, and include each other. -/
theorem Coherent.of_views {a c : Arena} (ha : a.Coherent) (hget : ∀ id, c.get? id = a.get? id)
    (hvariant : ∀ id, c.variant? id = a.variant? id)
    (hentry : ∀ id, c.entryVersion? id = a.entryVersion? id) : c.Coherent ∧ a.Adds c := by
  have hinc : a.Includes c := .of_same (fun h => (hget _).trans h) (fun h => (hvariant _).trans h)
    fun h => (hentry _).trans h
  exact ⟨ha.grow hinc.toExtends (fun h _ => Or.inl ((hget _).symm.trans h))
    (fun h => Or.inl ((hvariant _).symm.trans h)) (fun h => Or.inl ((hentry _).symm.trans h)),
    .of_get? hinc hget⟩

/-- Remembering the form of an operand that had none. -/
theorem Coherent.setVariant {a : Arena} (ha : a.Coherent) {id v : OperandId}
    (hnone : a.variant? id = none) (hv : a.link? v = some (.variant id)) (hid : a.Known id) :
    let a' := a.modifySlot id fun slot => { slot with variant := some v }
    a'.Coherent ∧ a.Adds a' ∧ a'.variant? id = some v := by
  intro a'
  have hget : ∀ i, a'.get? i = a.get? i := fun i => get?_modifySlot_of_operand _ _ _ fun _ => rfl
  have hentry : ∀ i, a'.entryVersion? i = a.entryVersion? i := fun i =>
    entryVersion?_modifySlot_of_entryVersion _ _ _ fun _ => rfl
  have hother : ∀ i, id ≠ i → a'.variant? i = a.variant? i := fun i hi => by
    rw [variant?, getElem?_modifySlot, if_neg hi, variant?]
  have hself : a'.variant? id = some v := by
    rw [variant?, getElem?_modifySlot, if_pos rfl, Array.getElem?_eq_getElem hid]
    rfl
  have hinc : a.Includes a' := .of_same (fun h => (hget _).trans h)
    (fun {i w} h => by rw [hother i (by rintro rfl; simp [hnone] at h), h])
    fun h => (hentry _).trans h
  refine ⟨ha.grow hinc.toExtends (fun h _ => Or.inl ((hget _).symm.trans h)) ?_
    (fun h => Or.inl ((hentry _).symm.trans h)), .of_get? hinc hget, hself⟩
  intro i w h
  by_cases hi : id = i
  · subst hi
    obtain rfl := Option.some.inj (hself.symm.trans h)
    exact Or.inr (hinc.link? hv)
  · exact Or.inl ((hother i hi).symm.trans h)

/-- Remembering the version on entry of a variable that had none. -/
theorem Coherent.setEntryVersion {a : Arena} (ha : a.Coherent) {id v : OperandId}
    (hnone : a.entryVersion? id = none) (hv : a.link? v = some (.version id 0))
    (hid : a.Known id) :
    let a' := a.modifySlot id fun slot => { slot with entryVersion := some v }
    a'.Coherent ∧ a.Adds a' ∧ a'.entryVersion? id = some v := by
  intro a'
  have hget : ∀ i, a'.get? i = a.get? i := fun i => get?_modifySlot_of_operand _ _ _ fun _ => rfl
  have hvariant : ∀ i, a'.variant? i = a.variant? i := fun i =>
    variant?_modifySlot_of_variant _ _ _ fun _ => rfl
  have hother : ∀ i, id ≠ i → a'.entryVersion? i = a.entryVersion? i := fun i hi => by
    rw [entryVersion?, getElem?_modifySlot, if_neg hi, entryVersion?]
  have hself : a'.entryVersion? id = some v := by
    rw [entryVersion?, getElem?_modifySlot, if_pos rfl, Array.getElem?_eq_getElem hid]
    rfl
  have hinc : a.Includes a' := .of_same (fun h => (hget _).trans h)
    (fun h => (hvariant _).trans h)
    fun {i w} h => by rw [hother i (by rintro rfl; simp [hnone] at h), h]
  refine ⟨ha.grow hinc.toExtends (fun h _ => Or.inl ((hget _).symm.trans h))
    (fun h => Or.inl ((hvariant _).symm.trans h)) ?_, .of_get? hinc hget, hself⟩
  intro i w h
  by_cases hi : id = i
  · subst hi
    obtain rfl := Option.some.inj (hself.symm.trans h)
    exact Or.inr (hinc.link? hv)
  · exact Or.inl ((hother i hi).symm.trans h)

theorem link?_add_self (a : Arena) (o : Operand) : (a.add o).2.link? ⟨a.size⟩ = o.ssa := by
  rw [link?, get?_add, if_pos rfl]
  rfl

/-- A fresh version of a variable is a new operand with a number above 0. -/
theorem freshVersionOf_spec {a : Arena} (ha : a.Coherent) {base : OperandId}
    (hbase : a.IsVariable base) :
    ∃ a' k, a.freshVersionOf base = .ok (⟨a.size⟩, a') ∧ a'.Coherent ∧ a.Adds a' ∧
      a'.link? ⟨a.size⟩ = some (.version base (k + 1)) := by
  obtain ⟨o, ho, hk, hs⟩ := hbase
  obtain ⟨slot, -, hslot, -⟩ := slot_of_get? ho
  have hadd := ha.add (o := ⟨o.kind, o.ty, some (.version base (slot.versions + 1))⟩)
    fun index target h => absurd h (not_reference_of_isVariable hk index _)
  have hkeep := hadd.of_views
    (c := (a.add ⟨o.kind, o.ty, some (.version base (slot.versions + 1))⟩).2.modifySlot base
      fun s => { s with versions := slot.versions + 1 })
    (fun id => get?_modifySlot_of_operand _ _ _ fun _ => rfl)
    (fun id => variant?_modifySlot_of_variant _ _ _ fun _ => rfl)
    (fun id => entryVersion?_modifySlot_of_entryVersion _ _ _ fun _ => rfl)
  have hadds := adds_add a (o := ⟨o.kind, o.ty, some (.version base (slot.versions + 1))⟩)
    (not_reference_of_isVariable hk · ·)
  refine ⟨_, slot.versions, ?_, hkeep.1, hadds.trans hkeep.2, ?_⟩
  · simp [freshVersionOf, hslot, addVersion_eq ho hk hs, bind, Except.bind, pure, Except.pure]
  · exact hkeep.2.link? (link?_add_self a _)

/-- The version of a variable on entry is remembered. -/
theorem entryVersionOf_spec {a : Arena} (ha : a.Coherent) {base : OperandId}
    (hbase : a.IsVariable base) :
    ∃ v a', a.entryVersionOf base = .ok (v, a') ∧ a'.Coherent ∧ a.Adds a' ∧
      a'.entryVersion? base = some v := by
  obtain ⟨o, ho, hk, hs⟩ := hbase
  obtain ⟨slot, hget, hslot, -⟩ := slot_of_get? ho
  cases hentry : slot.entryVersion with
  | some v =>
      refine ⟨v, a, ?_, ha, .refl a, by simp [entryVersion?, hget, hentry]⟩
      simp [entryVersionOf, hslot, hentry, bind, Except.bind, pure, Except.pure]
  | none =>
      have hadd := ha.add (o := ⟨o.kind, o.ty, some (.version base 0)⟩)
        fun index target h => absurd h (not_reference_of_isVariable hk index _)
      have hext := adds_add a (o := ⟨o.kind, o.ty, some (.version base 0)⟩)
        (not_reference_of_isVariable hk · ·)
      have hnone : (a.add ⟨o.kind, o.ty, some (.version base 0)⟩).2.entryVersion? base = none := by
        rw [entryVersion?_add, entryVersion?, hget]
        exact hentry
      obtain ⟨h₁, h₂, h₃⟩ := hadd.setEntryVersion hnone (link?_add_self a _)
        (hext.known (known_of_get? ho))
      refine ⟨_, _, ?_, h₁, hext.trans h₂, h₃⟩
      simp [entryVersionOf, hslot, hentry, addVersion_eq ho hk hs, bind, Except.bind, pure,
        Except.pure]

/-- The form of an operand the lowering introduced is remembered. -/
theorem variantOf_spec {a : Arena} (ha : a.Coherent) {id : OperandId} (hid : a.IsIntroduced id) :
    ∃ v a', a.variantOf id = .ok (v, a') ∧ a'.Coherent ∧ a.Adds a' ∧
      a'.variant? id = some v := by
  obtain ⟨o, ho, hk, hs⟩ := hid
  obtain ⟨slot, hget, hslot, rfl⟩ := slot_of_get? ho
  cases hvariant : slot.variant with
  | some v =>
      refine ⟨v, a, ?_, ha, .refl a, by simp [variant?, hget, hvariant]⟩
      simp [variantOf, hslot, hvariant, bind, Except.bind, pure, Except.pure]
  | none =>
      obtain ⟨kind, hkind, hunbound⟩ : ∃ kind, variantKind? slot.operand.kind = some kind ∧
          ∀ index target, kind ≠ .reference index (some target) := by
        cases h : slot.operand.kind <;> simp_all [variantKind?, OperandKind.isIntroduced]
      have hadd := ha.add (o := ⟨kind, slot.operand.ty, some (.variant id)⟩)
        fun index target h => absurd h (hunbound index target)
      have hext := adds_add a (o := ⟨kind, slot.operand.ty, some (.variant id)⟩) hunbound
      have hnone :
          (a.add ⟨kind, slot.operand.ty, some (.variant id)⟩).2.variant? id = none := by
        rw [variant?_add, variant?, hget]
        exact hvariant
      obtain ⟨h₁, h₂, h₃⟩ := hadd.setVariant hnone (link?_add_self a _)
        (hext.known (known_of_get? ho))
      refine ⟨_, _, ?_, h₁, hext.trans h₂, h₃⟩
      simp [variantOf, hslot, hvariant, hs, hkind, bind, Except.bind, pure, Except.pure]

/-- Changing an operand that renames another and is an unbound reference extends the arena. -/
theorem extends_modifySlot {a : Arena} {id : OperandId} {slot : Slot} {f : Slot → Slot}
    (h : a.slots[id.index]? = some slot) (hunbound : slot.operand.Unbound)
    (hssa : slot.operand.ssa ≠ none) (hkept : (f slot).operand.ssa = slot.operand.ssa)
    (hvariant : ∀ s, (f s).variant = s.variant)
    (hentry : ∀ s, (f s).entryVersion = s.entryVersion) : a.Extends (a.modifySlot id f) := by
  have hid : a.get? id = some slot.operand := by rw [get?, h]; rfl
  refine ⟨fun {i o} ho => ?_, fun {i o} ho hbound => ?_, fun {i v} hv => ?_, fun {i v} hv => ?_⟩
  · by_cases hi : id = i
    · subst hi
      obtain rfl := Option.some.inj (hid.symm.trans ho)
      exact ⟨_, get?_modifySlot_self h f, hkept, fun hs => absurd hs hssa⟩
    · exact ⟨o, (get?_modifySlot_of_ne a hi f).trans ho, rfl, fun _ => rfl⟩
  · refine (get?_modifySlot_of_ne a ?_ f).trans ho
    rintro rfl
    obtain rfl := Option.some.inj (hid.symm.trans ho)
    exact hbound hunbound
  · rw [variant?_modifySlot_of_variant _ _ _ hvariant, hv]
  · rw [entryVersion?_modifySlot_of_entryVersion _ _ _ hentry, hv]

/-- A renaming that is an unbound reference can be bound to any operand, and no other is bound by
that. -/
theorem bindReference_spec {a : Arena} (ha : a.Coherent) {id target : OperandId} {o : Operand}
    {index : Nat} (ho : a.get? id = some o) (hk : o.kind = .reference index none)
    (hs : o.ssa ≠ none) (htarget : a.Known target) :
    ∃ a', a.bindReference id target = .ok a' ∧ a'.Coherent ∧ a.Extends a' ∧
      a'.PointsTo id target ∧
      ∀ {x t}, a'.PointsTo x t → a.PointsTo x t ∨ x = id ∧ t = target := by
  obtain ⟨p, hp⟩ := known_iff.mp htarget
  obtain ⟨slot, hslot, -, rfl⟩ := slot_of_get? ho
  let f : Slot → Slot := fun slot =>
    { slot with operand := { slot.operand with kind := .reference index (some target) } }
  have hself : (a.modifySlot id f).get? id = some (f slot).operand := get?_modifySlot_self hslot f
  have hother : ∀ i, id ≠ i → (a.modifySlot id f).get? i = a.get? i := fun i hi =>
    get?_modifySlot_of_ne a hi f
  have hvariant : ∀ i, (a.modifySlot id f).variant? i = a.variant? i := fun i =>
    variant?_modifySlot_of_variant _ _ _ fun _ => rfl
  have hentry : ∀ i, (a.modifySlot id f).entryVersion? i = a.entryVersion? i := fun i =>
    entryVersion?_modifySlot_of_entryVersion _ _ _ fun _ => rfl
  have hext : a.Extends (a.modifySlot id f) :=
    extends_modifySlot hslot ⟨index, hk⟩ hs rfl (fun _ => rfl) fun _ => rfl
  have hbound : (a.modifySlot id f).PointsTo id target := ⟨_, index, hself, rfl⟩
  have honly : ∀ {x t}, (a.modifySlot id f).PointsTo x t →
      a.PointsTo x t ∨ x = id ∧ t = target := fun {x t} hx => by
    by_cases hi : id = x
    · subst hi
      exact Or.inr ⟨rfl, hx.unique hbound⟩
    · exact Or.inl (hx.congr (hother x hi).symm)
  refine ⟨a.modifySlot id f, ?_, ?_, hext, hbound, honly⟩
  · simp [bindReference, get_of_get? hp, get_of_get? ho, hk, bind, Except.bind, pure,
      Except.pure, f]
  · refine ha.grow hext (fun {i q index' target'} hq hkq => ?_)
      (fun h => Or.inl ((hvariant _).symm.trans h)) fun h => Or.inl ((hentry _).symm.trans h)
    rcases honly ⟨q, index', hq, hkq⟩ with hold | ⟨-, rfl⟩
    · exact Or.inr (hext.known (ha.target hold))
    · exact Or.inr (hext.known htarget)

end Arena

end ContractCalls
