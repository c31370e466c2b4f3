/-
# Chains of references

A bound reference aliases an operand, which may be a bound reference in turn.
`resolve` follows such a chain for as many hops as the arena has references,
so two things keep it from giving up: the count leaves no reference out
(`Counted`), and the chain does not come to a cycle (`Circles`).  The references
passed on the way are then all different, and there are hops for each of them.

An arena that only ever grew by new operands is `Unrenamed`.  There a bound
reference aliases an operand in front of it, so positions fall along a chain.

    what a walk gives is the end of the chain        (`endsAt_of_resolve`)
    a chain that comes to a cycle never ends         (`Circles.endless`)
    any other chain is walked to its end             (`Counted.resolve`)
    without cycles every operand resolves            (`Grounded.resolve`)
    an arena that only grew has no cycles            (`Unrenamed.grounded`)
-/
import ContractCalls.Proofs.Operand.Arena
import ContractCalls.Proofs.Outcome
import Mathlib.Data.List.Perm.Subperm
import Mathlib.Logic.Relation

namespace ContractCalls.Arena

open Relation

/-! ## The count of references -/

/-- How many of the operands in front of a position are references. -/
def referencesBelow (a : Arena) (position : Nat) : Nat :=
  (List.range position).countP fun i => (a.get? ⟨i⟩).any (·.isReference)

/-- No reference is left out of the count. -/
def Counted (a : Arena) : Prop := a.referencesBelow a.size ≤ a.references

theorem referencesBelow_succ (a : Arena) (n : Nat) :
    a.referencesBelow (n + 1) =
      a.referencesBelow n + if (a.get? ⟨n⟩).any (·.isReference) then 1 else 0 := by
  rw [referencesBelow, List.range_succ, List.countP_append, List.countP_singleton, referencesBelow]

/-- An operand behind the others changes nothing in front of it. -/
theorem referencesBelow_add (a : Arena) (o : Operand) :
    (a.add o).2.referencesBelow a.size = a.referencesBelow a.size := by
  refine List.countP_congr fun i hi => ?_
  have hne : i ≠ a.size := Nat.ne_of_lt (List.mem_range.mp hi)
  rw [get?_add, if_neg hne]

/-- A reference that is added is counted. -/
theorem referencesBelow_size_add (a : Arena) (o : Operand) :
    (a.add o).2.referencesBelow (a.add o).2.size =
      a.referencesBelow a.size + if o.isReference then 1 else 0 := by
  have hlast : (a.add o).2.get? ⟨a.size⟩ = some o := by rw [get?_add, if_pos rfl]
  rw [size_add, referencesBelow_succ, referencesBelow_add, hlast]
  rfl

/-- Changing a slot keeps the references, if references stay references. -/
theorem referencesBelow_modifySlot {a : Arena} {id : OperandId} {f : Slot → Slot}
    (hf : ∀ s, a.slots[id.index]? = some s → (f s).operand.isReference = s.operand.isReference) :
    (a.modifySlot id f).referencesBelow (a.modifySlot id f).size = a.referencesBelow a.size := by
  have hsize : (a.modifySlot id f).size = a.size := by simp [size, Arena.modifySlot]
  rw [hsize]
  refine List.countP_congr fun i _ => ?_
  rw [get?, getElem?_modifySlot]
  split
  · subst id
    cases hs : a.slots[i]? with
    | none => simp [get?, hs]
    | some s => simp [get?, hs, hf s hs]
  · rfl

theorem Counted.add {a : Arena} (h : a.Counted) (o : Operand) : (a.add o).2.Counted := by
  rw [Counted, referencesBelow_size_add]
  show _ ≤ if o.isReference then a.references + 1 else a.references
  rw [Counted] at h
  split
  · omega
  · omega

/-- Changing a slot keeps the count, if references stay references. -/
theorem Counted.modifySlot {a : Arena} (h : a.Counted) (id : OperandId) {f : Slot → Slot}
    (hf : ∀ s, a.slots[id.index]? = some s → (f s).operand.isReference = s.operand.isReference) :
    (a.modifySlot id f).Counted := by
  rw [Counted, referencesBelow_modifySlot hf]
  exact h

/-- Distinct bound references are at most as many as there are references. -/
theorem length_le_referencesBelow {a : Arena} {ids : List OperandId} (hnodup : ids.Nodup)
    (hbound : ∀ id ∈ ids, ∃ t, a.PointsTo id t) : ids.length ≤ a.referencesBelow a.size := by
  have hmap : (ids.map OperandId.index).Nodup :=
    List.Pairwise.map _ (fun x y h hi => h (by cases x; cases y; simpa using hi)) hnodup
  have hsub : ids.map OperandId.index ⊆
      (List.range a.size).filter fun i => (a.get? ⟨i⟩).any (·.isReference) := by
    intro i hi
    obtain ⟨id, hid, rfl⟩ := List.mem_map.mp hi
    obtain ⟨t, o, index, ho, hk⟩ := hbound id hid
    refine List.mem_filter.mpr ⟨List.mem_range.mpr (known_of_get? ho), ?_⟩
    rw [ho]
    simp [Operand.isReference, hk]
  have hlength := (List.subperm_of_subset hmap hsub).length_le
  rwa [List.length_map, ← List.countP_eq_length_filter] at hlength

/-! ## Ends of chains -/

/-- The chain of references from the first operand ends with the second, which is no bound
reference. -/
structure EndsAt (a : Arena) (id target : OperandId) : Prop where
  path : ReflTransGen a.PointsTo id target
  known : a.Known target
  last : ∀ t, ¬ a.PointsTo target t

/-- A chain has one end at most. -/
theorem last_unique {a : Arena} {id t t' : OperandId} (ht : ReflTransGen a.PointsTo id t)
    (hlast : ∀ u, ¬ a.PointsTo t u) (ht' : ReflTransGen a.PointsTo id t')
    (hlast' : ∀ u, ¬ a.PointsTo t' u) : t = t' := by
  have hunique : Relator.RightUnique a.PointsTo := fun _ _ _ => PointsTo.unique
  rcases ReflTransGen.total_of_right_unique hunique ht ht' with htt | htt
  · rcases htt.cases_head with he | ⟨u, hu, -⟩
    · exact he
    · exact absurd hu (hlast u)
  · rcases htt.cases_head with he | ⟨u, hu, -⟩
    · exact he.symm
    · exact absurd hu (hlast' u)

theorem EndsAt.unique {a : Arena} {id t t' : OperandId} (h : a.EndsAt id t) (h' : a.EndsAt id t') :
    t = t' := last_unique h.path h.last h'.path h'.last

section Walk

variable {a : Arena} {start current next : OperandId} {hops : Nat}

theorem follow_succ (h : a.PointsTo current next) :
    a.follow start (hops + 1) current = a.follow start hops next := by
  obtain ⟨o, index, ho, hk⟩ := h
  rw [follow, get_of_get? ho]
  simp [bind, Except.bind, hk]

theorem follow_zero (h : a.PointsTo current next) :
    a.follow start 0 current = .error (.referenceCycle (a.display start) a.references) := by
  obtain ⟨o, index, ho, hk⟩ := h
  rw [follow, get_of_get? ho]
  simp [bind, Except.bind, hk, throw, throwThe, MonadExceptOf.throw]

/-- A walk stops at what is no bound reference, and fails if nothing is there. -/
theorem follow_of_last (h : ∀ t, ¬ a.PointsTo current t) :
    a.follow start hops current = (a.get current).map fun _ => current := by
  unfold follow
  cases hget : a.get current with
  | error e => rfl
  | ok o =>
      have hk : ∀ index t, o.kind ≠ .reference index (some t) :=
        fun index t hk => h t ⟨o, index, get?_of_get hget, hk⟩
      match hkind : o.kind with
      | .reference index (some t) => exact absurd hkind (hk index t)
      | .reference index none | .stateVar _ | .localVar _ | .temporary _ | .tuple _ | .constant _
      | .builtin _ => simp [bind, Except.bind, pure, Except.pure, Except.map, hkind]

theorem follow_eq_self (hcurrent : a.Known current) (h : ∀ t, ¬ a.PointsTo current t) :
    a.follow start hops current = .ok current := by
  obtain ⟨o, ho⟩ := known_iff.mp hcurrent
  rw [follow_of_last h, get_of_get? ho]
  rfl

theorem known_of_follow {target : OperandId} (h : a.follow start hops current = .ok target) :
    a.Known current := by
  unfold follow at h
  obtain ⟨o, ho, -⟩ := bind_eq_ok h
  exact known_of_get? (get?_of_get ho)

/-- A walk that ends has followed the chain to its end. -/
theorem endsAt_of_follow {target : OperandId} (hops : Nat) : ∀ {current : OperandId},
    a.follow start hops current = .ok target → a.EndsAt current target := by
  induction hops with
  | zero =>
      intro current h
      by_cases hbound : ∃ next, a.PointsTo current next
      · obtain ⟨next, hnext⟩ := hbound
        rw [follow_zero hnext] at h
        cases h
      · have hlast := not_exists.mp hbound
        have hknown := known_of_follow h
        rw [follow_eq_self hknown hlast] at h
        cases h
        exact ⟨.refl, hknown, hlast⟩
  | succ hops ih =>
      intro current h
      by_cases hbound : ∃ next, a.PointsTo current next
      · obtain ⟨next, hnext⟩ := hbound
        rw [follow_succ hnext] at h
        have hends := ih h
        exact ⟨hends.path.head hnext, hends.known, hends.last⟩
      · have hlast := not_exists.mp hbound
        have hknown := known_of_follow h
        rw [follow_eq_self hknown hlast] at h
        cases h
        exact ⟨.refl, hknown, hlast⟩

end Walk

theorem endsAt_of_resolve {a : Arena} {id target : OperandId} (h : a.resolve id = .ok target) :
    a.EndsAt id target := endsAt_of_follow a.references h

/-! ## Chains that end and chains that do not -/

/-- The chain of references from the operand never ends: whatever it leads to is a bound
reference. -/
def Endless (a : Arena) (id : OperandId) : Prop :=
  ∀ t, ReflTransGen a.PointsTo id t → ∃ next, a.PointsTo t next

/-- The chain of references from the operand comes to one that leads back to itself. -/
def Circles (a : Arena) (id : OperandId) : Prop :=
  ∃ c, ReflTransGen a.PointsTo id c ∧ TransGen a.PointsTo c c

section Chains

variable {a : Arena} {start current next : OperandId} {hops : Nat}

theorem Circles.of_next (hnext : a.PointsTo current next) (h : a.Circles next) :
    a.Circles current := by
  obtain ⟨c, hc, hcycle⟩ := h
  exact ⟨c, hc.head hnext, hcycle⟩

/-- A chain that starts on a cycle stays on it. -/
theorem transGen_of_cycle {c t : OperandId} (hcycle : TransGen a.PointsTo c c)
    (ht : ReflTransGen a.PointsTo c t) : TransGen a.PointsTo t t := by
  induction ht with
  | refl => exact hcycle
  | tail _ hyz ih =>
      obtain ⟨z, hz, hback⟩ := TransGen.head'_iff.mp ih
      obtain rfl := hz.unique hyz
      exact TransGen.tail' hback hyz

theorem Circles.endless (h : a.Circles current) : a.Endless current := by
  obtain ⟨c, hc, hcycle⟩ := h
  intro t ht
  have hunique : Relator.RightUnique a.PointsTo := fun _ _ _ => PointsTo.unique
  -- as bindings are unique, `t` stands in front of the cycle or on it
  have hbehind : ∃ u, TransGen a.PointsTo t u := by
    rcases ReflTransGen.total_of_right_unique hunique ht hc with htc | hct
    · exact ⟨c, hcycle.trans_right htc⟩
    · exact ⟨t, transGen_of_cycle hcycle hct⟩
  obtain ⟨u, hu⟩ := hbehind
  obtain ⟨next, hnext, -⟩ := TransGen.head'_iff.mp hu
  exact ⟨next, hnext⟩

theorem EndsAt.not_circles {target : OperandId} (h : a.EndsAt current target) :
    ¬ a.Circles current := fun hcircles =>
  (hcircles.endless target h.path).elim h.last

/-- Without a cycle, a bound reference was not passed on the way to it, and with it there are no
more references than are counted. -/
theorem Counted.pass (ha : a.Counted) {passed : List OperandId} (hcircles : ¬ a.Circles current)
    (hnodup : passed.Nodup) (hpassed : ∀ x ∈ passed, TransGen a.PointsTo x current)
    (hnext : a.PointsTo current next) :
    (current :: passed).Nodup ∧ passed.length + 1 ≤ a.references := by
  have hfresh : current ∉ passed := fun hmem =>
    hcircles ⟨current, .refl, hpassed current hmem⟩
  have hall := List.nodup_cons.mpr ⟨hfresh, hnodup⟩
  refine ⟨hall, Nat.le_trans (length_le_referencesBelow hall fun x hx => ?_) ha⟩
  rcases List.mem_cons.mp hx with rfl | hx
  · exact ⟨next, hnext⟩
  · exact (TransGen.head'_iff.mp (hpassed x hx)).imp fun _ h => h.1

/-- A chain that comes to no cycle has an end, and a walk reaches it if there are hops for all
references but those it has passed. -/
theorem Counted.follow (ha : a.Counted) (start : OperandId) (hops : Nat) :
    ∀ {current : OperandId} {passed : List OperandId}, ¬ a.Circles current → passed.Nodup →
      (∀ x ∈ passed, TransGen a.PointsTo x current) → a.references ≤ passed.length + hops →
      ∃ t, ReflTransGen a.PointsTo current t ∧ (∀ u, ¬ a.PointsTo t u) ∧
        a.follow start hops current = (a.get t).map fun _ => t := by
  induction hops with
  | zero =>
      intro current passed hcircles hnodup hpassed hhops
      have hlast : ∀ next, ¬ a.PointsTo current next := fun next hnext => by
        have := (ha.pass hcircles hnodup hpassed hnext).2
        omega
      exact ⟨current, .refl, hlast, follow_of_last hlast⟩
  | succ hops ih =>
      intro current passed hcircles hnodup hpassed hhops
      by_cases hbound : ∃ next, a.PointsTo current next
      · obtain ⟨next, hnext⟩ := hbound
        have hcircles' : ¬ a.Circles next := fun h => hcircles (.of_next hnext h)
        have hpassed' : ∀ x ∈ current :: passed, TransGen a.PointsTo x next := fun x hx => by
          rcases List.mem_cons.mp hx with rfl | hx
          · exact .single hnext
          · exact (hpassed x hx).tail hnext
        obtain ⟨t, ht, hlast, hfollow⟩ := ih hcircles' (ha.pass hcircles hnodup hpassed hnext).1
          hpassed' (by rw [List.length_cons]; omega)
        exact ⟨t, ht.head hnext, hlast, (follow_succ hnext).trans hfollow⟩
      · have hlast := not_exists.mp hbound
        exact ⟨current, .refl, hlast, follow_of_last hlast⟩

/-- Resolution finds the end of a chain that comes to no cycle. -/
theorem Counted.resolve (ha : a.Counted) {id : OperandId} (hcircles : ¬ a.Circles id) :
    ∃ t, ReflTransGen a.PointsTo id t ∧ (∀ u, ¬ a.PointsTo t u) ∧
      a.resolve id = (a.get t).map fun _ => t :=
  ha.follow id a.references hcircles List.nodup_nil (by simp) (by simp)

end Chains

/-! ## Arenas without cycles -/

/-- Bound references alias operands that are there, no chain of them closes, and each of them is
counted. -/
structure Grounded (a : Arena) : Prop where
  known : ∀ {id target}, a.PointsTo id target → a.Known target
  acyclic : ∀ id, ¬ TransGen a.PointsTo id id
  counted : a.Counted

/-- Where bound references alias what is there, a chain leads to what is there. -/
theorem known_of_path {a : Arena} (hknown : ∀ {id target}, a.PointsTo id target → a.Known target)
    {id t : OperandId} (hid : a.Known id) (ht : ReflTransGen a.PointsTo id t) : a.Known t := by
  cases ht with
  | refl => exact hid
  | tail _ hbound => exact hknown hbound

/-- Every operand resolves, to the end of its chain. -/
theorem Grounded.resolve {a : Arena} (ha : a.Grounded) {id : OperandId} (h : a.Known id) :
    ∃ target, a.resolve id = .ok target ∧ a.EndsAt id target := by
  have hcircles : ¬ a.Circles id := fun ⟨c, _, hcycle⟩ => ha.acyclic c hcycle
  obtain ⟨t, ht, hlast, hresolve⟩ := ha.counted.resolve hcircles
  have hknown := known_of_path ha.known h ht
  obtain ⟨o, ho⟩ := known_iff.mp hknown
  rw [get_of_get? ho] at hresolve
  exact ⟨t, hresolve, ht, hknown, hlast⟩

/-- Where every operand resolves, no chain closes. -/
theorem acyclic_of_resolve {a : Arena} (h : ∀ id, a.Known id → ∃ t, a.resolve id = .ok t)
    (id : OperandId) : ¬ TransGen a.PointsTo id id := by
  intro hcycle
  obtain ⟨c, hc, -⟩ := TransGen.head'_iff.mp hcycle
  obtain ⟨t, ht⟩ := h id hc.known
  exact (endsAt_of_resolve ht).not_circles ⟨id, .refl, hcycle⟩

/-! ## Arenas that only grew -/

/-- No operand renames another, none remembers a renaming, a bound reference aliases an operand in
front of it, and no reference is left out of the count. -/
structure Unrenamed (a : Arena) : Prop where
  ssa : ∀ {id o}, a.get? id = some o → o.ssa = none
  variant : ∀ id, a.variant? id = none
  entryVersion : ∀ id, a.entryVersion? id = none
  bound : ∀ {id o index target}, a.get? id = some o → o.kind = .reference index (some target) →
    target.index < id.index
  references : a.referencesBelow a.size ≤ a.references

theorem unrenamed_empty : empty.Unrenamed where
  ssa h := by simp [empty, get?] at h
  variant _ := by simp [empty, variant?]
  entryVersion _ := by simp [empty, entryVersion?]
  bound h := by simp [empty, get?] at h
  references := Nat.le_refl 0

/-- An operand that renames nothing and is bound, if at all, to one that was there. -/
theorem Unrenamed.add {a : Arena} (ha : a.Unrenamed) {o : Operand} (hssa : o.ssa = none)
    (hbound : ∀ index target, o.kind = .reference index (some target) → a.Known target) :
    (a.add o).2.Unrenamed where
  ssa {id p} h := by
    rw [get?_add] at h
    split at h
    · obtain rfl := Option.some.inj h
      exact hssa
    · exact ha.ssa h
  variant id := by rw [variant?_add, ha.variant]
  entryVersion id := by rw [entryVersion?_add, ha.entryVersion]
  bound {id p index target} h hk := by
    rw [get?_add] at h
    split at h
    · next hid =>
        obtain rfl := Option.some.inj h
        rw [hid]
        exact hbound index target hk
    · exact ha.bound h hk
  references := Counted.add ha.references o

theorem Unrenamed.coherent {a : Arena} (ha : a.Unrenamed) : a.Coherent where
  bound h hk := Nat.lt_trans (ha.bound h hk) (known_of_get? h)
  variant h := by simp [ha.variant] at h
  entryVersion h := by simp [ha.entryVersion] at h

/-- Positions fall along a chain. -/
theorem Unrenamed.index_lt {a : Arena} (ha : a.Unrenamed) {id target : OperandId}
    (h : TransGen a.PointsTo id target) : target.index < id.index := by
  induction h with
  | single hbound =>
      obtain ⟨o, index, ho, hk⟩ := hbound
      exact ha.bound ho hk
  | tail _ hbound ih =>
      obtain ⟨o, index, ho, hk⟩ := hbound
      exact Nat.lt_trans (ha.bound ho hk) ih

theorem Unrenamed.grounded {a : Arena} (ha : a.Unrenamed) : a.Grounded where
  known := ha.coherent.target
  acyclic _ h := Nat.lt_irrefl _ (ha.index_lt h)
  counted := ha.references

/-- Every operand resolves. -/
theorem Unrenamed.resolve {a : Arena} (ha : a.Unrenamed) {id : OperandId} (h : a.Known id) :
    ∃ target, a.resolve id = .ok target ∧ a.Known target := by
  obtain ⟨target, htarget, hends⟩ := ha.grounded.resolve h
  exact ⟨target, htarget, hends.known⟩

/-- A fresh reference that is bound at once is a bound reference that is added. -/
theorem bindReference_add (a : Arena) (index : Nat) (ty : Ty) {target : OperandId}
    (h : a.Known target) :
    (a.add ⟨.reference index none, ty, none⟩).2.bindReference ⟨a.size⟩ target =
      .ok (a.add ⟨.reference index (some target), ty, none⟩).2 := by
  obtain ⟨o, ho⟩ := known_iff.mp h
  have htarget := get_of_get? ((includes_add a ⟨.reference index none, ty, none⟩).same ho)
  have hself : (a.add ⟨.reference index none, ty, none⟩).2.get ⟨a.size⟩ =
      .ok ⟨.reference index none, ty, none⟩ :=
    get_of_get? (by rw [get?_add, if_pos rfl])
  simp only [bindReference, htarget, hself, bind, Except.bind, pure, Except.pure]
  congr 1
  simp only [modifySlot, add, Operand.isReference, mk.injEq, if_true, and_true]
  refine Array.ext_getElem? fun i => ?_
  rw [Array.getElem?_modify, Array.getElem?_push, Array.getElem?_push]
  by_cases hi : i = a.slots.size
  · simp [size, hi]
  · simp [size, hi, Ne.symm hi]

end ContractCalls.Arena
