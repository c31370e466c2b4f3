/-
# The numbers of operands

Temporaries, references and tuples are numbered, each family by a counter of
its own.  An arena is `Numbered` between two states of the counters if all its
numbers lie between them and no two operands of a family that rename nothing
have one number.  Adding an operand with the next number keeps that; so does
whatever the conversion to single-assignment form does, since a renaming has
the number of what it renames (`Numbers.From`).
-/
import ContractCalls.Proofs.Operand.Faithful

namespace ContractCalls

/-- The operands that are numbered together. -/
inductive Family where
  | temporary
  | reference
  | tuple
deriving DecidableEq, Repr

/-- The number of an operand of the family. -/
def Family.number? : Family → OperandKind → Option Nat
  | .temporary, .temporary index => some index
  | .reference, .reference index _ => some index
  | .tuple, .tuple index => some index
  | _, _ => none

/-- The next free number of the family. -/
def Counters.next (c : Counters) : Family → Nat
  | .temporary => c.temporary
  | .reference => c.reference
  | .tuple => c.tuple

/-- No counter is behind. -/
def Counters.Upto (c c' : Counters) : Prop := ∀ family, c.next family ≤ c'.next family

theorem Counters.Upto.refl (c : Counters) : c.Upto c := fun _ => Nat.le_refl _

theorem Counters.Upto.trans {a b c : Counters} (h : a.Upto b) (h' : b.Upto c) : a.Upto c :=
  fun family => Nat.le_trans (h family) (h' family)

/-- What a reference aliases does not count. -/
theorem Family.number?_unbound (family : Family) (kind : OperandKind) :
    family.number? kind.unbound = family.number? kind := by
  cases family <;> cases kind <;> rfl

theorem Family.number?_of_unbound (family : Family) {k k' : OperandKind}
    (h : k.unbound = k'.unbound) : family.number? k = family.number? k' := by
  rw [← family.number?_unbound k, h, family.number?_unbound]

namespace Arena

variable {a a' a'' : Arena}

/-! ## Numbers that stay -/

/-- Every operand of the second arena has the numbers of one of the first, and one that renames
nothing has those of the operand in its place, which renames nothing either. -/
structure NumbersFrom (a a' : Arena) : Prop where
  own : ∀ {x o'}, a'.get? x = some o' → o'.ssa = none →
    ∃ o, a.get? x = some o ∧ o.ssa = none ∧
      ∀ family : Family, family.number? o'.kind = family.number? o.kind
  used : ∀ {x o'}, a'.get? x = some o' →
    ∃ y o, a.get? y = some o ∧ ∀ family : Family, family.number? o'.kind = family.number? o.kind

namespace NumbersFrom

theorem refl (a : Arena) : a.NumbersFrom a where
  own ho hssa := ⟨_, ho, hssa, fun _ => rfl⟩
  used ho := ⟨_, _, ho, fun _ => rfl⟩

theorem trans (h : a.NumbersFrom a') (h' : a'.NumbersFrom a'') : a.NumbersFrom a'' where
  own ho hssa := by
    obtain ⟨o', ho', hssa', hn'⟩ := h'.own ho hssa
    obtain ⟨o, ho, hssa, hn⟩ := h.own ho' hssa'
    exact ⟨o, ho, hssa, fun family => (hn' family).trans (hn family)⟩
  used ho := by
    obtain ⟨y', o', ho', hn'⟩ := h'.used ho
    obtain ⟨y, o, ho, hn⟩ := h.used ho'
    exact ⟨y, o, ho, fun family => (hn' family).trans (hn family)⟩

end NumbersFrom

theorem Renews.numbersFrom (h : Renews a a') : a.NumbersFrom a' where
  own {x o'} ho' hssa := by
    cases ho : a.get? x with
    | none =>
        -- what is new renames something
        obtain ⟨l, p, hl, -⟩ := h.new ho' ho
        exact absurd (hl.symm.trans hssa) (Option.some_ne_none l)
    | some o =>
        obtain ⟨o₁, ho₁, alike⟩ := h.alike ho
        obtain rfl := Option.some.inj (ho₁.symm.trans ho')
        exact ⟨o, rfl, alike.ssa.symm.trans hssa, fun family => family.number?_of_unbound alike.kind⟩
  used {x o'} ho' := by
    cases ho : a.get? x with
    | none =>
        obtain ⟨l, p, -, hp, hkind, -⟩ := h.new ho' ho
        exact ⟨l.renamed, p, hp, fun family => family.number?_of_unbound hkind⟩
    | some o =>
        obtain ⟨o₁, ho₁, alike⟩ := h.alike ho
        obtain rfl := Option.some.inj (ho₁.symm.trans ho')
        exact ⟨x, o, ho, fun family => family.number?_of_unbound alike.kind⟩

theorem Changes.numbersFrom (h : a.Changes a') : a.NumbersFrom a' := by
  induction h with
  | refl => exact .refl a
  | tail _ hstep ih => exact ih.trans hstep.renews.numbersFrom

/-! ## Numbers between two states of the counters -/

/-- The numbers of the arena lie between the counters, and no two operands of a family that rename
nothing have one number. -/
structure Numbered (a : Arena) (start next : Counters) : Prop where
  between : ∀ {family : Family} {x o i}, a.get? x = some o → family.number? o.kind = some i →
    start.next family ≤ i ∧ i < next.next family
  distinct : ∀ {family : Family} {x y o p i}, a.get? x = some o → a.get? y = some p →
    o.ssa = none → p.ssa = none → family.number? o.kind = some i → family.number? p.kind = some i →
    x = y

variable {start next next' : Counters}

theorem numbered_empty (start next : Counters) : empty.Numbered start next where
  between ho := by cases ho
  distinct ho := by cases ho

theorem Numbered.later (h : a.Numbered start next) (hle : next.Upto next') :
    a.Numbered start next' where
  between ho hi := ⟨(h.between ho hi).1, Nat.lt_of_lt_of_le (h.between ho hi).2 (hle _)⟩
  distinct := h.distinct

theorem Numbered.numbersFrom (h : a.Numbered start next) (hn : a.NumbersFrom a') :
    a'.Numbered start next where
  between ho' hi := by
    obtain ⟨y, o, ho, hnumber⟩ := hn.used ho'
    exact h.between ho ((hnumber _).symm.trans hi)
  distinct ho' hp' hssa hssa' hi hi' := by
    obtain ⟨o, ho, hossa, hno⟩ := hn.own ho' hssa
    obtain ⟨p, hp, hpssa, hnp⟩ := hn.own hp' hssa'
    exact h.distinct ho hp hossa hpssa ((hno _).symm.trans hi) ((hnp _).symm.trans hi')

/-- Adding an operand with numbers that were free before and are not any more. -/
theorem Numbered.add (h : a.Numbered start next) (hle : next.Upto next') {o : Operand}
    (ho : ∀ family i, Family.number? family o.kind = some i →
      start.next family ≤ i ∧ next.next family ≤ i ∧ i < next'.next family) :
    (a.add o).2.Numbered start next' where
  between {family x o' i} ho' hi := by
    rw [get?_add] at ho'
    split at ho'
    · obtain rfl := Option.some.inj ho'
      exact ⟨(ho family i hi).1, (ho family i hi).2.2⟩
    · exact (h.later hle).between ho' hi
  distinct {family x y o' p' i} ho' hp' hssa hssa' hi hi' := by
    -- an operand that was there has a number below the next one
    have hbelow : ∀ {z q}, a.get? z = some q → family.number? q.kind = some i →
        family.number? o.kind = some i → False := fun hq hqi hoi =>
      absurd (h.between hq hqi).2 (Nat.not_lt.mpr (ho family i hoi).2.1)
    rw [get?_add] at ho' hp'
    split at ho'
    · next hx =>
        obtain rfl := Option.some.inj ho'
        split at hp'
        · next hy => exact congrArg OperandId.mk (hx.trans hy.symm)
        · exact (hbelow hp' hi' hi).elim
    · split at hp'
      · obtain rfl := Option.some.inj hp'
        exact (hbelow ho' hi hi').elim
      · exact h.distinct ho' hp' hssa hssa' hi hi'

end Arena

end ContractCalls
