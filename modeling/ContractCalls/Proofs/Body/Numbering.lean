/-
# The numbers of a body

Every call on a draft keeps its numbers between the counters the draft started
with and those it has by now, so a body that is lowered has new numbers only,
and a lowering that fails still leaves the counters above what it used.
-/
import ContractCalls.Proofs.Body.Scripted
import ContractCalls.Proofs.Operand.Numbering

namespace ContractCalls

/-! ## Drafts -/

namespace Draft

variable {start : Counters} {d d' : Draft}

/-- The numbers of the draft lie between the counters and its own. -/
structure Numbered (start : Counters) (d : Draft) : Prop where
  arena : d.body.arena.Numbered start d.counters
  upto : start.Upto d.counters

theorem numbered_start (counters : Counters) : (Draft.start counters).Numbered counters :=
  ⟨Arena.numbered_empty counters counters, .refl counters⟩

namespace Numbered

theorem congr (h : d.Numbered start) (harena : d'.body.arena = d.body.arena)
    (hcounters : d'.counters = d.counters) : d'.Numbered start := by
  refine ⟨?_, ?_⟩
  · rw [harena, hcounters]
    exact h.arena
  · rw [hcounters]
    exact h.upto

theorem emit (h : d.Numbered start) (op : Operation) : (d.emit op).Numbered start := by
  have hreopen : d.reopen.body.arena = d.body.arena ∧ d.reopen.counters = d.counters := by
    unfold reopen
    split
    · exact ⟨rfl, rfl⟩
    · exact ⟨rfl, rfl⟩
  exact h.congr hreopen.1 hreopen.2

/-- A new operand with the next numbers of its families, which are counted. -/
theorem add (h : d.Numbered start) (kind : OperandKind) (ty : Ty) {next : Counters}
    (hle : d.counters.Upto next)
    (hkind : ∀ family i, Family.number? family kind = some i →
      d.counters.next family = i ∧ i < next.next family) :
    Numbered start
      { d with body := { d.body with arena := (d.body.arena.addKind kind ty).2 }, counters := next } := by
  refine ⟨h.arena.add hle fun family i hi => ?_, h.upto.trans hle⟩
  obtain ⟨rfl, hlt⟩ := hkind family i hi
  exact ⟨h.upto family, Nat.le_refl _, hlt⟩

/-- A new operand without a number. -/
theorem addOperand (h : d.Numbered start) (kind : OperandKind) (ty : Ty)
    (hkind : ∀ family, Family.number? family kind = none) : (d.addOperand kind ty).2.Numbered start :=
  h.add kind ty (.refl _) fun family i hi => absurd ((hkind family).symm.trans hi) (by simp)

theorem temporary (h : d.Numbered start) (ty : Ty) : (d.temporary ty).2.Numbered start := by
  refine h.add (.temporary d.counters.temporary) ty ?_ ?_
  · intro family
    cases family <;> simp [Counters.next]
  · intro family i hi
    cases family <;> simp_all [Family.number?, Counters.next]

theorem unboundReference (h : d.Numbered start) (ty : Ty) :
    (d.unboundReference ty).2.Numbered start := by
  refine h.add (.reference d.counters.reference none) ty ?_ ?_
  · intro family
    cases family <;> simp [Counters.next]
  · intro family i hi
    cases family <;> simp_all [Family.number?, Counters.next]

theorem tuple (h : d.Numbered start) (ty : Ty) : (d.tuple ty).2.Numbered start := by
  refine h.add (.tuple d.counters.tuple) ty ?_ ?_
  · intro family
    cases family <;> simp [Counters.next]
  · intro family i hi
    cases family <;> simp_all [Family.number?, Counters.next]

theorem state (h : d.Numbered start) (name : String) (ty : Ty) :
    (d.state name ty).2.Numbered start := by
  unfold Draft.state
  split
  · exact h
  · exact (h.addOperand (.stateVar name) ty fun family => by cases family <;> rfl).congr rfl rfl

theorem builtin (h : d.Numbered start) (name : String) (ty : Ty) :
    (d.builtin name ty).2.Numbered start := by
  unfold Draft.builtin
  split
  · exact h
  · exact (h.addOperand (.builtin name) ty fun family => by cases family <;> rfl).congr rfl rfl

theorem resultFor (h : d.Numbered start) (ty : Ty) : (d.resultFor ty).2.Numbered start := by
  unfold Draft.resultFor
  split
  · exact h
  · exact h.temporary _
  · exact h.tuple _
  · exact h.temporary _

theorem reference (h : d.Numbered start) (ty : Ty) (target : OperandId) :
    ((Edit.reference ty target).after d).Numbered start := by
  rw [Edit.after_reference]
  have hadded := h.unboundReference ty
  split
  · next arena hbind =>
      have hrenews := Arena.renews_bindReference hbind
      exact ⟨hadded.arena.numbersFrom hrenews.numbersFrom, hadded.upto⟩
  · exact hadded

/-- Every call keeps the numbers between the counters. -/
theorem after (h : d.Numbered start) (e : Edit) : (e.after d).Numbered start := by
  cases e with
  | emit op => exact h.emit op
  | emitChecked make =>
      rw [Edit.after_emitChecked]
      split
      · exact h.emit _
      · exact h
  | emitInto ty make =>
      rw [Edit.after_emitInto]
      split
      · exact (h.temporary ty).emit _
      · exact h.temporary ty
  | popScope =>
      show d.popScope.Numbered start
      unfold Draft.popScope
      split
      · exact h.congr rfl rfl
      · exact h
  | declareLocal name ty =>
      exact (h.addOperand (.localVar name) ty fun family => by cases family <;> rfl).congr rfl rfl
  | constant value ty =>
      exact h.addOperand (.constant value) ty fun family => by cases family <;> rfl
  | state name ty => exact h.state name ty
  | builtin name ty => exact h.builtin name ty
  | temporary ty => exact h.temporary ty
  | tuple ty => exact h.tuple ty
  | resultFor ty => exact h.resultFor ty
  | reference ty target => exact h.reference ty target
  | _ => exact h.congr rfl rfl

theorem afterAll (h : d.Numbered start) (es : List Edit) : (Edit.afterAll es d).Numbered start := by
  induction es generalizing d with
  | nil => exact h
  | cons e es ih => exact ih (h.after e)

end Numbered

end Draft

/-- A construction made of calls leaves the counters above the numbers it used, and those of the
body, if there is one, are new. -/
theorem Scripted.numbered {build : Build Unit} (h : Scripted build) (counters : Counters) :
    counters.Upto (Build.runBody build counters).2 ∧
      ∀ body, (Build.runBody build counters).1 = .ok body →
        body.arena.Numbered counters (Build.runBody build counters).2 := by
  obtain ⟨es, hes⟩ := h (.start counters)
  have hnumbered := (Draft.numbered_start counters).afterAll es
  unfold Build.runBody
  split
  · next draft hrun =>
      rw [← hes, hrun] at hnumbered
      refine ⟨hnumbered.upto, ?_⟩
      rintro _ ⟨⟩
      exact hnumbered.arena
  · next e draft hrun =>
      rw [← hes, hrun] at hnumbered
      exact ⟨hnumbered.upto, fun _ h => by cases h⟩

end ContractCalls
