/-
# The numbers of a compilation

The bodies of a compilation share the counters.  A compilation is
`UniquelyNumbered` if no two operands of a family that rename nothing have one
number, in whatever bodies they are, and every number in use is below the
counter of its family.  It is `WellNumbered` if its functions carry their ids
as well.

Two things happen to bodies.  A pass puts a converted body in the place of one,
or drops it (`NumbersFrom`).  Lowering makes new bodies, which wait until all of
them are there and then replace what was in their place (`Lowering`); their
numbers start where the counters stood, and a lowering that fails has used up
its numbers like any other.
-/
import ContractCalls.Proofs.Body.Calls
import ContractCalls.Proofs.Body.Numbering
import ContractCalls.Proofs.Pipeline
import ContractCalls.Proofs.SingleAssignment.Frame

namespace ContractCalls

namespace Compilation

variable {u u' u'' : Compilation}

/-- The body of a function. -/
def body? (u : Compilation) (id : FunctionId) : Option Body := (u.function? id).bind (·.body)

/-- An operand of the body of a function. -/
def operand? (u : Compilation) (id : FunctionId) (x : OperandId) : Option Operand :=
  (u.body? id).bind (·.arena.get? x)

/-- No two operands of a family that rename nothing have one number, and the counters are above
every number in use. -/
structure UniquelyNumbered (u : Compilation) : Prop where
  distinct : ∀ (family : Family) {f g x y o p i}, u.operand? f x = some o → u.operand? g y = some p →
    o.ssa = none → p.ssa = none → family.number? o.kind = some i → family.number? p.kind = some i →
    f = g ∧ x = y
  below : ∀ (family : Family) {f x o i}, u.operand? f x = some o → family.number? o.kind = some i →
    i < u.counters.next family

/-- The ids of functions and the numbers of operands are in order. -/
structure WellNumbered (u : Compilation) : Prop extends UniquelyNumbered u where
  ids : u.IdsHold

theorem operand?_eq_some_iff {id : FunctionId} {x : OperandId} {o : Operand} :
    u.operand? id x = some o ↔ ∃ b, u.body? id = some b ∧ b.arena.get? x = some o :=
  Option.bind_eq_some_iff

/-- Without bodies there are no numbers. -/
theorem IsBodiless.uniquelyNumbered (h : u.IsBodiless) : u.UniquelyNumbered := by
  have hnone : ∀ id x o, u.operand? id x ≠ some o := by
    intro id x o ho
    obtain ⟨b, hb, -⟩ := operand?_eq_some_iff.mp ho
    obtain ⟨f, hf, hbody⟩ := Option.bind_eq_some_iff.mp hb
    have hmem : f ∈ u.functions.toList := Array.mem_toList_iff.mpr (Array.mem_of_getElem? hf)
    exact absurd ((h f hmem).symm.trans hbody) (by simp)
  exact ⟨fun _ _ _ _ _ _ _ _ ho => absurd ho (hnone _ _ _),
    fun _ _ _ _ _ ho => absurd ho (hnone _ _ _)⟩

theorem wellNumbered_of_empty (h : u.functions = #[]) : u.WellNumbered where
  toUniquelyNumbered := IsBodiless.uniquelyNumbered fun f hf => by
    rw [h] at hf
    exact absurd hf List.not_mem_nil
  ids id f hf := by simp [function?, h] at hf

/-! ## Bodies that are replaced by their conversions -/

/-- Every body of the second compilation has the numbers of the one in its place in the first, and
functions that carried their ids still do. -/
structure NumbersFrom (u u' : Compilation) : Prop where
  bodies : ∀ {id b'}, u'.body? id = some b' →
    ∃ b, u.body? id = some b ∧ b.arena.NumbersFrom b'.arena
  counters : u'.counters = u.counters
  ids : u.IdsHold → u'.IdsHold

namespace NumbersFrom

theorem refl (u : Compilation) : u.NumbersFrom u := ⟨fun hb => ⟨_, hb, .refl _⟩, rfl, fun h => h⟩

theorem trans (h : u.NumbersFrom u') (h' : u'.NumbersFrom u'') : u.NumbersFrom u'' where
  bodies hb := by
    obtain ⟨b', hb', hn'⟩ := h'.bodies hb
    obtain ⟨b, hb, hn⟩ := h.bodies hb'
    exact ⟨b, hb, hn.trans hn'⟩
  counters := h'.counters.trans h.counters
  ids hids := h'.ids (h.ids hids)

/-- The functions have the same ids and bodies in the same places. -/
theorem of_functions
    (hfunctions : u'.functions.map (fun f => (f.id, f.body)) =
      u.functions.map fun f => (f.id, f.body))
    (hcounters : u'.counters = u.counters) : u.NumbersFrom u' where
  bodies {id b'} hb := by
    have hview : ∀ v : Compilation, v.body? id =
        ((v.functions.map fun f => (f.id, f.body))[id.index]?).bind Prod.snd := by
      intro v
      rw [Array.getElem?_map, Option.bind_map, body?, function?]
      rfl
    exact ⟨b', by rw [hview u, ← hfunctions, ← hview, hb], .refl _⟩
  counters := hcounters
  ids hids := by
    have hmap := congrArg (Array.map Prod.fst) hfunctions
    rw [Array.map_map, Array.map_map] at hmap
    exact hids.of_map hmap

theorem wellNumbered (h : u.WellNumbered) (hn : u.NumbersFrom u') : u'.WellNumbered where
  ids := hn.ids h.ids
  distinct family {f g x y o' p' i} ho' hp' hssa hssa' hi hi' := by
    obtain ⟨b', hb', ho'⟩ := operand?_eq_some_iff.mp ho'
    obtain ⟨c', hc', hp'⟩ := operand?_eq_some_iff.mp hp'
    obtain ⟨b, hb, hbn⟩ := hn.bodies hb'
    obtain ⟨c, hc, hcn⟩ := hn.bodies hc'
    obtain ⟨o, ho, hossa, hoi⟩ := hbn.own ho' hssa
    obtain ⟨p, hp, hpssa, hpi⟩ := hcn.own hp' hssa'
    exact h.distinct family (operand?_eq_some_iff.mpr ⟨b, hb, ho⟩)
      (operand?_eq_some_iff.mpr ⟨c, hc, hp⟩) hossa hpssa ((hoi _).symm.trans hi)
      ((hpi _).symm.trans hi')
  below family {f x o' i} ho' hi := by
    obtain ⟨b', hb', ho'⟩ := operand?_eq_some_iff.mp ho'
    obtain ⟨b, hb, hbn⟩ := hn.bodies hb'
    obtain ⟨y, o, ho, hoi⟩ := hbn.used ho'
    rw [hn.counters]
    exact h.below family (operand?_eq_some_iff.mpr ⟨b, hb, ho⟩) ((hoi _).symm.trans hi)

/-- A header has no body. -/
theorem addFunction (u : Compilation) {f : Function} (hbody : f.body = none) :
    u.NumbersFrom (u.addFunction f).2 := by
  refine ⟨fun {id b'} hb => ⟨b', ?_, .refl _⟩, rfl, fun hids => hids.addFunction f⟩
  rw [body?, function?, Compilation.addFunction, Array.getElem?_push] at hb
  split at hb
  · rw [Option.bind_some, hbody] at hb
    cases hb
  · exact hb

end NumbersFrom

theorem numbersFrom_recordErrors (u : Compilation) (failures : List ErrorRecord) :
    u.NumbersFrom (failures.foldl recordError u) :=
  foldl_keeps (.refl u) fun _ _ _ h => h.trans (.of_functions rfl rfl)

/-! ## The passes -/

theorem numbersFrom_collectCalls (u : Compilation) : u.NumbersFrom u.collectCalls := by
  refine .of_functions ?_ rfl
  rw [collectCalls, Array.map_map]
  refine Array.map_congr_left fun f _ => ?_
  have hid := congrArg Function.id f.outline_collectCalls
  exact Prod.ext hid f.collectCalls_body

/-- What a conversion leaves of a body has its numbers, if it leaves one. -/
theorem numbersFrom_convertBody {policy : FailurePolicy} {f : Function} {b' : Body}
    (h : (convertBody policy f).1.body = some b') :
    ∃ b, f.body = some b ∧ b.arena.NumbersFrom b'.arena := by
  unfold convertBody at h
  split at h
  · next hnone => exact absurd (hnone.symm.trans h) (by simp)
  · next b hb =>
      have hchanges := b.changes_toSsa
      refine ⟨b, hb, ?_⟩
      split at h
      · next converted hrun =>
          obtain rfl := Option.some.inj h
          rw [hrun] at hchanges
          exact hchanges.numbersFrom
      · next e converted hrun =>
          split at h
          · cases h
          · obtain rfl := Option.some.inj h
            rw [hrun] at hchanges
            exact hchanges.numbersFrom

/-- Putting what a conversion leaves in the place of a body. -/
theorem numbersFrom_converted (policy : FailurePolicy) {position : Nat} {f : Function}
    (hf : u.functions[position]? = some f) :
    u.NumbersFrom (u.modifyFunction ⟨position⟩ fun _ => (convertBody policy f).1) := by
  have hfound : ∀ {id g}, (u.modifyFunction ⟨position⟩ fun _ => (convertBody policy f).1).function?
      id = some g → id = ⟨position⟩ ∧ g = (convertBody policy f).1 ∨ u.function? id = some g := by
    intro id g hg
    rw [function?, modifyFunction, Array.getElem?_modify] at hg
    split at hg
    · next hid =>
        rw [← hid, hf] at hg
        exact Or.inl ⟨congrArg FunctionId.mk hid.symm, (Option.some.inj hg).symm⟩
    · exact Or.inr hg
  refine ⟨fun {id b'} hb' => ?_, rfl, fun hids id g hg => ?_⟩
  · obtain ⟨g, hg, hbody⟩ := Option.bind_eq_some_iff.mp hb'
    rcases hfound hg with ⟨rfl, rfl⟩ | hg
    · obtain ⟨b, hb, hn⟩ := numbersFrom_convertBody hbody
      exact ⟨b, Option.bind_eq_some_iff.mpr ⟨f, hf, hb⟩, hn⟩
    · exact ⟨b', Option.bind_eq_some_iff.mpr ⟨g, hg, hbody⟩, .refl _⟩
  · rcases hfound hg with ⟨rfl, rfl⟩ | hg
    · have hkept := congrArg Function.id (outline_convertBody policy f)
      exact hkept.trans (hids ⟨position⟩ f hf)
    · exact hids id g hg

theorem leaves_numbers_convertFrom (policy : FailurePolicy) (count position : Nat)
    (failures : List ErrorRecord) {v : Compilation} (hv : u.NumbersFrom v) :
    Leaves (convertFrom policy count position failures) v u.NumbersFrom := by
  induction count generalizing position failures v with
  | zero => exact ends_modify (hv.trans (numbersFrom_recordErrors v failures))
  | succ count ih =>
      unfold convertFrom
      refine ends_bind (ends_get ?_)
      split
      · exact ih _ _ hv
      · next f hf =>
          have hput := hv.trans (numbersFrom_converted policy hf)
          refine ends_bind (ends_modify ?_)
          split
          · exact ih _ _ hput
          · exact ih _ _ hput
          · exact ends_throw hput

theorem leaves_numbers_runPass (policy : FailurePolicy) (pass : Pass) {v : Compilation}
    (hv : u.NumbersFrom v) : Leaves (runPass policy pass) v u.NumbersFrom := by
  unfold runPass
  refine ends_bind (ends_get ?_)
  cases hparsed : v.isParsed with
  | false => cases pass <;> exact ends_bind (ends_throw hv)
  | true =>
      cases pass with
      | callSites => exact ends_modify (hv.trans (numbersFrom_collectCalls v))
      | ssa => exact ends_bind (ends_get (leaves_numbers_convertFrom policy _ _ _ hv))
      | dataDependency =>
          refine ends_bind (ends_get ?_)
          split
          · exact ends_set (hv.trans (.of_functions rfl rfl))
          · exact ends_throw hv

/-- The passes make no numbers. -/
theorem leaves_numbers_runPasses (policy : FailurePolicy) (passes : List Pass) (u : Compilation) :
    Leaves (runPasses policy passes) u u.NumbersFrom :=
  ends_forM (fun _ => u.NumbersFrom) (.refl u) fun pass _ _ _ ht =>
    leaves_numbers_runPass policy pass ht

theorem leaves_numbers_finishAnalysis (u : Compilation) :
    Leaves finishAnalysis u u.NumbersFrom := by
  refine ends_bind (ends_get ?_)
  unfold markAnalyzed
  split
  · next h =>
      split at h
      · cases h
        exact ends_set (.of_functions rfl rfl)
      · cases h
  · exact ends_throw (.refl u)

theorem leaves_numbers_recover (policy : FailurePolicy) (target stage : String) (e : FrontEndError)
    {v : Compilation} (hv : u.NumbersFrom v) :
    Leaves (recover policy target stage e) v u.NumbersFrom := by
  unfold recover
  split
  · exact ends_modify (hv.trans (.of_functions rfl rfl))
  · exact ends_throw hv

theorem WellNumbered.leaves_runPasses (h : u.WellNumbered) (policy : FailurePolicy)
    (passes : List Pass) : Leaves (runPasses policy passes) u WellNumbered :=
  (leaves_numbers_runPasses policy passes u).imp (fun _ _ hn => hn.wellNumbered h)
    fun _ _ hn => hn.wellNumbered h

theorem WellNumbered.leaves_finishAnalysis (h : u.WellNumbered) :
    Leaves finishAnalysis u WellNumbered :=
  (leaves_numbers_finishAnalysis u).imp (fun _ _ hn => hn.wellNumbered h)
    fun _ _ hn => hn.wellNumbered h

/-! ## Lowering -/

/-- Bodies that wait to be stored into a compilation whose counters have gone on: their numbers lie
between the counters, and no two operands that rename nothing share one. -/
structure Lowering (u : Compilation) (waiting : List (FunctionId × Option Body)) (t : Compilation) :
    Prop where
  functions : t.functions = u.functions
  counted : u.counters.Upto t.counters
  between : ∀ (family : Family) {id b x o i}, (id, some b) ∈ waiting → b.arena.get? x = some o →
    family.number? o.kind = some i → u.counters.next family ≤ i ∧ i < t.counters.next family
  distinct : ∀ (family : Family) {f g b c x y o p i}, (f, some b) ∈ waiting → (g, some c) ∈ waiting →
    b.arena.get? x = some o → c.arena.get? y = some p → o.ssa = none → p.ssa = none →
    family.number? o.kind = some i → family.number? p.kind = some i → f = g ∧ x = y

namespace Lowering

variable {t : Compilation} {waiting : List (FunctionId × Option Body)} {next : Counters}

theorem body?_eq (h : Lowering u waiting t) (id : FunctionId) : t.body? id = u.body? id := by
  rw [body?, function?, h.functions, body?, function?]

theorem idsHold (h : Lowering u waiting t) (hids : u.IdsHold) : t.IdsHold :=
  hids.of_map (congrArg (Array.map Function.id) h.functions)

theorem start (u : Compilation) : Lowering u [] u where
  functions := rfl
  counted := .refl _
  between _ _ _ _ _ _ h := absurd h List.not_mem_nil
  distinct _ _ _ _ _ _ _ _ _ _ h := absurd h List.not_mem_nil

/-- The counters have gone on, and nothing came of it. -/
theorem go (h : Lowering u waiting t) (hle : t.counters.Upto next) :
    Lowering u waiting { t with counters := next } where
  functions := h.functions
  counted := h.counted.trans hle
  between family _ _ _ _ _ hmem ho hi :=
    ⟨(h.between family hmem ho hi).1, Nat.lt_of_lt_of_le (h.between family hmem ho hi).2 (hle family)⟩
  distinct := h.distinct

/-- Nothing waits for a function without a body. -/
theorem skip (h : Lowering u waiting t) (id : FunctionId) : Lowering u (waiting ++ [(id, none)]) t := by
  have hmem : ∀ {f b}, (f, some b) ∈ waiting ++ [(id, none)] → (f, some b) ∈ waiting := by
    intro f b hb
    rcases List.mem_append.mp hb with hb | hb
    · exact hb
    · cases List.mem_singleton.mp hb
  exact ⟨h.functions, h.counted, fun family _ _ _ _ _ hb => h.between family (hmem hb),
    fun family _ _ _ _ _ _ _ _ _ hb hc => h.distinct family (hmem hb) (hmem hc)⟩

/-- One more body, whose numbers start where the counters stood. -/
theorem add (h : Lowering u waiting t) (hle : t.counters.Upto next) (id : FunctionId) {b : Body}
    (hb : b.arena.Numbered t.counters next) :
    Lowering u (waiting ++ [(id, some b)]) { t with counters := next } := by
  have hgo := h.go hle
  have hcases : ∀ {f c}, (f, some c) ∈ waiting ++ [(id, some b)] →
      (f, some c) ∈ waiting ∨ f = id ∧ c = b := by
    intro f c hc
    rcases List.mem_append.mp hc with hc | hc
    · exact Or.inl hc
    · obtain ⟨hid, hbody⟩ := Prod.mk.inj (List.mem_singleton.mp hc)
      exact Or.inr ⟨hid, Option.some.inj hbody⟩
  -- what waited before has numbers below those of the new body
  have hapart : ∀ (family : Family) {f c x y o p i}, (f, some c) ∈ waiting → c.arena.get? x = some o →
      b.arena.get? y = some p → family.number? o.kind = some i → family.number? p.kind = some i →
      False := by
    intro family f c x y o p i hc ho hp hi hi'
    exact absurd (h.between family hc ho hi).2 (Nat.not_lt.mpr (hb.between hp hi').1)
  refine ⟨h.functions, hgo.counted, ?_, ?_⟩
  · intro family f c x o i hc ho hi
    rcases hcases hc with hold | ⟨rfl, rfl⟩
    · exact hgo.between family hold ho hi
    · obtain ⟨hlow, hhigh⟩ := hb.between ho hi
      exact ⟨Nat.le_trans (h.counted family) hlow, hhigh⟩
  · intro family f g c c' x y o p i hc hc' ho hp hssa hssa' hi hi'
    rcases hcases hc with hold | ⟨rfl, rfl⟩
    · rcases hcases hc' with hold' | ⟨rfl, rfl⟩
      · exact h.distinct family hold hold' ho hp hssa hssa' hi hi'
      · exact (hapart family hold ho hp hi hi').elim
    · rcases hcases hc' with hold' | ⟨rfl, rfl⟩
      · exact (hapart family hold' hp ho hi' hi).elim
      · exact ⟨rfl, hb.distinct ho hp hssa hssa' hi hi'⟩

/-- What a construction made of calls leads to, waiting if it succeeded. -/
theorem run (h : Lowering u waiting t) {build : Build Unit} (scripted : Scripted build)
    (id : FunctionId) :
    Lowering u waiting { t with counters := (Build.runBody build t.counters).2 } ∧
      ∀ b, (Build.runBody build t.counters).1 = .ok b →
        Lowering u (waiting ++ [(id, some b)])
          { t with counters := (Build.runBody build t.counters).2 } := by
  obtain ⟨hle, hbody⟩ := scripted.numbered t.counters
  exact ⟨h.go hle, fun b hb => h.add hle id (hbody b hb)⟩

end Lowering

/-- The compilation with bodies stored in their places. -/
def storeAll (u : Compilation) (waiting : List (FunctionId × Option Body)) : Compilation :=
  waiting.foldl (fun u entry => u.modifyFunction entry.1 fun f => { f with body := entry.2 }) u

theorem body?_store {id other : FunctionId} {body : Option Body} {b : Body}
    (h : (u.modifyFunction id fun f => { f with body }).body? other = some b) :
    u.body? other = some b ∨ other = id ∧ body = some b := by
  rw [body?, function?, modifyFunction, Array.getElem?_modify] at h
  split at h
  · next hid =>
      obtain ⟨f, hf, hb⟩ := Option.bind_eq_some_iff.mp h
      obtain ⟨g, -, rfl⟩ := Option.map_eq_some_iff.mp hf
      exact Or.inr ⟨congrArg FunctionId.mk hid.symm, hb⟩
  · exact Or.inl h

/-- A body is there before, or was stored. -/
theorem body?_storeAll {waiting : List (FunctionId × Option Body)} {id : FunctionId} {b : Body}
    (h : (u.storeAll waiting).body? id = some b) : u.body? id = some b ∨ (id, some b) ∈ waiting := by
  induction waiting generalizing u with
  | nil => exact Or.inl h
  | cons entry waiting ih =>
      rcases ih h with h | h
      · rcases body?_store h with h | ⟨rfl, hbody⟩
        · exact Or.inl h
        · exact Or.inr (List.mem_cons.mpr (Or.inl (by rw [← hbody])))
      · exact Or.inr (List.mem_cons_of_mem _ h)

theorem counters_storeAll (u : Compilation) (waiting : List (FunctionId × Option Body)) :
    (u.storeAll waiting).counters = u.counters :=
  foldl_keeps (P := fun t : Compilation => t.counters = u.counters) rfl fun _ _ _ h => h

/-- Storing bodies leaves ids. -/
theorem IdsHold.storeAll (h : u.IdsHold) (waiting : List (FunctionId × Option Body)) :
    (u.storeAll waiting).IdsHold :=
  foldl_keeps (P := IdsHold) h fun t entry _ ht => by
    refine ht.of_map ?_
    apply map_modifyFunction
    exact fun _ => rfl

/-- Storing what waits keeps numbers unique: old numbers are below the counters the lowering
started with, and those of what waits are not. -/
theorem WellNumbered.store (h : u.WellNumbered) {t : Compilation}
    {waiting : List (FunctionId × Option Body)} (lowering : Lowering u waiting t) :
    (t.storeAll waiting).WellNumbered := by
  have hcases : ∀ {f x o}, (t.storeAll waiting).operand? f x = some o →
      u.operand? f x = some o ∨ ∃ b, (f, some b) ∈ waiting ∧ b.arena.get? x = some o := by
    intro f x o ho
    obtain ⟨b, hb, ho⟩ := operand?_eq_some_iff.mp ho
    rcases body?_storeAll hb with hb | hb
    · exact Or.inl (operand?_eq_some_iff.mpr ⟨b, (lowering.body?_eq f).symm.trans hb, ho⟩)
    · exact Or.inr ⟨b, hb, ho⟩
  have hapart : ∀ (family : Family) {f g b x y o p i}, u.operand? f x = some o →
      (g, some b) ∈ waiting → b.arena.get? y = some p → family.number? o.kind = some i →
      family.number? p.kind = some i → False := by
    intro family f g b x y o p i ho hb hp hi hi'
    exact absurd (h.below family ho hi) (Nat.not_lt.mpr (lowering.between family hb hp hi').1)
  refine ⟨⟨?_, ?_⟩, (lowering.idsHold h.ids).storeAll waiting⟩
  · intro family f g x y o p i ho hp hssa hssa' hi hi'
    rcases hcases ho with ho | ⟨b, hb, ho⟩
    · rcases hcases hp with hp | ⟨c, hc, hp⟩
      · exact h.distinct family ho hp hssa hssa' hi hi'
      · exact (hapart family ho hc hp hi hi').elim
    · rcases hcases hp with hp | ⟨c, hc, hp⟩
      · exact (hapart family hp hb ho hi' hi).elim
      · exact lowering.distinct family hb hc ho hp hssa hssa' hi hi'
  · intro family f x o i ho hi
    rw [counters_storeAll]
    rcases hcases ho with ho | ⟨b, hb, ho⟩
    · exact Nat.lt_of_lt_of_le (h.below family ho hi) (lowering.counted family)
    · exact (lowering.between family hb ho hi).2

/-- While bodies wait, the ones that are there keep their numbers. -/
theorem WellNumbered.lowering (h : u.WellNumbered) {t : Compilation}
    {waiting : List (FunctionId × Option Body)} (lowering : Lowering u waiting t) :
    t.WellNumbered := by
  have hoperand : ∀ f x, t.operand? f x = u.operand? f x := fun f x => by
    rw [operand?, lowering.body?_eq, operand?]
  refine ⟨⟨?_, ?_⟩, lowering.idsHold h.ids⟩
  · intro family f g x y o p i ho hp
    exact h.distinct family ((hoperand f x).symm.trans ho) ((hoperand g y).symm.trans hp)
  · intro family f x o i ho hi
    exact Nat.lt_of_lt_of_le (h.below family ((hoperand f x).symm.trans ho) hi)
      (lowering.counted family)

end Compilation

end ContractCalls
