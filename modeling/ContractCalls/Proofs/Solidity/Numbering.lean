/-
# Numbers stay unique while Solidity is loaded

Parsing makes no bodies, and headers come without one.  The lowering takes the
counters along from body to body, whether it succeeds or fails, and stores the
bodies when all of them are there; the passes make no numbers.  So whatever a
caller calls, and wherever an analysis stops, numbers are unique.
-/
import ContractCalls.Proofs.Numbering
import ContractCalls.Proofs.Solidity.Retry
import ContractCalls.Proofs.Solidity.Scripted

namespace ContractCalls.Solidity

open Compilation

/-! ## Headers -/

theorem numbersFrom_resolveVariables (index : Index) (u : Compilation) :
    u.NumbersFrom (resolveVariables index u) := by
  refine .of_functions ?_ ?_
  · exact Loader.resolveVariables_rest (g := fun u => u.functions.map fun f => (f.id, f.body))
      (fun _ _ _ => rfl) index u
  · exact Loader.resolveVariables_rest (g := (·.counters)) (fun _ _ _ => rfl) index u

theorem numbersFrom_addInstance (context base : Contract) (file : String) (s : ContextHeaders)
    (d : Int) : s.headers.unit.NumbersFrom (addInstance context base file s d).headers.unit := by
  unfold addInstance
  split
  · exact .refl _
  · dsimp only
    split
    · exact .refl _
    · exact (NumbersFrom.addFunction _ rfl).trans (.of_functions rfl rfl)

theorem numbersFrom_addContext (h : Headers) (id : ContractId) :
    h.unit.NumbersFrom (addContext h id).unit := by
  unfold addContext
  split
  · next context _ =>
      refine foldl_keeps (P := fun s : ContextHeaders => h.unit.NumbersFrom s.headers.unit)
        (.refl _) fun s base _ hs => ?_
      unfold addBase
      split
      · exact foldl_keeps (P := fun t : ContextHeaders => h.unit.NumbersFrom t.headers.unit) hs
          fun t d _ ht => ht.trans (numbersFrom_addInstance _ _ _ t d)
      · exact hs
  · exact .refl _

theorem numbersFrom_addFree (h : Headers) (free : FreeFunction) :
    h.unit.NumbersFrom (addFree h free).unit := by
  unfold addFree
  split
  · exact .refl _
  · exact (NumbersFrom.addFunction _ rfl).trans (.of_functions rfl rfl)

theorem numbersFrom_buildHeaders (h : Headers) : h.unit.NumbersFrom (buildHeaders h).unit := by
  refine foldl_keeps (P := fun t : Headers => h.unit.NumbersFrom t.unit) ?_
    fun t free _ ht => ht.trans (numbersFrom_addFree t free)
  exact foldl_keeps (P := fun t : Headers => h.unit.NumbersFrom t.unit) (.refl _)
    fun t c _ ht => ht.trans (numbersFrom_addContext t c.id)

theorem numbersFrom_resolveHeaderCalls (index : Index) (u : Compilation) :
    u.NumbersFrom (resolveHeaderCalls index u) := by
  refine foldl_keeps (P := u.NumbersFrom) (.refl u) fun t entry _ ht => ?_
  unfold resolveInstance
  split
  · exact ht
  · refine ht.trans (.of_functions ?_ rfl)
    apply map_modifyFunction
    exact fun _ => rfl

namespace Loader

variable {start l : Loader} {parts : List (List Node)} {builds : Nat}

theorem leaves_numbers_readDeclaration {u : Compilation} {t : Loader} (ht : u.NumbersFrom t.unit)
    (position : Nat) : Leaves (readDeclaration position) t fun t => u.NumbersFrom t.unit := by
  unfold readDeclaration
  refine ends_bind (ends_get ?_)
  split
  · exact ends_pure ht
  · have stored (declarations : Array Declaration) : u.NumbersFrom { t.unit with declarations } :=
      ht.trans (.of_functions rfl rfl)
    refine ends_bind (ends_modify ?_)
    split
    · exact ends_pure (stored _)
    · exact ends_onUnit (leaves_numbers_recover _ _ _ _ (stored _))

/-- Resolving makes no bodies. -/
theorem leaves_numbers_resolve (l : Loader) :
    Leaves resolve l fun t => l.unit.NumbersFrom t.unit := by
  refine ends_bind (ends_get (ends_bind (ends_modify ?_)))
  refine ends_bind ((ends_forM (fun _ (t : Loader) => l.unit.NumbersFrom t.unit)
    (numbersFrom_resolveVariables l.index l.unit) fun position _ _ _ ht =>
      leaves_numbers_readDeclaration ht position).imp ?_ fun _ _ ht => ht)
  intro _ t ht
  refine ends_bind (ends_modify (ends_modify ?_))
  exact (ht.trans (numbersFrom_buildHeaders ⟨t.unit, t.index⟩)).trans
    (numbersFrom_resolveHeaderCalls _ _)

/-! ## Bodies -/

/-- Lowering a definition takes the counters on; a body it gives waits to be stored. -/
theorem lowering_lowerDefinition {u t : Compilation} {waiting : List (FunctionId × Option Body)}
    (h : Lowering u waiting t) (l : Loader) (context : Option ContractId) (file : String) (n : Node)
    (id : FunctionId) :
    Lowering u waiting { t with counters := (lowerDefinition l context file n t.counters).2 } ∧
      ∀ body, (lowerDefinition l context file n t.counters).1 = .ok body →
        Lowering u (waiting ++ [(id, body)])
          { t with counters := (lowerDefinition l context file n t.counters).2 } := by
  unfold lowerDefinition
  split
  · refine ⟨h.go (.refl _), ?_⟩
    rintro _ ⟨⟩
    exact (h.go (.refl _)).skip id
  · next definition _ =>
      obtain ⟨failed, lowered⟩ := h.run (definition.scripted_lower ⟨l.unit, l.index, context⟩) id
      refine ⟨failed, fun body hbody => ?_⟩
      cases hrun : (Build.runBody (definition.lower ⟨l.unit, l.index, context⟩) t.counters).1 with
      | error e =>
          dsimp only at hbody
          rw [hrun] at hbody
          cases hbody
      | ok b =>
          dsimp only at hbody
          rw [hrun] at hbody
          obtain rfl : some b = body := Except.ok.inj hbody
          exact lowered b hrun

/-- An instance adds the body it has to those that wait, or fails and leaves what waits. -/
theorem ends_numbers_lowerInstance {u : Compilation} {done : Lowered} {t : Loader}
    (h : Lowering u done.bodies t.unit) (entry : Seat × FunctionId) :
    Ends (lowerInstance done entry) t (fun done t => Lowering u done.bodies t.unit)
      fun _ t => ∃ waiting, Lowering u waiting t.unit := by
  unfold lowerInstance
  refine ends_bind (ends_get ?_)
  split
  · next f n _ _ =>
      split
      · exact ends_pure h
      · obtain ⟨counted, lowered⟩ := lowering_lowerDefinition h t entry.1.context
          ((f.source.map (·.file)).getD "") n entry.2
        refine ends_bind (ends_modify ?_)
        split
        · next body hbody => exact ends_pure (lowered body hbody)
        · split
          · exact ends_pure counted
          · exact ends_throw ⟨_, counted⟩
  · exact ends_pure h

/-- Bodies are stored when all of them are there. -/
theorem leaves_numbers_lowerBodies (h : l.unit.WellNumbered) :
    Leaves lowerBodies l fun t => t.unit.WellNumbered := by
  unfold lowerBodies
  refine ends_bind (ends_get ?_)
  refine ends_bind ((ends_foldlM (fun (done : Lowered) t => Lowering l.unit done.bodies t.unit)
    (.start l.unit) fun done entry _ ht => ends_numbers_lowerInstance ht entry).imp ?_ ?_)
  · intro done t ht
    refine ends_modify ?_
    exact (numbersFrom_recordErrors _ done.failures).wellNumbered (h.store ht)
  · rintro _ t ⟨waiting, ht⟩
    exact h.lowering ht

theorem leaves_numbers_analyze (h : l.unit.WellNumbered) :
    Leaves analyze l fun t => t.unit.WellNumbered := by
  unfold analyze
  refine ends_bind (ends_get ?_)
  cases l.unit.isParsed with
  | false => exact ends_bind (ends_throw h)
  | true =>
      cases l.unit.isAnalyzed with
      | true => exact ends_pure h
      | false =>
          refine ends_bind ((leaves_numbers_resolve l).imp ?_ fun _ _ ht => ht.wellNumbered h)
          intro _ t ht
          refine ends_bind ((leaves_numbers_lowerBodies (ht.wellNumbered h)).imp ?_
            fun _ _ ht => ht)
          intro _ t ht
          refine ends_bind (ends_onUnit ((ht.leaves_runPasses _ _).imp ?_ fun _ _ hu => hu))
          exact fun _ _ hu => ends_onUnit hu.leaves_finishAnalysis

/-- While nothing has been built there are no bodies, and an analysis keeps numbers unique. -/
theorem Reached.numbers_after (h : Reached start parts builds l) (hnumbered : l.unit.WellNumbered)
    (call : Call) : (call.after l).unit.WellNumbered := by
  cases hopen : call.isOpen l.unit with
  | false =>
      rw [after_of_closed hopen]
      exact hnumbered
  | true =>
      cases call with
      | analyze => exact (leaves_numbers_analyze hnumbered).state
      | parse =>
          cases h with
          | analyzing _ _ h => simp [Call.isOpen, h.isParsed] at hopen
          | gathering h =>
              have leaves : Leaves parse l fun t => t.unit.WellNumbered := by
                refine (ends_parse h).imp ?_ ?_
                · rintro _ _ ⟨r, hr, rfl⟩
                  exact wellNumbered_of_empty hr.gathered.functions
                · rintro _ t ⟨part, -, ht⟩
                  exact wellNumbered_of_empty ht.gathered.functions
              exact leaves.state

/-- Numbers are unique whatever a caller calls. -/
theorem wellNumbered_afterAll (h : Reached start parts builds l)
    (hnumbered : l.unit.WellNumbered) (calls : List Call) :
    (Call.afterAll calls l).unit.WellNumbered := by
  induction calls generalizing parts builds l with
  | nil => exact hnumbered
  | cons call calls ih =>
      obtain ⟨more, builds', hreached, -⟩ := h.after call
      exact ih hreached (h.numbers_after hnumbered call)

theorem wellNumbered_calls (target : String) (sources : List SourceUnit) (policy : FailurePolicy)
    (calls : List Call) :
    (Call.afterAll calls (.new target sources policy)).unit.WellNumbered :=
  wellNumbered_afterAll (reached_new target sources policy) (wellNumbered_of_empty rfl)
    calls

end Loader

end ContractCalls.Solidity
