/-
# Numbers stay unique while a module is loaded

Parsing registers functions without bodies.  The lowering takes the counters
along from function to function and stores the bodies when all of them are
there.  Two functions of one name are lowered both, and the later body replaces
the earlier one; the numbers of a body that was replaced are used up.
-/
import ContractCalls.Proofs.Numbering
import ContractCalls.Proofs.Vyper.Module
import ContractCalls.Proofs.Vyper.Scripted
import ContractCalls.Proofs.Vyper.SourceOnly
import ContractCalls.Vyper.Source

namespace ContractCalls.Vyper

open Compilation

theorem numbersFrom_addModuleFunction (u : Compilation) (contract : ContractId) {f : Function}
    (hbody : f.body = none) : u.NumbersFrom (addModuleFunction u contract f).2 := by
  refine (NumbersFrom.addFunction u hbody).trans (.of_functions ?_ ?_)
  · rw [Loader.functions_addModuleFunction]
    rfl
  · simp only [addModuleFunction]
    split <;> rfl

namespace Loader

variable {u : Compilation} {l : Loader}

theorem ends_onUnit {α : Type} {x : OnCompilation α} {ok : α → Loader → Prop}
    {err : FrontEndError → Loader → Prop}
    (h : Ends x l.unit (fun a unit => ok a { l with unit }) fun e unit => err e { l with unit }) :
    Ends (onUnit x) l ok err :=
  ends_zoom Loader.unit (fun l unit => { l with unit }) h

/-! ## Parsing -/

theorem leaves_numbers_registerMember (h : u.NumbersFrom l.unit) (n : Node) :
    Leaves (registerMember n) l fun t => u.NumbersFrom t.unit := by
  unfold registerMember
  split
  · next kind _ =>
      refine ends_bind (ends_get ?_)
      split
      · next name contract _ _ =>
          refine ends_modify (h.trans (.of_functions ?_ ?_))
          · rw [functions_addDeclaration]
          · simp only [addDeclaration]
            split <;> rfl
      · exact ends_pure h
      · exact ends_throw h
  · refine ends_bind (ends_get ?_)
    split
    · exact ends_throw h
    · exact ends_set (h.trans (.of_functions rfl rfl))
  · exact ends_modify (h.trans (numbersFrom_addModuleFunction _ _ rfl))
  · exact ends_pure h

/-- Parsing makes no bodies. -/
theorem leaves_numbers_parse (l : Loader) : Leaves parse l fun t => l.unit.NumbersFrom t.unit := by
  unfold parse
  refine ends_bind (ends_get ?_)
  split
  · exact ends_pure (.refl _)
  · split
    · exact ends_bind (ends_throw (.refl _))
    · refine ends_bind (ends_set ?_)
      generalize hstart : { l with layout := _ } = start
      have hunit : l.unit.NumbersFrom start.unit := hstart ▸ .refl _
      exact (ends_forM (fun _ (t : Loader) => l.unit.NumbersFrom t.unit) hunit
        fun n _ _ _ ht => leaves_numbers_registerMember ht n).bind
          fun _ _ ht => ends_modify (ht.trans (.of_functions rfl rfl))

/-! ## Analysis -/

theorem leaves_numbers_readDeclaration (h : u.NumbersFrom l.unit) (position : Nat) :
    Leaves (readDeclaration position) l fun t => u.NumbersFrom t.unit := by
  unfold readDeclaration
  refine ends_bind (ends_get ?_)
  split
  · exact ends_pure h
  · have stored (declarations : Array Declaration) : u.NumbersFrom { l.unit with declarations } :=
      h.trans (.of_functions rfl rfl)
    refine ends_bind (ends_modify ?_)
    split
    · exact ends_pure (stored _)
    · exact ends_onUnit (leaves_numbers_recover _ _ _ _ (stored _))

/-- The bodies lowered so far, each of which waits to be stored. -/
def Lowered.waiting (done : Lowered) : List (FunctionId × Option Body) :=
  done.bodies.map fun entry => (entry.1, some entry.2)

theorem storeAll_waiting (u : Compilation) (done : Lowered) :
    u.storeAll done.waiting = done.bodies.foldl storeBody u := List.foldl_map

/-- A function adds the body it has to those that wait, or fails and leaves what waits. -/
theorem ends_numbers_lowerFunction {done : Lowered} (h : Lowering u done.waiting l.unit) (n : Node) :
    Ends (lowerFunction done n) l (fun done t => Lowering u done.waiting t.unit)
      fun _ t => ∃ waiting, Lowering u waiting t.unit := by
  unfold lowerFunction
  refine ends_bind (ends_get ?_)
  split
  · exact ends_pure h
  · next id _ =>
      obtain ⟨counted, lowered⟩ := h.run
        ((Definition.ofNode l.layout.types l.locate n).scripted_lower l.layout) id
      refine ends_bind (ends_modify ?_)
      split
      · next body hbody =>
          have hwaiting : (Lowered.mk (done.bodies ++ [(id, body)]) done.failures).waiting =
              done.waiting ++ [(id, some body)] := List.map_append
          exact ends_pure (hwaiting ▸ lowered body hbody)
      · split
        · exact ends_pure counted
        · exact ends_throw ⟨_, counted⟩

/-- Bodies are stored when all of them are there. -/
theorem leaves_numbers_lowerBodies (h : l.unit.WellNumbered) :
    Leaves lowerBodies l fun t => t.unit.WellNumbered := by
  have hstart : Lowering l.unit (Lowered.mk [] []).waiting l.unit := .start l.unit
  unfold lowerBodies
  refine ends_bind (ends_get (ends_bind ((ends_foldlM
    (fun (done : Lowered) (t : Loader) => Lowering l.unit done.waiting t.unit) hstart
    fun done n _ ht => ends_numbers_lowerFunction ht n).imp ?_ ?_)))
  · intro done t ht
    refine ends_modify ?_
    have hstored := h.store ht
    rw [storeAll_waiting] at hstored
    exact (numbersFrom_recordErrors _ done.failures).wellNumbered hstored
  · rintro _ t ⟨waiting, ht⟩
    exact h.lowering ht

theorem leaves_numbers_lower (h : l.unit.WellNumbered) :
    Leaves lower l fun t => t.unit.WellNumbered := by
  unfold lower
  refine ends_bind (ends_get ?_)
  refine ends_bind ((ends_forM (fun _ (t : Loader) => l.unit.NumbersFrom t.unit) (.refl l.unit)
    fun position _ _ _ ht => leaves_numbers_readDeclaration ht position).imp ?_
      fun _ _ ht => ht.wellNumbered h)
  exact fun _ _ ht => leaves_numbers_lowerBodies (ht.wellNumbered h)

theorem leaves_numbers_analyze (h : l.unit.WellNumbered) :
    Leaves analyze l fun t => t.unit.WellNumbered := by
  unfold analyze
  refine ends_bind (ends_get ?_)
  cases l.unit.isParsed with
  | false => exact ends_bind (ends_throw h)
  | true =>
      cases l.unit.isAnalyzed with
      | true => exact ends_pure h
      | false =>
          refine ends_bind ((leaves_numbers_lower h).imp ?_ fun _ _ ht => ht)
          intro _ t ht
          refine ends_bind (ends_onUnit ((ht.leaves_runPasses _ _).imp ?_ fun _ _ hu => hu))
          exact fun _ _ hu => ends_onUnit hu.leaves_finishAnalysis

end Loader

/-! ## Calls -/

/-- A call that a caller makes. -/
inductive Call where
  | parse
  | analyze
deriving DecidableEq, Repr

namespace Call

/-- What the call runs. -/
def step : Call → Load Unit
  | .parse => Loader.parse
  | .analyze => Loader.analyze

/-- The loader after the call, whatever it returns. -/
def after (call : Call) (l : Loader) : Loader := (call.step.run l).2

/-- The loader after calls. -/
def afterAll (calls : List Call) (l : Loader) : Loader := calls.foldl (fun l call => call.after l) l

theorem numbers_after {l : Loader} (h : l.unit.WellNumbered) (call : Call) :
    (call.after l).unit.WellNumbered := by
  cases call with
  | parse => exact (Loader.leaves_numbers_parse l).state.wellNumbered h
  | analyze => exact (Loader.leaves_numbers_analyze h).state

/-- Numbers are unique whatever a caller calls. -/
theorem numbers_afterAll (target contractName file source : String) (tree : Json)
    (policy : FailurePolicy) (calls : List Call) :
    (afterAll calls (.new target contractName file source tree policy)).unit.WellNumbered :=
  foldl_keeps (P := fun l : Loader => l.unit.WellNumbered) (wellNumbered_of_empty rfl)
    fun _ call _ h => numbers_after h call

end Call

/-! ## Source files -/

namespace Source

theorem numbers_ofTree {s : Source} {contractName : String} {tree : Json} {policy : FailurePolicy}
    {u : Compilation} (h : s.ofTree contractName tree policy = .ok u) : u.WellNumbered := by
  have hload : Leaves Loader.load (.new s.path contractName s.file s.text tree policy)
      fun l => l.unit.WellNumbered := by
    have hnew : (Loader.new s.path contractName s.file s.text tree policy).unit.WellNumbered :=
      wellNumbered_of_empty rfl
    refine ends_bind ((Loader.leaves_numbers_parse _).imp ?_ fun _ _ ht => ht.wellNumbered hnew)
    exact fun _ _ ht => Loader.leaves_numbers_analyze (ht.wellNumbered hnew)
  unfold ofTree at h
  split at h
  · next loader hrun =>
      have hstate := hload.state
      rw [hrun] at hstate
      exact Except.ok.inj h ▸ hstate
  · cases h

/-- A source text that was not compiled has no bodies. -/
theorem numbers_withoutTree {s : Source} {warning : String} {policy : FailurePolicy}
    {u : Compilation} (h : s.withoutTree warning policy = .ok u) : u.WellNumbered := by
  obtain ⟨v, hv, -, hfunctions⟩ :=
    exists_sourceUnit s.path s.contractName s.file s.text policy
  unfold withoutTree at h
  rw [hv] at h
  obtain rfl := Except.ok.inj h
  have hbodiless : IsBodiless { v with warning := some warning } := by
    intro f hf
    obtain ⟨i, hi, rfl⟩ := List.mem_mapIdx.mp (hfunctions ▸ hf)
    rfl
  refine ⟨hbodiless.uniquelyNumbered, fun id f hf => ?_⟩
  have hlisted : v.functions.toList[id.index]? = some f := by
    rw [Array.getElem?_toList]
    exact hf
  rw [hfunctions, getElem?_finishedFunctions] at hlisted
  obtain ⟨g, -, rfl⟩ := Option.map_eq_some_iff.mp hlisted
  rfl

theorem numbers_compilation {s : Source} {policy : FailurePolicy}
    {answer : Except FrontEndError Json} {u : Compilation}
    (h : s.compilation policy answer = .ok u) : u.WellNumbered := by
  unfold compilation at h
  split at h
  · split at h
    · exact numbers_ofTree h
    · exact numbers_withoutTree h
  · split at h
    · cases h
    · exact numbers_withoutTree h

/-- Leaving out call sites leaves the bodies. -/
theorem numbersFrom_pruneCalls (options : Options) (u : Compilation) :
    u.NumbersFrom (pruneCalls options u) :=
  .of_functions (by rw [pruneCalls, Array.map_map]; rfl) rfl

theorem numbers_build {s : Source} {options : Options} {policy : FailurePolicy}
    {answer : Except FrontEndError Json} {u : Compilation}
    (h : s.build options policy answer = .ok u) : u.WellNumbered := by
  unfold build at h
  cases hcompilation : s.compilation policy answer with
  | error e =>
      rw [hcompilation] at h
      cases h
  | ok v =>
      rw [hcompilation] at h
      obtain rfl := Except.ok.inj h
      exact (numbersFrom_pruneCalls options v).wellNumbered (numbers_compilation hcompilation)

end Source

end ContractCalls.Vyper
