/-
# Calls that are dropped and calls that are left out

The arguments of a run say twice which calls of a Vyper source to report: as
options, by which call sites are dropped from the compilation before anything
is asked of it, and as filters, by which targets are left out when it is asked.
The target of a call site that is dropped is over an edge that is not kept, so
each function has the same kept targets before and after
(`keptTargets_pruneCalls`), and nothing else of it is dropped.  Hence neither a
record nor a bundle shows whether call sites were dropped
(`callEdges_bundle_pruneCalls`).
-/
import ContractCalls.CommandLine.Run
import ContractCalls.Proofs.CallGraph.Alike
import ContractCalls.Proofs.CallGraph.Target

namespace ContractCalls

/-- What is left out at the end may be dropped at the start. -/
theorem filter_filterMap_filter {α β : Type} {read : α → Option β} {keep : α → Bool} {p : β → Bool}
    (h : ∀ a b, read a = some b → p b = true → keep a = true) (l : List α) :
    ((l.filter keep).filterMap read).filter p = (l.filterMap read).filter p := by
  rw [List.filterMap_filter, List.filter_filterMap, List.filter_filterMap]
  congr 1
  funext a
  split
  · rfl
  · next hkeep =>
      cases hread : read a with
      | none => rfl
      | some b =>
          have hp : p b = false := Bool.eq_false_iff.2 fun hp => hkeep (h a b hread hp)
          simp [Option.filter, hp]

namespace Vyper

/-- The options ask for all calls that the filters keep. -/
structure Options.Covers (options : Options) (filters : CallFilters) : Prop where
  external : filters.external = true → options.externalCalls = true
  solidity : filters.solidity = true → options.builtinCalls = true

variable {options : Options} {filters : CallFilters} {u : Compilation}

theorem function?_pruneCalls (options : Options) (u : Compilation) (id : FunctionId) :
    (pruneCalls options u).function? id =
      (u.function? id).map fun f => { f with calls := options.prune f.calls } := by
  simp [Compilation.function?, pruneCalls]

theorem alike_pruneCalls (options : Options) (u : Compilation) :
    u.Alike (pruneCalls options u) := by
  intro id
  rw [function?_pruneCalls]
  cases u.function? id with
  | none => exact .none
  | some f => exact .some ⟨_, rfl⟩

/-! ## Targets -/

/-- The internal calls that the options ask for. -/
def Options.asksFor (options : Options) : Callee → Bool
  | .builtin _ => options.builtinCalls
  | _ => true

theorem prune_internal (options : Options) (calls : CallSites) :
    (options.prune calls).internal = calls.internal.filter options.asksFor := by
  unfold Options.prune
  cases hbuiltin : options.builtinCalls with
  | true =>
      refine (List.filter_eq_self.2 fun c _ => ?_).symm
      cases c with
      | builtin name => exact hbuiltin
      | _ => rfl
  | false =>
      refine congrArg (calls.internal.filter ·) (funext fun c => ?_)
      cases c with
      | builtin name => exact hbuiltin.symm
      | _ => rfl

theorem prune_highLevel (options : Options) (calls : CallSites) :
    (options.prune calls).highLevel = calls.highLevel.filter fun _ => options.externalCalls := by
  unfold Options.prune
  cases options.externalCalls <;> simp

/-- Calls on other contracts have an edge of their own. -/
theorem edge_ofHighLevel? {callee : Callee} {target : CallTarget}
    (h : CallTarget.ofHighLevel? u callee = some target) : target.edge = .external := by
  unfold CallTarget.ofHighLevel? at h
  split at h
  · next contract id =>
      obtain rfl := Option.some.inj h
      exact CallTarget.edge_function u id .external
  · obtain rfl := Option.some.inj h
    rfl
  · obtain rfl := Option.some.inj h
    rfl
  · cases h

/-- A function has the same kept targets before and after. -/
theorem keptTargets_pruneCalls (h : options.Covers filters) (f : Function) :
    (pruneCalls options u).keptTargets filters { f with calls := options.prune f.calls } =
      u.keptTargets filters f := by
  have halike := alike_pruneCalls options u
  have hinternal : ∀ callee target, CallTarget.ofInternal? u callee = some target →
      filters.keeps target.edge = true → options.asksFor callee = true := by
    intro callee target htarget hkeeps
    cases callee with
    | builtin name =>
        obtain rfl := Option.some.inj htarget
        exact h.solidity hkeeps
    | _ => rfl
  have hexternal : ∀ callee target, CallTarget.ofHighLevel? u callee = some target →
      filters.keeps target.edge = true → options.externalCalls = true := by
    intro callee target htarget hkeeps
    rw [edge_ofHighLevel? htarget] at hkeeps
    exact h.external hkeeps
  unfold Compilation.keptTargets Compilation.callTargets
  rw [CallTarget.function_alike halike, CallTarget.ofInternal?_alike halike,
    CallTarget.ofLibrary?_alike halike, CallTarget.ofHighLevel?_alike halike]
  simp only [List.filter_append, prune_internal, prune_highLevel]
  rw [filter_filterMap_filter hinternal, filter_filterMap_filter hexternal]
  rfl

/-! ## Records and bundles -/

theorem callEdges_pruneCalls (h : options.Covers filters) (u : Compilation) (root : FunctionId) :
    (pruneCalls options u).callEdges root filters = u.callEdges root filters := by
  unfold Compilation.callEdges
  rw [function?_pruneCalls]
  cases u.function? root with
  | none => rfl
  | some f =>
      rw [Option.map_some]
      dsimp only
      rw [Compilation.callEntries, keptTargets_pruneCalls h f,
        CallEntry.ofTarget?_alike (alike_pruneCalls options u)]
      rfl

theorem visitsAlike_pruneCalls (h : options.Covers filters) (u : Compilation) (f : Function) :
    Bundle.Walk.VisitsAlike u (pruneCalls options u) filters f
      { f with calls := options.prune f.calls } := by
  intro w _
  simp only [Bundle.Walk.visit, Bundle.leavesOf, Bundle.stepsFrom, keptTargets_pruneCalls h f,
    Bundle.classify_alike (alike_pruneCalls options u)]

theorem bundle_pruneCalls (h : options.Covers filters) (u : Compilation) (entry : FunctionId) :
    (pruneCalls options u).bundle entry filters = u.bundle entry filters := by
  have hvisits (id : FunctionId) : Option.Rel
      (Bundle.Walk.VisitsAlike u (pruneCalls options u) filters)
      (u.function? id) ((pruneCalls options u).function? id) := by
    rw [function?_pruneCalls]
    cases u.function? id with
    | none => exact .none
    | some f => exact .some (visitsAlike_pruneCalls h u f)
  unfold Compilation.bundle
  rw [function?_pruneCalls]
  cases u.function? entry with
  | none => rfl
  | some root =>
      rw [Option.map_some]
      dsimp only
      rw [Bundle.Walk.run_alike hvisits]
      · simp [pruneCalls, Function.uid]
      · exact List.Pairwise.nil

end Vyper

namespace CommandLine

theorem Arguments.covers (a : Arguments) : a.vyperOptions.Covers a.filters := ⟨id, id⟩

/-- Whatever the arguments, no record and no bundle shows whether the call sites that they do not
ask for were dropped. -/
theorem Arguments.callEdges_bundle_pruneCalls (a : Arguments) (u : Compilation) (id : FunctionId) :
    (Vyper.pruneCalls a.vyperOptions u).callEdges id a.filters = u.callEdges id a.filters ∧
      (Vyper.pruneCalls a.vyperOptions u).bundle id a.filters = u.bundle id a.filters :=
  ⟨Vyper.callEdges_pruneCalls a.covers u id, Vyper.bundle_pruneCalls a.covers u id⟩

end CommandLine

end ContractCalls
