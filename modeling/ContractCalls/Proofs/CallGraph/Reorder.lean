/-
# The order of call sites does not show in a bundle

The walk that finds a bundle looks at the calls of a function in a fixed order,
by edge and uid, and keeps leaves in a sorted set.  As uids tell functions
apart, two calls that tie are the same step, so the order of the steps does not
depend on the order in which the calls are listed.

Two compilations are compared that differ in the order of the calls in each of
the five lists of every function.  Function by function they have the same
targets up to order, hence the same steps and, added to a sorted set, the same
leaves; so the two walks go through the same states.
-/
import ContractCalls.Proofs.CallGraph.Alike

namespace ContractCalls

/-! ## Reordered calls -/

/-- The second call sites are the first ones with each of the five lists in another order. -/
structure CallSites.Reorders (c c' : CallSites) : Prop where
  modifiers : c.modifiers.Perm c'.modifiers
  baseConstructors : c.baseConstructors.Perm c'.baseConstructors
  internal : c.internal.Perm c'.internal
  library : c.library.Perm c'.library
  highLevel : c.highLevel.Perm c'.highLevel

/-- The second function is the first one with reordered calls. -/
def Function.Reorders (f g : Function) : Prop :=
  ∃ calls, f.calls.Reorders calls ∧ g = { f with calls }

/-- The second compilation is the first one with the calls of its functions reordered. -/
def Compilation.Reorders (u u' : Compilation) : Prop :=
  ∃ functions, List.Forall₂ Function.Reorders u.functions.toList functions.toList ∧
    u' = { u with functions }

section Reorders

variable {u u' : Compilation} {f g : Function}

/-- Related lists are related at every position. -/
theorem forall₂_getElem? {α β : Type} {R : α → β → Prop} {xs : List α} {ys : List β}
    (h : List.Forall₂ R xs ys) (i : Nat) : Option.Rel R xs[i]? ys[i]? := by
  induction h generalizing i with
  | nil => exact .none
  | cons hxy _ ih =>
      cases i with
      | zero => exact .some hxy
      | succ i => exact ih i

/-- A function is there before exactly if it is there after. -/
theorem Compilation.Reorders.function? (h : u.Reorders u') (id : FunctionId) :
    Option.Rel Function.Reorders (u.function? id) (u'.function? id) := by
  obtain ⟨functions, hall, rfl⟩ := h
  simp only [Compilation.function?, ← Array.getElem?_toList]
  exact forall₂_getElem? hall id.index

theorem Compilation.Reorders.alike (h : u.Reorders u') : u.Alike u' :=
  fun id => option_rel_imp (fun ⟨calls, _, hg⟩ => ⟨calls, hg⟩) (h.function? id)

/-- What a function looked up by its id shows besides its calls. -/
theorem Compilation.Reorders.map_eq {β : Type} (h : u.Reorders u') (view : Function → β)
    (hview : ∀ f calls, view { f with calls } = view f) (id : FunctionId) :
    (u'.function? id).map view = (u.function? id).map view :=
  h.alike.map_eq view hview id

/-! ## Targets -/

/-- The targets are the same up to order. -/
theorem Compilation.Reorders.callTargets_perm (h : u.Reorders u') (hfg : f.Reorders g) :
    (u.callTargets f).Perm (u'.callTargets g) := by
  obtain ⟨calls, hcalls, rfl⟩ := hfg
  simp only [Compilation.callTargets, CallTarget.function_alike h.alike,
    CallTarget.ofInternal?_alike h.alike, CallTarget.ofLibrary?_alike h.alike,
    CallTarget.ofHighLevel?_alike h.alike]
  exact ((((hcalls.modifiers.map _).append (hcalls.baseConstructors.map _)).append
    (hcalls.internal.filterMap _)).append (hcalls.library.filterMap _)).append
    (hcalls.highLevel.filterMap _)

theorem Compilation.Reorders.keptTargets_perm (h : u.Reorders u') (hfg : f.Reorders g)
    (filters : CallFilters) : (u.keptTargets filters f).Perm (u'.keptTargets filters g) :=
  (h.callTargets_perm hfg).filter _

namespace Bundle

/-! ## Steps and leaves -/

/-- The order of steps: by edge and uid. -/
abbrev Step.order : Ordered.Comparison Step :=
  Ordered.lexically (Ordered.comparing Step.edge) (Ordered.comparing Step.uid)

/-- Steps to functions that are there and tie are the same step. -/
theorem Step.eq_of_tie (hu : DistinctUids u) {a b : Step} {target target' : CallTarget}
    (ha : classify u target = .inl a) (hb : classify u target' = .inl b)
    (htie : Step.order a b = .eq) : a = b := by
  obtain ⟨-, -, -, f, hf, -, hfuid⟩ := classify_eq_inl.1 ha
  obtain ⟨-, -, -, g, hg, -, hguid⟩ := classify_eq_inl.1 hb
  obtain ⟨hedge, huid⟩ := Ordered.lexically_eq.1 htie
  have hid := hu.eq_of_uid hf hg (by rw [hfuid, hguid]; exact Ordered.comparing_eq.1 huid)
  cases a
  cases b
  exact congr (congr (congrArg Step.mk (Ordered.comparing_eq.1 hedge)) (Ordered.comparing_eq.1 huid))
    hid

/-- A function leads to the same steps in the same order. -/
theorem stepsFrom_reorders (hu : DistinctUids u) (h : u.Reorders u') (hfg : f.Reorders g)
    (filters : CallFilters) : stepsFrom u' filters g = stepsFrom u filters f := by
  unfold stepsFrom
  rw [classify_alike h.alike]
  refine (Ordered.sort_eq_of_perm ?_ ((h.keptTargets_perm hfg filters).filterMap _)).symm
  intro a ha b hb
  obtain ⟨target, -, ha⟩ := List.mem_filterMap.1 ha
  obtain ⟨target', -, hb⟩ := List.mem_filterMap.1 hb
  exact Step.eq_of_tie hu (Sum.getLeft?_eq_some_iff.1 ha) (Sum.getLeft?_eq_some_iff.1 hb)

theorem leavesOf_perm (h : u.Reorders u') (hfg : f.Reorders g) (filters : CallFilters) :
    (leavesOf u filters f).Perm (leavesOf u' filters g) := by
  unfold leavesOf
  rw [classify_alike h.alike]
  exact (h.keptTargets_perm hfg filters).filterMap _

/-! ## Walks -/

namespace Walk

variable {filters : CallFilters} {w : Walk}

/-- Looking at a function takes the same leaves and the same steps. -/
theorem visit_reorders (hu : DistinctUids u) (h : u.Reorders u') (hfg : f.Reorders g)
    (hw : Ordered.Ascending Leaf.order w.leaves) : w.visit u' filters g = w.visit u filters f := by
  unfold Walk.visit
  rw [stepsFrom_reorders hu h hfg filters,
    Ordered.foldl_insert_perm hw (leavesOf_perm h hfg filters)]

/-- The two walks go through the same states. -/
theorem run_reorders (hu : DistinctUids u) (h : u.Reorders u') (fuel : Nat)
    (hw : Ordered.Ascending Leaf.order w.leaves) : run u' filters fuel w = run u filters fuel w :=
  run_alike (fun id => option_rel_imp (fun hfg _ => visit_reorders hu h hfg) (h.function? id))
    fuel hw

end Walk

end Bundle

end Reorders

/-! ## Bundles -/

/-- Whatever the order of the calls in the lists of its functions, a compilation has the same bundle
of every function, and none of the same functions. -/
theorem Compilation.bundle_reorders {u u' : Compilation} (hu : Bundle.DistinctUids u)
    (h : u.Reorders u') (entry : FunctionId) (filters : CallFilters) :
    u'.bundle entry filters = u.bundle entry filters := by
  have hsize : u'.functions.size = u.functions.size := by
    obtain ⟨functions, hall, rfl⟩ := h
    exact hall.length_eq.symm
  have huid := h.map_eq Function.uid (fun _ _ => rfl) entry
  unfold Compilation.bundle
  cases hf : u.function? entry with
  | none =>
      rw [hf] at huid
      rw [Option.map_eq_none_iff.1 huid]
  | some root =>
      rw [hf] at huid
      obtain ⟨root', hroot', heq⟩ := Option.map_eq_some_iff.1 huid
      rw [hroot']
      dsimp only
      rw [hsize, heq, Bundle.Walk.run_reorders hu h]
      exact List.Pairwise.nil

namespace Bundle

/-- A function with the given internal calls, one that calls it and a third one, and the third. -/
def forked (internal : List Callee) : Compilation :=
  let fork : Function := { Function.new "fork" .free with
    isImplemented := true
    calls := { CallSites.none with internal } }
  let left : Function := { Function.new "left" .free with
    id := ⟨1⟩
    isImplemented := true
    calls := { CallSites.none with internal := [.internal ⟨0⟩, .internal ⟨2⟩] } }
  let right : Function := { Function.new "right" .free with id := ⟨2⟩, isImplemented := true }
  { Compilation.new "forked.sol" .solidity with functions := #[fork, left, right] }

theorem forked_reorders :
    (forked [.internal ⟨1⟩, .builtin "gasleft()", .internal ⟨2⟩]).Reorders
      (forked [.internal ⟨2⟩, .internal ⟨1⟩, .builtin "gasleft()"]) := by
  have same (f : Function) : f.Reorders f := ⟨f.calls, ⟨.rfl, .rfl, .rfl, .rfl, .rfl⟩, rfl⟩
  have hfork : CallSites.Reorders
      { CallSites.none with internal := [.internal ⟨1⟩, .builtin "gasleft()", .internal ⟨2⟩] }
      { CallSites.none with internal := [.internal ⟨2⟩, .internal ⟨1⟩, .builtin "gasleft()"] } :=
    ⟨.rfl, .rfl, by decide, .rfl, .rfl⟩
  exact ⟨(forked _).functions, .cons ⟨_, hfork, rfl⟩ (.cons (same _) (.cons (same _) .nil)), rfl⟩

end Bundle

/-- The fork has the same bundle with its calls in another order. -/
theorem forked_bundle_reorders :
    Bundle.DistinctUids (Bundle.forked [.internal ⟨1⟩, .builtin "gasleft()", .internal ⟨2⟩]) ∧
    (Bundle.forked [.internal ⟨1⟩, .builtin "gasleft()", .internal ⟨2⟩]).Reorders
      (Bundle.forked [.internal ⟨2⟩, .internal ⟨1⟩, .builtin "gasleft()"]) ∧
    (Bundle.forked [.internal ⟨2⟩, .internal ⟨1⟩, .builtin "gasleft()"]).bundle ⟨0⟩
        ⟨true, true, true, true, true⟩ =
      (Bundle.forked [.internal ⟨1⟩, .builtin "gasleft()", .internal ⟨2⟩]).bundle ⟨0⟩
        ⟨true, true, true, true, true⟩ ∧
    (Bundle.forked [.internal ⟨1⟩, .builtin "gasleft()", .internal ⟨2⟩]).bundle ⟨0⟩
        ⟨true, true, true, true, true⟩ =
      .ok ⟨⟨0⟩, [(.internal, ⟨1⟩), (.internal, ⟨2⟩)], [⟨.solidity, .solidity, "gasleft()"⟩]⟩ :=
  ⟨by decide, Bundle.forked_reorders,
    Compilation.bundle_reorders (by decide) Bundle.forked_reorders ⟨0⟩
      ⟨true, true, true, true, true⟩, by cbv⟩

end ContractCalls
