/-
# Compilations that differ in their calls

Two compilations are alike if they have the same functions but for what these
call.  What a target tells of a function is never what the function calls, so
a target is read in the same way in both (`CallTarget.function_alike`), and it
is the same entry of a record and the same step or leaf of a walk.  Where a
visit of each function does the same in both, the two walks go through the same
states (`Bundle.Walk.run_alike`).
-/
import ContractCalls.CallGraph.Edge
import ContractCalls.Proofs.CallGraph.Bundle

namespace ContractCalls

/-- The second function is the first one with other calls. -/
def Function.Alike (f g : Function) : Prop := ∃ calls, g = { f with calls }

/-- The second compilation has the functions of the first one with other calls. -/
def Compilation.Alike (u u' : Compilation) : Prop :=
  ∀ id, Option.Rel Function.Alike (u.function? id) (u'.function? id)

/-- A relation between what may be there holds wherever a stronger one does. -/
theorem option_rel_imp {α β : Type} {R S : α → β → Prop} (himp : ∀ {a b}, R a b → S a b)
    {x : Option α} {y : Option β} (h : Option.Rel R x y) : Option.Rel S x y := by
  cases h with
  | some hab => exact .some (himp hab)
  | none => exact .none

variable {u u' : Compilation}

/-- Whatever does not read the calls is the same. -/
theorem Function.Alike.view_eq {β : Type} {f g : Function} (h : f.Alike g) (view : Function → β)
    (hview : ∀ f calls, view { f with calls } = view f) : view g = view f := by
  obtain ⟨calls, rfl⟩ := h
  exact hview f calls

/-- What a function looked up by its id shows besides its calls. -/
theorem Compilation.Alike.map_eq {β : Type} (h : u.Alike u') (view : Function → β)
    (hview : ∀ f calls, view { f with calls } = view f) (id : FunctionId) :
    (u'.function? id).map view = (u.function? id).map view := by
  have hid := h id
  revert hid
  generalize u.function? id = f
  generalize u'.function? id = g
  rintro (hfg | -)
  · exact congrArg some (hfg.view_eq view hview)
  · rfl

/-! ## Targets -/

namespace CallTarget

theorem function_alike (h : u.Alike u') : function u' = function u := by
  funext id edge
  have hname := h.map_eq Function.displayName (fun _ _ => rfl) id
  unfold function
  cases hf : u.function? id <;> cases hg : u'.function? id <;> simp_all

theorem ofInternal?_alike (h : u.Alike u') : ofInternal? u' = ofInternal? u := by
  funext callee
  simp only [ofInternal?, function_alike h]

theorem ofLibrary?_alike (h : u.Alike u') : ofLibrary? u' = ofLibrary? u := by
  funext callee
  simp only [ofLibrary?, function_alike h]

theorem ofHighLevel?_alike (h : u.Alike u') : ofHighLevel? u' = ofHighLevel? u := by
  funext callee
  simp only [ofHighLevel?, function_alike h]

end CallTarget

theorem CallEntry.ofTarget?_alike (h : u.Alike u') : ofTarget? u' = ofTarget? u := by
  funext target
  unfold ofTarget?
  dsimp only
  split
  · next id _ _ =>
      have hviews := h.map_eq (fun f => (f.isImplemented, f.displayName, f.uid,
        CallEntry.ofFunction target.edge f)) (fun _ _ => rfl) id
      cases hf : u.function? id <;> cases hg : u'.function? id <;> simp_all
  all_goals rfl

namespace Bundle

theorem classify_alike (h : u.Alike u') : classify u' = classify u := by
  funext target
  unfold classify
  split
  · next id _ _ =>
      have hviews := h.map_eq (fun f => (f.isImplemented, f.uid, f.displayName))
        (fun _ _ => rfl) id
      cases hf : u.function? id <;> cases hg : u'.function? id <;> simp_all
  all_goals rfl

/-! ## Walks -/

namespace Walk

variable {filters : CallFilters} {w : Walk}

theorem leaves_foldl_take (steps : List Step) (w : Walk) :
    (steps.foldl Walk.take w).leaves = w.leaves := by
  induction steps generalizing w with
  | nil => rfl
  | cons step steps ih =>
      rw [List.foldl_cons, ih]
      unfold Walk.take
      split <;> rfl

theorem ascending_visit (hw : Ordered.Ascending Leaf.order w.leaves) (f : Function) :
    Ordered.Ascending Leaf.order (w.visit u filters f).leaves := by
  rw [Walk.visit, leaves_foldl_take]
  exact hw.foldl_insert

/-- Looking at a function does the same in both compilations. -/
def VisitsAlike (u u' : Compilation) (filters : CallFilters) (f g : Function) : Prop :=
  ∀ {w : Walk}, Ordered.Ascending Leaf.order w.leaves → w.visit u' filters g = w.visit u filters f

/-- Two walks that do the same at every function go through the same states. -/
theorem run_alike
    (h : ∀ id, Option.Rel (VisitsAlike u u' filters) (u.function? id) (u'.function? id))
    (fuel : Nat) (hw : Ordered.Ascending Leaf.order w.leaves) :
    run u' filters fuel w = run u filters fuel w := by
  induction fuel generalizing w with
  | zero => rfl
  | succ fuel ih =>
      unfold run
      split
      · rfl
      · next id pending _ =>
          have hid := h id
          revert hid
          generalize u.function? id = f?
          generalize u'.function? id = g?
          rintro (hvisit | -)
          · dsimp only
            rw [hvisit (w := { w with pending }) hw]
            exact ih (ascending_visit (w := { w with pending }) hw _)
          · exact ih hw

end Walk

end Bundle

end ContractCalls
