/-
# Changes of a compilation

Registering and resolving change a compilation one element at a time.  A change
of one element is not seen by a view that the change leaves alone, and what
every step of a fold keeps holds after it.
-/
import ContractCalls.Compilation
import Mathlib

namespace ContractCalls

section Folds

variable {σ γ : Type} {P Q : σ → Prop} {f : σ → γ → σ} {xs : List γ} {s : σ}

/-- What every step keeps holds after all of them. -/
theorem foldl_keeps (hs : P s) (keep : ∀ s, ∀ x ∈ xs, P s → P (f s x)) : P (xs.foldl f s) :=
  List.foldlRecOn xs f hs fun t ht x hx => keep t x hx ht

/-- What one of the steps brings about, and no later one undoes, holds after all of them. -/
theorem foldl_reaches {x : γ} (hx : x ∈ xs) (hs : P s) (keep : ∀ s x, P s → P (f s x))
    (hit : ∀ s, P s → Q (f s x)) (stay : ∀ s x, Q s → Q (f s x)) : Q (xs.foldl f s) := by
  induction xs generalizing s with
  | nil => cases hx
  | cons y rest ih =>
      rw [List.foldl_cons]
      rcases List.mem_cons.1 hx with rfl | hrest
      · exact foldl_keeps (hit s hs) fun t z _ ht => stay t z ht
      · exact ih hrest (keep s y hs)

end Folds

/-- A change of one element is not seen by what it leaves alone. -/
theorem map_modify_eq {α β : Type} {g : α → β} {f : α → α} (hg : ∀ a, g (f a) = g a) (xs : Array α)
    (i : Nat) : (xs.modify i f).map g = xs.map g := by
  apply Array.ext_getElem?
  intro j
  simp only [Array.getElem?_map, Array.getElem?_modify]
  split
  · cases xs[j]? with
    | none => rfl
    | some a => exact congrArg some (hg a)
  · rfl

theorem Compilation.map_modifyContract {β : Type} {g : Contract → β} {f : Contract → Contract}
    (hg : ∀ c, g (f c) = g c) (u : Compilation) (id : ContractId) :
    (u.modifyContract id f).contracts.map g = u.contracts.map g :=
  map_modify_eq hg u.contracts id.index

theorem Compilation.map_modifyFunction {β : Type} {g : Function → β} {f : Function → Function}
    (hg : ∀ c, g (f c) = g c) (u : Compilation) (id : FunctionId) :
    (u.modifyFunction id f).functions.map g = u.functions.map g :=
  map_modify_eq hg u.functions id.index

theorem Compilation.map_addDeclaration {β : Type} {g : Contract → β}
    (hg : ∀ c declarations, g { c with declarations } = g c) (u : Compilation) (scope : ScopeId)
    (owner : Option String) (name : String) (kind : DeclKind) (raw : List Json) :
    (u.addDeclaration scope owner name kind raw).2.contracts.map g = u.contracts.map g := by
  simp only [Compilation.addDeclaration]
  split
  · exact Compilation.map_modifyContract (fun c => hg c _) _ _
  · rfl

namespace Compilation

variable {u u' : Compilation}

/-- A contract is found among the contracts alone. -/
theorem contract?_congr (h : u'.contracts = u.contracts) : u'.contract? = u.contract? := by
  funext id
  unfold contract?
  rw [h]

variable {f g : Function}

/-- A function that is there stays when another one is added. -/
theorem function?_push (added : u'.functions = u.functions.push f) {id : FunctionId}
    (hg : u.function? id = some g) : u'.function? id = some g := by
  obtain ⟨hlt, rfl⟩ := Array.getElem?_eq_some_iff.1 (show u.functions[id.index]? = some g from hg)
  show u'.functions[id.index]? = _
  rw [added, Array.getElem?_push_lt hlt]

theorem function?_next (added : u'.functions = u.functions.push f) :
    u'.function? u.nextFunctionId = some f := by
  simp [function?, nextFunctionId, added]

/-! ## Ids of functions -/

/-- Every function carries the id it is found under. -/
def IdsHold (u : Compilation) : Prop := ∀ id f, u.function? id = some f → f.id = id

theorem idsHold_new (target : String) (language : Language) : (new target language).IdsHold := by
  intro id f hf
  simp [function?, new] at hf

theorem IdsHold.addFunction (h : u.IdsHold) (f : Function) : (u.addFunction f).2.IdsHold := by
  intro id g hg
  rw [function?, Compilation.addFunction, Array.getElem?_push] at hg
  split at hg
  · next hid =>
      obtain rfl := Option.some.inj hg
      exact congrArg FunctionId.mk hid.symm
  · exact h id g hg

/-- The functions have the same ids in the same places. -/
theorem IdsHold.of_map (h : u.IdsHold)
    (hids : u'.functions.map Function.id = u.functions.map Function.id) : u'.IdsHold := by
  intro id f hf
  have hid := congrArg (·[id.index]?) hids
  simp only [Array.getElem?_map] at hid
  rw [show u'.functions[id.index]? = some f from hf, Option.map_some] at hid
  obtain ⟨g, hg, heq⟩ := Option.map_eq_some_iff.mp hid.symm
  exact heq.symm.trans (h id g hg)

end Compilation

end ContractCalls
