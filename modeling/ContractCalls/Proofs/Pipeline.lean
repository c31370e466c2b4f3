/-
# What the passes leave alone

A pass reads bodies and changes bodies and call sites.  The contracts, the
source texts and what is known of a function from its definition stay, also
where a pass fails half-way.  Where no function has a body, no pass fails, and
call sites stay too.
-/
import ContractCalls.Pipeline
import ContractCalls.Proofs.Attempt
import ContractCalls.Proofs.Compilation

namespace ContractCalls

/-- What is known of a function without its body. -/
def Function.outline (f : Function) : Function := { f with calls := .none, body := none }

@[simp] theorem Function.outline_collectCalls (f : Function) :
    f.collectCalls.outline = f.outline := by
  unfold Function.collectCalls
  split <;> rfl

namespace Compilation

/-- The two compilations differ in bodies, call sites and records at most. -/
structure SameOutline (u u' : Compilation) : Prop where
  outlines : u'.functions.map Function.outline = u.functions.map Function.outline
  contracts : u'.contracts = u.contracts
  sources : u'.sources = u.sources
  isParsed : u'.isParsed = u.isParsed
  isAnalyzed : u'.isAnalyzed = u.isAnalyzed

namespace SameOutline

variable {u u' u'' : Compilation}

theorem refl (u : Compilation) : u.SameOutline u := ⟨rfl, rfl, rfl, rfl, rfl⟩

theorem trans (h : u.SameOutline u') (h' : u'.SameOutline u'') : u.SameOutline u'' :=
  ⟨h'.outlines.trans h.outlines, h'.contracts.trans h.contracts, h'.sources.trans h.sources,
    h'.isParsed.trans h.isParsed, h'.isAnalyzed.trans h.isAnalyzed⟩

/-- A view of the outlines does not tell the two apart. -/
theorem map_eq {β : Type} (h : u.SameOutline u') {g : Function → β}
    (hg : ∀ f, g f.outline = g f) : u'.functions.map g = u.functions.map g := by
  have hmap (v : Compilation) : v.functions.map g = (v.functions.map Function.outline).map g := by
    rw [Array.map_map]
    exact Array.map_congr_left fun f _ => (hg f).symm
  rw [hmap, h.outlines, ← hmap]

end SameOutline

theorem sameOutline_modifyFunction (u : Compilation) (id : FunctionId) {f : Function → Function}
    (hf : ∀ g, (f g).outline = g.outline) : u.SameOutline (u.modifyFunction id f) :=
  ⟨map_modifyFunction hf u id, rfl, rfl, rfl, rfl⟩

theorem sameOutline_recordErrors (u : Compilation) (failures : List ErrorRecord) :
    u.SameOutline (failures.foldl recordError u) :=
  foldl_keeps (.refl u) fun _ _ _ h => h.trans ⟨rfl, rfl, rfl, rfl, rfl⟩

theorem sameOutline_collectCalls (u : Compilation) : u.SameOutline u.collectCalls :=
  ⟨by simp [collectCalls, Function.comp_def], rfl, rfl, rfl, rfl⟩

theorem outline_convertBody (policy : FailurePolicy) (f : Function) :
    (convertBody policy f).1.outline = f.outline := by
  unfold convertBody
  split
  · rfl
  · split
    · rfl
    · split <;> rfl

/-- Putting the converted function in its place. -/
theorem sameOutline_converted {u : Compilation} {position : Nat} {f g : Function}
    (hf : u.functions[position]? = some f) (hg : g.outline = f.outline) :
    u.SameOutline (u.modifyFunction ⟨position⟩ fun _ => g) := by
  refine ⟨Array.ext_getElem? fun j => ?_, rfl, rfl, rfl, rfl⟩
  simp only [modifyFunction, Array.getElem?_map, Array.getElem?_modify]
  split
  · next heq =>
      subst heq
      rw [hf]
      exact congrArg some hg
  · rfl

theorem leaves_convertFrom {u : Compilation} (policy : FailurePolicy) (count position : Nat)
    (failures : List ErrorRecord) {v : Compilation} (hv : u.SameOutline v) :
    Leaves (convertFrom policy count position failures) v u.SameOutline := by
  induction count generalizing position failures v with
  | zero => exact ends_modify (hv.trans (sameOutline_recordErrors v failures))
  | succ count ih =>
      unfold convertFrom
      refine ends_bind (ends_get ?_)
      split
      · exact ih _ _ hv
      · next f hf =>
          have hput := hv.trans (sameOutline_converted hf (outline_convertBody policy f))
          refine ends_bind (ends_modify ?_)
          split
          · exact ih _ _ hput
          · exact ih _ _ hput
          · exact ends_throw hput

theorem leaves_computeDependencies {u v : Compilation} (hv : u.SameOutline v) :
    Leaves computeDependencies v u.SameOutline := by
  refine ends_bind (ends_get ?_)
  split
  · exact ends_set (hv.trans ⟨rfl, rfl, rfl, rfl, rfl⟩)
  · exact ends_throw hv

theorem leaves_runPass (policy : FailurePolicy) (pass : Pass) {u v : Compilation}
    (hv : u.SameOutline v) : Leaves (runPass policy pass) v u.SameOutline := by
  unfold runPass
  refine ends_bind (ends_get ?_)
  cases hparsed : v.isParsed with
  | false => cases pass <;> exact ends_bind (ends_throw hv)
  | true =>
      cases pass with
      | callSites => exact ends_modify (hv.trans (sameOutline_collectCalls v))
      | ssa => exact ends_bind (ends_get (leaves_convertFrom policy _ _ _ hv))
      | dataDependency => exact leaves_computeDependencies hv

/-- The passes leave the outline of a compilation alone. -/
theorem leaves_runPasses (policy : FailurePolicy) (passes : List Pass) (u : Compilation) :
    Leaves (runPasses policy passes) u u.SameOutline :=
  ends_forM (fun _ => u.SameOutline) (.refl u) fun pass _ _ _ ht => leaves_runPass policy pass ht

/-! ## Functions without bodies -/

/-- Steps that change nothing. -/
theorem foldlM_eq_ok {α β ε : Type} {step : β → α → Except ε β} {xs : List α} {b : β}
    (h : ∀ b, ∀ x ∈ xs, step b x = .ok b) : xs.foldlM step b = .ok b := by
  induction xs with
  | nil => rfl
  | cons x xs ih =>
      rw [List.foldlM_cons, h b x List.mem_cons_self]
      exact ih fun b y hy => h b y (List.mem_cons_of_mem x hy)

/-- No function has a body. -/
def IsBodiless (u : Compilation) : Prop := ∀ f ∈ u.functions.toList, f.body = none

namespace IsBodiless

variable {u : Compilation}

theorem collectCalls_eq (h : u.IsBodiless) : u.collectCalls = u := by
  have hmap : u.functions.map Function.collectCalls = u.functions := by
    conv_rhs => rw [← Array.map_id u.functions]
    refine Array.map_congr_left fun f hf => ?_
    rw [Function.collectCalls, h f (Array.mem_toList_iff.2 hf)]
    rfl
  rw [collectCalls, hmap]

theorem ends_convertFrom (h : u.IsBodiless) (policy : FailurePolicy) (count position : Nat) :
    Ends (convertFrom policy count position []) u (fun _ v => v = u) fun _ _ => False := by
  induction count generalizing position with
  | zero => exact ends_modify rfl
  | succ count ih =>
      unfold convertFrom
      refine ends_bind (ends_get ?_)
      split
      · exact ih _
      · next f hf =>
          have hconvert : convertBody policy f = (f, .ok none) := by
            rw [convertBody, h f (Array.mem_toList_iff.2 (Array.mem_of_getElem? hf))]
          have hmodify : u.functions.modify position (fun _ => f) = u.functions := by
            refine Array.ext_getElem? fun j => ?_
            rw [Array.getElem?_modify]
            split
            · next heq => rw [← heq, hf, Option.map_some]
            · rfl
          have hsame : (u.modifyFunction ⟨position⟩ fun _ => f) = u := by
            rw [modifyFunction, hmodify]
          rw [hconvert]
          refine ends_bind (ends_modify ?_)
          rw [hsame]
          exact ih _

theorem dependencies_eq (h : u.IsBodiless) : ∃ d, u.dependencies = .ok d := by
  have hfunctions : u.functionDependencies = .ok .empty := by
    rw [functionDependencies]
    exact foldlM_eq_ok fun table f hf => by rw [h f hf]
  rw [dependencies, hfunctions]
  exact ⟨_, rfl⟩

/-- A pass sets the dependencies at most. -/
theorem ends_runPass (h : u.IsBodiless) (hparsed : u.isParsed = true) (policy : FailurePolicy)
    (pass : Pass) :
    Ends (runPass policy pass) u (fun _ v => ∃ d, v = { u with dataDependency := d })
      fun _ _ => False := by
  have hcheck : (!u.isParsed) = false := by rw [hparsed]; rfl
  unfold runPass
  refine ends_bind (ends_get ?_)
  rw [hcheck]
  cases pass with
  | callSites => exact ends_modify ⟨u.dataDependency, h.collectCalls_eq⟩
  | ssa =>
      refine ends_bind (ends_get ?_)
      exact (h.ends_convertFrom policy _ 0).imp (fun _ _ heq => ⟨u.dataDependency, heq⟩)
        fun _ _ => id
  | dataDependency =>
      obtain ⟨d, hd⟩ := h.dependencies_eq
      refine ends_bind (ends_get ?_)
      rw [hd]
      exact ends_set ⟨d, rfl⟩

/-- The passes set the dependencies at most. -/
theorem ends_runPasses (h : u.IsBodiless) (hparsed : u.isParsed = true) (policy : FailurePolicy)
    (passes : List Pass) :
    Ends (runPasses policy passes) u (fun _ v => ∃ d, v = { u with dataDependency := d })
      fun _ _ => False := by
  refine ends_forM (fun _ v => ∃ d, v = { u with dataDependency := d }) ⟨u.dataDependency, rfl⟩ ?_
  rintro pass rest _ - ⟨d, rfl⟩
  have hpass := ends_runPass (u := { u with dataDependency := d }) h hparsed policy pass
  exact hpass.imp (fun _ _ hset => hset) fun _ _ => id

end IsBodiless

end Compilation

end ContractCalls
