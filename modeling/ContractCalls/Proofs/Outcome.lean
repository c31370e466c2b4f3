/-
# Outcomes of steps that may fail

The conversion to single-assignment form and the construction of bodies are
both programs over `ExceptT ε (StateM σ)`: a step ends in a value or in an
error, and in a state either way.  `Leads x s ok err` says of the one run of
`x` from `s` that a value it ends in satisfies `ok`, together with the state
after it, and that an error satisfies `err`.  With `err` nowhere true the run
succeeds; with `err` everywhere true nothing is asked of a failing run.

Each way of composing steps has its rule here; proofs about programs cite the
rules and never look into the monad.
-/
import Mathlib.Data.List.Basic

namespace ContractCalls

/-- A step that may fail, in which case the state it failed in stays. -/
abbrev Step (ε σ α : Type) := ExceptT ε (StateM σ) α

/-- The run of `x` from `s` ends in a value and a state with `ok`, or in an error with `err`. -/
def Leads {ε σ α : Type} (x : Step ε σ α) (s : σ) (ok : α → σ → Prop) (err : ε → Prop) : Prop :=
  match x.run s with
  | (.ok a, t) => ok a t
  | (.error e, _) => err e

section Rules

variable {ε σ α β : Type} {s : σ} {err : ε → Prop}

theorem leads_pure {a : α} {ok : α → σ → Prop} (h : ok a s) :
    Leads (pure a : Step ε σ α) s ok err := h

theorem leads_throw {e : ε} {ok : α → σ → Prop} (h : err e) :
    Leads (throw e : Step ε σ α) s ok err := h

theorem leads_bind {x : Step ε σ α} {f : α → Step ε σ β} {ok : β → σ → Prop}
    (h : Leads x s (fun a t => Leads (f a) t ok err) err) : Leads (x >>= f) s ok err := by
  simp only [Leads, bind, ExceptT.run, ExceptT.bind, ExceptT.mk, StateT.bind, ExceptT.bindCont]
    at h ⊢
  cases hx : x s with
  | mk r t =>
      rw [hx] at h
      cases r with
      | ok a => exact h
      | error e => exact h

/-- What a run leads to may be weakened. -/
theorem Leads.imp {x : Step ε σ α} {ok ok' : α → σ → Prop} {err' : ε → Prop}
    (h : Leads x s ok err) (hok : ∀ a t, ok a t → ok' a t) (herr : ∀ e, err e → err' e) :
    Leads x s ok' err' := by
  unfold Leads at h ⊢
  split at h
  · exact hok _ _ h
  · exact herr _ h

/-- The same with the errors left as they are. -/
theorem Leads.mono {x : Step ε σ α} {ok ok' : α → σ → Prop} (h : Leads x s ok err)
    (hok : ∀ a t, ok a t → ok' a t) : Leads x s ok' err :=
  h.imp hok fun _ he => he

/-- What a run leads to is what it ends in. -/
theorem Leads.run {x : Step ε σ α} {ok : α → σ → Prop} (h : Leads x s ok err) :
    Leads x s (fun a t => ok a t ∧ x.run s = (.ok a, t)) err := by
  unfold Leads at h ⊢
  split at h
  · next a t hrun => exact ⟨h, hrun⟩
  · exact h

/-- What a run leads to holds where it ends. -/
theorem Leads.of_run {x : Step ε σ α} {ok : α → σ → Prop} {a : α} {t : σ} (h : Leads x s ok err)
    (hrun : x.run s = (.ok a, t)) : ok a t := by
  unfold Leads at h
  rw [hrun] at h
  exact h

/-- A step, and what is done with its value. -/
theorem Leads.bind {x : Step ε σ α} {f : α → Step ε σ β} {ok : α → σ → Prop} {ok' : β → σ → Prop}
    (h : Leads x s ok err) (hf : ∀ a t, ok a t → Leads (f a) t ok' err) :
    Leads (x >>= f) s ok' err :=
  leads_bind (h.mono hf)

theorem Leads.map {x : Step ε σ α} {f : α → β} {ok : α → σ → Prop} {ok' : β → σ → Prop}
    (h : Leads x s ok err) (hf : ∀ a t, ok a t → ok' (f a) t) : Leads (f <$> x) s ok' err :=
  h.bind fun a t ha => leads_pure (hf a t ha)

theorem leads_get {ok : σ → σ → Prop} (h : ok s s) : Leads (get : Step ε σ σ) s ok err := h

theorem leads_set {t : σ} {ok : PUnit → σ → Prop} (h : ok ⟨⟩ t) :
    Leads (set t : Step ε σ PUnit) s ok err := h

theorem leads_modify {f : σ → σ} {ok : PUnit → σ → Prop} (h : ok ⟨⟩ (f s)) :
    Leads (modify f : Step ε σ PUnit) s ok err := h

theorem leads_modifyGet {f : σ → α × σ} {ok : α → σ → Prop} (h : ok (f s).1 (f s).2) :
    Leads (modifyGet f : Step ε σ α) s ok err := h

/-- Steps over a list keep what every one of them keeps. -/
theorem leads_forM {γ : Type} {f : γ → Step ε σ PUnit} (inv : List γ → σ → Prop) {xs : List γ}
    (hs : inv xs s)
    (hf : ∀ x rest t, (∃ before, before ++ x :: rest = xs) → inv (x :: rest) t →
      Leads (f x) t (fun _ => inv rest) err) :
    Leads (xs.forM f) s (fun _ => inv []) err := by
  induction xs generalizing s with
  | nil => exact leads_pure hs
  | cons x rest ih =>
      show Leads (f x >>= fun _ => rest.forM f) s _ err
      refine (hf x rest s ⟨[], rfl⟩ hs).bind fun _ t ht => ih ht ?_
      rintro y rest' t' ⟨before, rfl⟩ ht'
      exact hf y rest' t' ⟨x :: before, rfl⟩ ht'

/-- Steps over a list that pass a value on keep what every one of them keeps. -/
theorem leads_foldlM {γ : Type} {f : β → γ → Step ε σ β} (inv : β → σ → Prop) {xs : List γ} {b : β}
    (hs : inv b s) (hf : ∀ a x t, inv a t → Leads (f a x) t inv err) :
    Leads (xs.foldlM f b) s inv err := by
  induction xs generalizing b s with
  | nil => exact leads_pure hs
  | cons x rest ih =>
      rw [List.foldlM_cons]
      exact (hf b x s hs).bind fun _ _ ht => ih ht

/-- A step on a part of the state. -/
theorem leads_zoom {τ : Type} {x : Step ε τ α} (view : σ → τ) (put : σ → τ → σ)
    {ok : α → σ → Prop} (h : Leads x (view s) (fun a t => ok a (put s t)) err) :
    Leads (fun s => let (result, t) := x (view s); (result, put s t) : Step ε σ α) s ok err := by
  simp only [Leads, ExceptT.run] at h ⊢
  cases hx : x (view s) with
  | mk r t =>
      rw [hx] at h
      cases r with
      | ok a => exact h
      | error e => exact h

end Rules

/-- A check that succeeds after another one: both succeed. -/
theorem bind_eq_ok {ε α β : Type} {x : Except ε α} {f : α → Except ε β} {b : β}
    (h : x >>= f = .ok b) : ∃ a, x = .ok a ∧ f a = .ok b := by
  cases x with
  | error e => cases h
  | ok a => exact ⟨a, rfl, h⟩

end ContractCalls
