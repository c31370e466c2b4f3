/-
# What an attempt leaves behind

A caller may try a failed step again, and then goes on from the state the
failure left.  `Ends x s ok err` says of the one run of `x` from `s` what
`Leads` says of it, and keeps the state of a failing run as well.

The rules follow those of `Leads`, one for each way of composing steps.
-/
import ContractCalls.Proofs.Outcome

namespace ContractCalls

/-- The run of `x` from `s` ends in a value with `ok` or in an error with `err`, together with the
state after it. -/
def Ends {ε σ α : Type} (x : Step ε σ α) (s : σ) (ok : α → σ → Prop) (err : ε → σ → Prop) : Prop :=
  match x.run s with
  | (.ok a, t) => ok a t
  | (.error e, t) => err e t

/-- The run of `x` from `s` ends in a state with `inv`, however it ends. -/
abbrev Leaves {ε σ α : Type} (x : Step ε σ α) (s : σ) (inv : σ → Prop) : Prop :=
  Ends x s (fun _ => inv) fun _ => inv

section Rules

variable {ε σ α β : Type} {s : σ} {err : ε → σ → Prop}

theorem ends_pure {a : α} {ok : α → σ → Prop} (h : ok a s) :
    Ends (pure a : Step ε σ α) s ok err := h

theorem ends_throw {e : ε} {ok : α → σ → Prop} (h : err e s) :
    Ends (throw e : Step ε σ α) s ok err := h

theorem ends_bind {x : Step ε σ α} {f : α → Step ε σ β} {ok : β → σ → Prop}
    (h : Ends x s (fun a t => Ends (f a) t ok err) err) : Ends (x >>= f) s ok err := by
  simp only [Ends, bind, ExceptT.run, ExceptT.bind, ExceptT.mk, StateT.bind, ExceptT.bindCont]
    at h ⊢
  cases hx : x s with
  | mk r t =>
      rw [hx] at h
      cases r with
      | ok a => exact h
      | error e => exact h

/-- What a run ends in may be weakened. -/
theorem Ends.imp {x : Step ε σ α} {ok ok' : α → σ → Prop} {err' : ε → σ → Prop}
    (h : Ends x s ok err) (hok : ∀ a t, ok a t → ok' a t) (herr : ∀ e t, err e t → err' e t) :
    Ends x s ok' err' := by
  unfold Ends at h ⊢
  split at h
  · exact hok _ _ h
  · exact herr _ _ h

/-- A step, and what is done with its value. -/
theorem Ends.bind {x : Step ε σ α} {f : α → Step ε σ β} {ok : α → σ → Prop} {ok' : β → σ → Prop}
    (h : Ends x s ok err) (hf : ∀ a t, ok a t → Ends (f a) t ok' err) : Ends (x >>= f) s ok' err :=
  ends_bind (h.imp hf fun _ _ he => he)

/-- An outcome that does not depend on the state. -/
theorem ends_mk {r : Except ε α} {ok : α → σ → Prop} (hok : ∀ a, r = .ok a → ok a s)
    (herr : ∀ e, r = .error e → err e s) : Ends (ExceptT.mk (pure r) : Step ε σ α) s ok err := by
  cases r with
  | ok a => exact hok a rfl
  | error e => exact herr e rfl

/-- A step that cannot fail. -/
theorem ends_lift {x : StateM σ α} {ok : α → σ → Prop} (h : ok (x s).1 (x s).2) :
    Ends (ExceptT.lift x : Step ε σ α) s ok err := h

theorem ends_get {ok : σ → σ → Prop} (h : ok s s) : Ends (get : Step ε σ σ) s ok err := h

theorem ends_set {t : σ} {ok : PUnit → σ → Prop} (h : ok ⟨⟩ t) :
    Ends (set t : Step ε σ PUnit) s ok err := h

theorem ends_modify {f : σ → σ} {ok : PUnit → σ → Prop} (h : ok ⟨⟩ (f s)) :
    Ends (modify f : Step ε σ PUnit) s ok err := h

/-- A step on a part of the state. -/
theorem ends_zoom {τ : Type} {x : Step ε τ α} (view : σ → τ) (put : σ → τ → σ)
    {ok : α → σ → Prop}
    (h : Ends x (view s) (fun a t => ok a (put s t)) fun e t => err e (put s t)) :
    Ends (fun s => let (result, t) := x (view s); (result, put s t) : Step ε σ α) s ok err := by
  simp only [Ends, ExceptT.run] at h ⊢
  cases hx : x (view s) with
  | mk r t =>
      rw [hx] at h
      cases r with
      | ok a => exact h
      | error e => exact h

/-- Steps over a list; where one of them fails, the steps behind it are not made. -/
theorem ends_forM {γ : Type} {f : γ → Step ε σ PUnit} (inv : List γ → σ → Prop) {xs : List γ}
    (hs : inv xs s)
    (hf : ∀ x rest t, (∃ before, before ++ x :: rest = xs) → inv (x :: rest) t →
      Ends (f x) t (fun _ => inv rest) err) :
    Ends (xs.forM f) s (fun _ => inv []) err := by
  induction xs generalizing s with
  | nil => exact ends_pure hs
  | cons x rest ih =>
      show Ends (f x >>= fun _ => rest.forM f) s _ err
      refine (hf x rest s ⟨[], rfl⟩ hs).bind fun _ t ht => ih ht ?_
      rintro y rest' t' ⟨before, rfl⟩ ht'
      exact hf y rest' t' ⟨x :: before, rfl⟩ ht'

/-- Steps over a list that pass a value on. -/
theorem ends_foldlM {γ : Type} {f : β → γ → Step ε σ β} (inv : β → σ → Prop) {xs : List γ} {b : β}
    (hs : inv b s) (hf : ∀ a x t, inv a t → Ends (f a x) t inv err) :
    Ends (xs.foldlM f b) s inv err := by
  induction xs generalizing b s with
  | nil => exact ends_pure hs
  | cons x rest ih =>
      rw [List.foldlM_cons]
      exact (hf b x s hs).bind fun _ _ ht => ih ht

/-- The outcome of a step, taken as a value. -/
theorem Ends.outcome {x : Step ε σ α} {ok : α → σ → Prop} (h : Ends x s ok err)
    {err' : ε → σ → Prop} :
    Ends (ExceptT.lift x.run : Step ε σ (Except ε α)) s
      (fun r t => match r with
        | .ok a => ok a t
        | .error e => err e t) err' := by
  refine ends_lift ?_
  unfold Ends at h
  split at h
  · next hrun =>
      rw [show x.run s = _ from hrun]
      exact h
  · next hrun =>
      rw [show x.run s = _ from hrun]
      exact h

/-- Where the state of a failing run does not count. -/
theorem Ends.leads {x : Step ε σ α} {ok : α → σ → Prop} (h : Ends x s ok err) :
    Leads x s ok fun _ => True := by
  unfold Ends at h
  unfold Leads
  split
  · next hrun => rw [hrun] at h; exact h
  · trivial

/-- What a run leaves holds of the state after it. -/
theorem Ends.state {x : Step ε σ α} {inv : σ → Prop} (h : Leaves x s inv) : inv (x.run s).2 := by
  unfold Leaves Ends at h
  split at h
  · next hrun => rw [hrun]; exact h
  · next hrun => rw [hrun]; exact h

/-- A run that cannot fail has a value. -/
theorem Ends.exists_run {x : Step ε σ α} {ok : α → σ → Prop} (h : Ends x s ok fun _ _ => False) :
    ∃ a t, x.run s = (.ok a, t) ∧ ok a t := by
  unfold Ends at h
  split at h
  · next a t hrun => exact ⟨a, t, hrun, h⟩
  · exact h.elim

end Rules

-- From here on only the rules open the monad; unfolding a statement would run the program in it.
attribute [irreducible] Ends

end ContractCalls
