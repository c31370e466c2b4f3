/-
# Operations of an arena in place

The operations of an arena give the arena they lead to, so one that fails
leaves nothing behind.  Done in place they change the arena they work on step
by step, and what was changed before a failure stays: a form or a version is
appended before the operand it renames remembers it.

Both ways agree.  In place an operation has the outcome it has otherwise, and
where it fails, the arena is as it was (`settles_perform`).
-/
import ContractCalls.Proofs.Operand.Faithful

namespace ContractCalls.Arena

/-! ## Working in place -/

/-- An operation that works on an arena in place: what it changed before it failed stays changed. -/
abbrev InPlace := Step ModelError Arena

namespace InPlace

/-- Reads something off the arena. -/
def look {α : Type} (f : Arena → Except ModelError α) : InPlace α := do
  match f (← MonadState.get) with
  | .ok x => return x
  | .error e => throw e

/-- Appends an operand. -/
def append (o : Operand) : InPlace OperandId := modifyGet (·.add o)

/-- Changes the slot of an operand, if there is one. -/
def change (id : OperandId) (f : Slot → Slot) : InPlace PUnit := do
  let _ ← look (·.slot id)
  modify (·.modifySlot id f)

/-- Binds a reference. -/
def bindReference (reference target : OperandId) : InPlace PUnit := do
  let _ ← look (·.get target)
  let operand ← look (·.get reference)
  match operand.kind with
  | .reference index none =>
      change reference fun slot =>
        { slot with operand := { slot.operand with kind := .reference index (some target) } }
  | .reference _ (some _) =>
      throw (.sequencing (operand.render ++ " is already bound to an operand"))
  | _ => look fun _ => notLvalue operand

/-- The form of an operand: it is appended, and then remembered. -/
def variantOf (id : OperandId) : InPlace OperandId := do
  let slot ← look (·.slot id)
  match slot.variant with
  | some existing => return existing
  | none =>
      if slot.operand.ssa.isSome then return id
      else
        match variantKind? slot.operand.kind with
        | none => look fun _ => notLvalue slot.operand
        | some kind => do
            let v ← append ⟨kind, slot.operand.ty, some (.variant id)⟩
            change id fun slot => { slot with variant := some v }
            return v

/-- Appends a version of a variable. -/
def addVersion (base : OperandId) (number : Nat) : InPlace OperandId := do
  let operand ← look (·.get base)
  if operand.kind.isVariable && operand.ssa.isNone then
    append ⟨operand.kind, operand.ty, some (.version base number)⟩
  else look fun _ => notLvalue operand

/-- The version of a variable on entry: it is appended, and then remembered. -/
def entryVersionOf (base : OperandId) : InPlace OperandId := do
  match (← look (·.slot base)).entryVersion with
  | some existing => return existing
  | none => do
      let v ← addVersion base 0
      change base fun slot => { slot with entryVersion := some v }
      return v

/-- A fresh version of a variable: it is appended, and then counted. -/
def freshVersionOf (base : OperandId) : InPlace OperandId := do
  let number := (← look (·.slot base)).versions + 1
  let v ← addVersion base number
  change base fun slot => { slot with versions := number }
  return v

/-- Renumbers an operand. -/
def reindex (id : OperandId) (number : Nat) : InPlace PUnit := do
  let operand ← look (·.get id)
  match renumber? number operand.kind with
  | some kind => change id fun slot => { slot with operand := { slot.operand with kind } }
  | none => look fun _ => notLvalue operand

/-- Run in place from the arena, the operation gives the outcome: a result and the arena after it,
or an error and the arena as it was. -/
def Settles {α : Type} (x : InPlace α) (a : Arena)
    (outcome : Except ModelError (α × Arena)) : Prop :=
  x.run a = match outcome with
    | .ok (result, b) => (.ok result, b)
    | .error e => (.error e, a)

section Running

variable {α β : Type} {a b : Arena}

theorem run_bind (x : InPlace α) (f : α → InPlace β) (a : Arena) :
    (x >>= f).run a = match x.run a with
      | (.ok result, b) => (f result).run b
      | (.error e, b) => (.error e, b) := by
  simp only [bind, ExceptT.run, ExceptT.bind, ExceptT.mk, StateT.bind, ExceptT.bindCont]
  cases x a with
  | mk result b => cases result <;> rfl

theorem run_look (f : Arena → Except ModelError α) (a : Arena) :
    (look f).run a = (f a, a) := by
  have hget : (MonadState.get : InPlace Arena).run a = (Except.ok a, a) := rfl
  rw [look, run_bind, hget]
  dsimp only
  cases f a <;> rfl

theorem settles_pure (x : α) : Settles (pure x) a (pure (x, a)) := rfl

theorem settles_throw (e : ModelError) : Settles (throw e : InPlace α) a (.error e) := rfl

/-- What is read is that of the arena, and reading it changes nothing. -/
theorem settles_look {f : Arena → Except ModelError α} {g : α → InPlace β}
    {rest : α → Except ModelError (β × Arena)}
    (h : ∀ x, f a = .ok x → Settles (g x) a (rest x)) :
    Settles (look f >>= g) a (f a >>= rest) := by
  unfold Settles
  rw [run_bind, run_look]
  cases hx : f a with
  | error e => rfl
  | ok x => exact h x hx

/-- A change of a slot that is there succeeds. -/
theorem settles_change {id : OperandId} (h : b.Known id) (f : Slot → Slot) (x : α) :
    (change id f >>= fun _ => pure x).run b = (.ok x, b.modifySlot id f) := by
  obtain ⟨o, ho⟩ := known_iff.mp h
  obtain ⟨s, -, hs, -⟩ := slot_of_get? ho
  rw [change, run_bind, run_bind, run_look, hs]
  rfl

end Running

theorem known_of_slot {a : Arena} {id : OperandId} {s : Slot} (h : a.slot id = .ok s) :
    a.Known id := known_of_get? (get?_of_slot h)

theorem known_add {a : Arena} {id : OperandId} (o : Operand) (h : a.Known id) :
    (a.add o).2.Known id := (includes_add a o).known h

theorem settles_variantOf (a : Arena) (id : OperandId) :
    Settles (variantOf id) a (a.variantOf id) := by
  refine settles_look fun slot hslot => ?_
  cases slot.variant with
  | some existing => exact settles_pure existing
  | none =>
      dsimp only
      by_cases hssa : slot.operand.ssa.isSome
      · rw [if_pos hssa, if_pos hssa]
        exact settles_pure id
      · rw [if_neg hssa, if_neg hssa]
        cases variantKind? slot.operand.kind with
        | none => exact settles_throw _
        | some kind => exact settles_change (known_add _ (known_of_slot hslot)) _ _

theorem settles_addVersion (a : Arena) (base : OperandId) (number : Nat) :
    Settles (addVersion base number) a (a.addVersion base number) := by
  refine settles_look fun operand _ => ?_
  split
  · rfl
  · exact settles_throw _

/-- What was there stays when a version is added. -/
theorem known_addVersion {a b : Arena} {base v id : OperandId} {number : Nat}
    (h : a.addVersion base number = .ok (v, b)) (hid : a.Known id) : b.Known id := by
  obtain ⟨o, ho⟩ := known_iff.mp hid
  obtain ⟨o', ho', -⟩ := (renews_addVersion h).alike ho
  exact known_of_get? ho'

/-- A version is added before its variable remembers it, which cannot fail. -/
theorem settles_remember {a : Arena} {base : OperandId} (hbase : a.Known base) (number : Nat)
    (f : OperandId → Slot → Slot) :
    Settles (addVersion base number >>= fun v => change base (f v) >>= fun _ => pure v) a
      (a.addVersion base number >>= fun (v, b) => pure (v, b.modifySlot base (f v))) := by
  unfold Settles
  rw [run_bind, settles_addVersion]
  cases hadd : a.addVersion base number with
  | error e => rfl
  | ok added => exact settles_change (known_addVersion hadd hbase) _ _

theorem settles_entryVersionOf (a : Arena) (base : OperandId) :
    Settles (entryVersionOf base) a (a.entryVersionOf base) := by
  refine settles_look fun slot hslot => ?_
  cases slot.entryVersion with
  | some existing => exact settles_pure existing
  | none => exact settles_remember (known_of_slot hslot) 0 _

theorem settles_freshVersionOf (a : Arena) (base : OperandId) :
    Settles (freshVersionOf base) a (a.freshVersionOf base) :=
  settles_look fun _ hslot => settles_remember (known_of_slot hslot) _ _

end InPlace

/-! ## Requests -/

/-- What can be asked of an arena. -/
inductive Request where
  | stateVar (name : String) (ty : Ty)
  | localVar (name : String) (ty : Ty)
  | constant (value : Constant) (ty : Ty)
  | builtin (name : String) (ty : Ty)
  | temporary (counters : Counters) (ty : Ty)
  | reference (counters : Counters) (ty : Ty)
  | tuple (counters : Counters) (ty : Ty)
  | bindReference (reference target : OperandId)
  | variantOf (id : OperandId)
  | entryVersionOf (base : OperandId)
  | freshVersionOf (base : OperandId)
  | reindex (id : OperandId) (number : Nat)

/-- An operand that was asked for, with the arena after it. -/
def given (answer : OperandId × Arena) : Option OperandId × Arena := (some answer.1, answer.2)

/-- The outcome of a request: the operand it asks for, if any, and the arena after it. -/
def Request.outcome (a : Arena) : Request → Except ModelError (Option OperandId × Arena)
  | .stateVar name ty => .ok (given (a.addKind (.stateVar name) ty))
  | .localVar name ty => .ok (given (a.addKind (.localVar name) ty))
  | .constant value ty => .ok (given (a.addKind (.constant value) ty))
  | .builtin name ty => .ok (given (a.addKind (.builtin name) ty))
  | .temporary counters ty => let (id, b, _) := a.temporary counters ty; .ok (some id, b)
  | .reference counters ty => let (id, b, _) := a.reference counters ty; .ok (some id, b)
  | .tuple counters ty => let (id, b, _) := a.tuple counters ty; .ok (some id, b)
  | .bindReference id target => do return (none, ← a.bindReference id target)
  | .variantOf id => do return given (← a.variantOf id)
  | .entryVersionOf base => do return given (← a.entryVersionOf base)
  | .freshVersionOf base => do return given (← a.freshVersionOf base)
  | .reindex id number => do return (none, ← a.reindex id number)

/-- A request done in place. -/
def Request.perform : Request → InPlace (Option OperandId)
  | .stateVar name ty => some <$> InPlace.append ⟨.stateVar name, ty, none⟩
  | .localVar name ty => some <$> InPlace.append ⟨.localVar name, ty, none⟩
  | .constant value ty => some <$> InPlace.append ⟨.constant value, ty, none⟩
  | .builtin name ty => some <$> InPlace.append ⟨.builtin name, ty, none⟩
  | .temporary counters ty => some <$> InPlace.append ⟨.temporary counters.temporary, ty, none⟩
  | .reference counters ty => some <$> InPlace.append ⟨.reference counters.reference none, ty, none⟩
  | .tuple counters ty => some <$> InPlace.append ⟨.tuple counters.tuple, ty, none⟩
  | .bindReference id target => do
      InPlace.bindReference id target
      return none
  | .variantOf id => some <$> InPlace.variantOf id
  | .entryVersionOf base => some <$> InPlace.entryVersionOf base
  | .freshVersionOf base => some <$> InPlace.freshVersionOf base
  | .reindex id number => do
      InPlace.reindex id number
      return none

namespace InPlace

theorem Settles.map {α β : Type} {a : Arena} {x : InPlace α}
    {outcome : Except ModelError (α × Arena)} (h : Settles x a outcome) (f : α → β) :
    Settles (f <$> x) a (outcome >>= fun answer => pure (f answer.1, answer.2)) := by
  unfold Settles at h ⊢
  rw [map_eq_pure_bind, run_bind, h]
  cases outcome <;> rfl

theorem settles_bindReference (a : Arena) (id target : OperandId) :
    Settles (bindReference id target >>= fun _ => pure none) a
      (a.bindReference id target >>= fun b => pure ((none : Option OperandId), b)) := by
  simp only [bindReference, Arena.bindReference, bind_assoc]
  refine settles_look fun _ _ => settles_look fun operand hoperand => ?_
  have hknown := known_of_get? (get?_of_get hoperand)
  cases operand.kind with
  | reference index pointsTo =>
      cases pointsTo with
      | none => exact settles_change hknown _ none
      | some t => rfl
  | _ => rfl

theorem settles_reindex (a : Arena) (id : OperandId) (number : Nat) :
    Settles (reindex id number >>= fun _ => pure none) a
      (a.reindex id number >>= fun b => pure ((none : Option OperandId), b)) := by
  rw [reindex, Arena.reindex, bind_assoc, bind_assoc]
  refine settles_look fun operand hoperand => ?_
  cases renumber? number operand.kind with
  | some kind => exact settles_change (known_of_get? (get?_of_get hoperand)) _ none
  | none => rfl

/-- In place a request has the outcome that it has otherwise. -/
theorem settles_perform (a : Arena) (r : Request) : Settles r.perform a (r.outcome a) := by
  cases r with
  | bindReference id target => exact settles_bindReference a id target
  | reindex id number => exact settles_reindex a id number
  | variantOf id => exact (settles_variantOf a id).map some
  | entryVersionOf base => exact (settles_entryVersionOf a base).map some
  | freshVersionOf base => exact (settles_freshVersionOf a base).map some
  | _ => rfl

end InPlace

end ContractCalls.Arena
