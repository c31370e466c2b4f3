/-
# Why a construction fails

Every operation is checked where it is emitted: what it reads has to be there,
and what it writes has to be writable.  The operands that a construction gets
hold of are there, so that the only check that can fail is whether an operand
may be written, and constants and builtins are the ones that may not.

`Runs p d x ok` says of a step `x` from the draft `d` that it ends in a draft
that keeps what is writable, with a value that satisfies `ok`, or in an error
that can be recorded, or that it refuses to write an operand; the last only if
`p` holds.  As with `Builds` there is a rule for each way of composing steps
and a lemma for each step there is.  Nodes do not matter here.
-/
import ContractCalls.Proofs.Body.Build

namespace ContractCalls

/-- The error can be recorded, or it refuses to write a constant or builtin and `p` holds. -/
def Refuses (p : Prop) (e : FrontEndError) : Prop :=
  e.isFatal = false ∨
    p ∧ ∃ operand kind, e = .model (.invalidLvalue operand kind) ∧ kind ∈ ["constant", "builtin"]

/-! ## Checks -/

/-- A check fails only to refuse an operand. -/
def Passes (p : Prop) {α : Type} (r : Except ModelError α) : Prop :=
  ∀ e, r = .error e → Refuses p (.model e)

section Checks

variable {p : Prop} {α β : Type} {a : Arena} {id : OperandId}

theorem passes_ok (x : α) : Passes p (.ok x) := nofun

theorem Passes.bind {r : Except ModelError α} {f : α → Except ModelError β} (h : Passes p r)
    (hf : ∀ x, Passes p (f x)) : Passes p (r >>= f) := by
  cases r with
  | error e => exact fun e' he => h e' (congrArg Except.error (Except.error.inj he))
  | ok x => exact hf x

theorem Arena.known_pair {other : OperandId} (h : a.Known id) (hother : a.Known other) :
    ∀ x ∈ [id, other], a.Known x :=
  List.forall_mem_cons.mpr ⟨h, List.forall_mem_singleton.mpr hother⟩

theorem passes_ensureRvalue (h : a.Known id) : Passes p (a.ensureRvalue id) := by
  obtain ⟨o, ho⟩ := Arena.known_iff.1 h
  have hread : o.isRvalue = true := by
    unfold Operand.isRvalue Operand.isLvalue
    cases o.kind <;> rfl
  unfold Arena.ensureRvalue
  rw [Arena.get_of_get? ho]
  show Passes p (if o.isRvalue then .ok () else _)
  rw [if_pos hread]
  exact passes_ok ()

/-- An operand that may not be written is a constant or a builtin. -/
theorem kind_of_not_isLvalue {o : Operand} (h : ¬ o.isLvalue = true) :
    o.kind.name ∈ ["constant", "builtin"] := by
  unfold Operand.isLvalue at h
  cases hkind : o.kind with
  | constant => simp [OperandKind.name]
  | builtin => simp [OperandKind.name]
  | _ => simp [hkind, OperandKind.isVariable, OperandKind.isIntroduced] at h

/-- The operand is there and may be written, unless `p` holds. -/
def Arena.Allows (a : Arena) (p : Prop) (id : OperandId) : Prop :=
  a.Known id ∧ (a.Writable id ∨ p)

theorem Arena.Writable.allows (h : a.Writable id) : a.Allows p id := ⟨h.known, Or.inl h⟩

theorem Arena.Allows.mono (h : a.Allows p id) {a' : Arena} (e : a.Includes a') : a'.Allows p id :=
  ⟨e.known h.1, h.2.imp_left e.writable⟩

/-- The operand is there, and may be written unless it stands for something fixed. -/
def Arena.Yields (a : Arena) (fixed : Bool) (id : OperandId) : Prop :=
  a.Known id ∧ (fixed = false → a.Writable id)

theorem Arena.Writable.yields (h : a.Writable id) {fixed : Bool} : a.Yields fixed id :=
  ⟨h.known, fun _ => h⟩

theorem Arena.Known.yields (h : a.Known id) : a.Yields true id := ⟨h, nofun⟩

theorem Arena.Yields.mono {fixed : Bool} (h : a.Yields fixed id) {a' : Arena}
    (e : a.Includes a') : a'.Yields fixed id :=
  ⟨e.known h.1, fun hfixed => e.writable (h.2 hfixed)⟩

theorem Arena.Yields.allows {fixed : Bool} (h : a.Yields fixed id) (hfixed : fixed = true → p) :
    a.Allows p id := by
  cases fixed with
  | true => exact ⟨h.1, Or.inr (hfixed rfl)⟩
  | false => exact (h.2 rfl).allows

theorem passes_ensureLvalue (h : a.Allows p id) : Passes p (a.ensureLvalue id) := by
  obtain ⟨hid, hwritable⟩ := h
  obtain ⟨o, ho⟩ := Arena.known_iff.1 hid
  unfold Arena.ensureLvalue
  rw [Arena.get_of_get? ho]
  show Passes p (if o.isLvalue then .ok () else Arena.notLvalue o)
  split
  · exact passes_ok ()
  · next hnot =>
      intro e he
      have hp : p := hwritable.resolve_left fun ⟨o', ho', hl⟩ =>
        hnot (Option.some.inj (ho'.symm.trans ho) ▸ hl)
      exact Or.inr ⟨hp, _, _, congrArg FrontEndError.model (Except.error.inj he).symm,
        kind_of_not_isLvalue hnot⟩

theorem passes_forM {γ : Type} {f : γ → Except ModelError Unit} {xs : List γ}
    (h : ∀ x ∈ xs, Passes p (f x)) : Passes p (xs.forM f) := by
  induction xs with
  | nil => exact passes_ok ()
  | cons x rest ih =>
      exact (h x List.mem_cons_self).bind fun _ => ih fun y hy => h y (List.mem_cons_of_mem x hy)

theorem passes_checkArgs {args : CallArgs} (h : ∀ id ∈ args.arguments, a.Known id) :
    Passes p (Operation.checkArgs a args) :=
  passes_forM fun id hid => passes_ensureRvalue (h id hid)

theorem passes_ofToken {token : String} (h : token ∈ ["!", "~"]) :
    Passes p (UnaryOp.ofToken token) := by
  simp only [List.mem_cons, List.not_mem_nil, or_false] at h
  rcases h with rfl | rfl
  · exact passes_ok _
  · exact passes_ok _

end Checks

/-! ## Drafts -/

/-- Every value of the table may be written. -/
def Table.WritableIn {κ : Type} [DecidableEq κ] (t : Table κ OperandId) (a : Arena) : Prop :=
  ∀ key id, t.get? key = some id → a.Writable id

namespace Table.WritableIn

variable {κ : Type} [DecidableEq κ] {t : Table κ OperandId} {a a' : Arena}

theorem empty : (Table.empty : Table κ OperandId).WritableIn a := by
  intro key id h
  simp at h

theorem mono (h : t.WritableIn a) (e : a.Includes a') : t.WritableIn a' := fun key id hid =>
  e.writable (h key id hid)

theorem insert (h : t.WritableIn a) {id : OperandId} (hid : a.Writable id) (key : κ) :
    (t.insert key id).WritableIn a := by
  intro other found hfound
  rw [Table.get?_insert] at hfound
  split at hfound
  · cases hfound
    exact hid
  · exact h other found hfound

end Table.WritableIn

namespace Draft

/-- Names and declarations lead to operands that may be written, and builtins are there. -/
structure Tidy (d : Draft) : Prop where
  scopes : ∀ scope ∈ d.scopes, scope.WritableIn d.body.arena
  states : d.states.WritableIn d.body.arena
  declared : d.declared.WritableIn d.body.arena
  builtins : ∀ name id, d.builtins.get? name = some id → d.body.arena.Known id

theorem tidy_start (counters : Counters) : (start counters).Tidy where
  scopes scope h := by
    obtain rfl := List.mem_singleton.mp h
    exact .empty
  states := .empty
  declared := .empty
  builtins _ _ h := by simp [start] at h

/-- The second draft is tidy as well, and has the operands of the first. -/
structure Keeps (d d' : Draft) : Prop where
  tidy : d'.Tidy
  arena : d.body.arena.Includes d'.body.arena

variable {d d' d'' : Draft}

namespace Keeps

theorem refl (tidy : d.Tidy) : d.Keeps d := ⟨tidy, .refl _⟩

theorem trans (first : d.Keeps d') (next : d'.Keeps d'') : d.Keeps d'' :=
  ⟨next.tidy, first.arena.trans next.arena⟩

theorem known (h : d.Keeps d') {id : OperandId} (hid : d.body.arena.Known id) :
    d'.body.arena.Known id := h.arena.known hid

theorem writable (h : d.Keeps d') {id : OperandId} (hid : d.body.arena.Writable id) :
    d'.body.arena.Writable id := h.arena.writable hid

end Keeps

/-- Operands and names stay as they are. -/
structure SameOperands (d d' : Draft) : Prop where
  arena : d'.body.arena = d.body.arena
  scopes : d'.scopes = d.scopes
  states : d'.states = d.states
  declared : d'.declared = d.declared
  builtins : d'.builtins = d.builtins

theorem Tidy.same (tidy : d.Tidy) (h : d.SameOperands d') : d.Keeps d' := by
  obtain ⟨arena, scopes, states, declared, builtins⟩ := h
  refine ⟨⟨?_, ?_, ?_, ?_⟩, ?_⟩
  · rw [scopes, arena]; exact tidy.scopes
  · rw [states, arena]; exact tidy.states
  · rw [declared, arena]; exact tidy.declared
  · rw [builtins, arena]; exact tidy.builtins
  · rw [arena]; exact .refl _

theorem sameOperands_emit (d : Draft) (op : Operation) : d.SameOperands (d.emit op) := by
  unfold emit reopen
  split <;> exact ⟨rfl, rfl, rfl, rfl, rfl⟩

/-- A draft with more operands. -/
theorem Tidy.add (tidy : d.Tidy) (o : Operand) (counters : Counters) :
    d.Keeps { d with
      body := { d.body with arena := (d.body.arena.add o).2 }, counters := counters } := by
  have e := d.body.arena.includes_add o
  exact ⟨⟨fun scope h => (tidy.scopes scope h).mono e, tidy.states.mono e, tidy.declared.mono e,
    fun name id h => e.known (tidy.builtins name id h)⟩, e⟩

theorem known_add (a : Arena) (o : Operand) : (a.add o).2.Known ⟨a.size⟩ := by
  show a.size < (a.add o).2.size
  simp

theorem writable_add (a : Arena) {o : Operand} (ho : o.isLvalue = true) :
    (a.add o).2.Writable ⟨a.size⟩ :=
  ⟨o, by simp [Arena.get?_add], ho⟩

theorem Tidy.bindName (tidy : d.Tidy) {id : OperandId} (hid : d.body.arena.Writable id)
    (name : String) : Tidy { d with scopes := Draft.bindName name id d.scopes } := by
  refine { tidy with scopes := ?_ }
  intro scope hscope
  cases hs : d.scopes with
  | nil =>
      rw [hs] at hscope
      exact absurd hscope List.not_mem_nil
  | cons inner outer =>
      rw [hs] at hscope
      rcases List.mem_cons.mp hscope with rfl | h
      · exact (tidy.scopes inner (hs ▸ List.mem_cons_self)).insert hid name
      · exact tidy.scopes scope (hs ▸ List.mem_cons_of_mem inner h)

/-- What a step that gives an operand to write leads to. -/
def Offers (d : Draft) (result : OperandId × Draft) : Prop :=
  d.Keeps result.2 ∧ result.2.body.arena.Writable result.1

theorem Tidy.offer (tidy : d.Tidy) {o : Operand} (ho : o.isLvalue = true) (counters : Counters) :
    d.Offers (⟨d.body.arena.size⟩,
      { d with body := { d.body with arena := (d.body.arena.add o).2 }, counters := counters }) :=
  ⟨tidy.add o counters, writable_add d.body.arena ho⟩

theorem Tidy.declareLocal (tidy : d.Tidy) (name : String) (ty : Ty) :
    d.Offers (d.declareLocal name ty) := by
  obtain ⟨keeps, hid⟩ := tidy.offer (o := ⟨.localVar name, ty, none⟩) rfl d.counters
  exact ⟨⟨keeps.tidy.bindName hid name, keeps.arena⟩, hid⟩

theorem Tidy.state (tidy : d.Tidy) (name : String) (ty : Ty) : d.Offers (d.state name ty) := by
  unfold Draft.state
  split
  · next id hid => exact ⟨.refl tidy, tidy.states name id hid⟩
  · obtain ⟨keeps, hid⟩ := tidy.offer (o := ⟨.stateVar name, ty, none⟩) rfl d.counters
    exact ⟨⟨{ keeps.tidy with states := keeps.tidy.states.insert hid name }, keeps.arena⟩, hid⟩

theorem Tidy.temporary (tidy : d.Tidy) (ty : Ty) : d.Offers (d.temporary ty) := tidy.offer rfl _

theorem Tidy.tuple (tidy : d.Tidy) (ty : Ty) : d.Offers (d.tuple ty) := tidy.offer rfl _

theorem Tidy.resultFor (tidy : d.Tidy) (ty : Ty) :
    d.Keeps (d.resultFor ty).2 ∧
      ∀ id ∈ (d.resultFor ty).1, (d.resultFor ty).2.body.arena.Writable id := by
  unfold Draft.resultFor
  split
  · exact ⟨.refl tidy, fun _ h => by cases h⟩
  · obtain ⟨keeps, hid⟩ := tidy.temporary _
    exact ⟨keeps, fun _ h => Option.some.inj h ▸ hid⟩
  · obtain ⟨keeps, hid⟩ := tidy.tuple _
    exact ⟨keeps, fun _ h => Option.some.inj h ▸ hid⟩
  · obtain ⟨keeps, hid⟩ := tidy.temporary _
    exact ⟨keeps, fun _ h => Option.some.inj h ▸ hid⟩

theorem Tidy.builtin (tidy : d.Tidy) (name : String) (ty : Ty) :
    d.Keeps (d.builtin name ty).2 ∧
      (d.builtin name ty).2.body.arena.Known (d.builtin name ty).1 := by
  unfold Draft.builtin
  split
  · next id hid => exact ⟨.refl tidy, tidy.builtins name id hid⟩
  · have keeps := tidy.add ⟨.builtin name, ty, none⟩ d.counters
    have hid := known_add d.body.arena ⟨.builtin name, ty, none⟩
    refine ⟨⟨{ keeps.tidy with builtins := ?_ }, keeps.arena⟩, hid⟩
    intro other found hfound
    simp only [Table.get?_insert] at hfound
    split at hfound
    · cases hfound
      exact hid
    · exact keeps.tidy.builtins other found hfound

theorem Tidy.lookup? (tidy : d.Tidy) {name : String} {id : OperandId}
    (h : d.lookup? name = some id) : d.body.arena.Writable id := by
  obtain ⟨scope, hscope, hid⟩ := List.exists_of_findSome?_eq_some h
  exact tidy.scopes scope hscope name id hid

theorem Tidy.pushScope (tidy : d.Tidy) : d.Keeps d.pushScope := by
  refine ⟨{ tidy with scopes := ?_ }, .refl _⟩
  intro scope hscope
  rcases List.mem_cons.mp hscope with rfl | h
  · exact .empty
  · exact tidy.scopes scope h

theorem Tidy.popScope (tidy : d.Tidy) : d.Keeps d.popScope := by
  unfold Draft.popScope
  split
  · next inner outer rest hs =>
      refine ⟨{ tidy with scopes := ?_ }, .refl _⟩
      intro scope hscope
      exact tidy.scopes scope (hs ▸ List.mem_cons_of_mem inner hscope)
  · exact .refl tidy

end Draft

/-! ## Programs -/

/-- The step ends in a draft that keeps what is writable, with a value that satisfies `ok`, or in an
error that refuses for the reason `p`. -/
def Runs {α : Type} (p : Prop) (d : Draft) (x : Build α) (ok : α → Arena → Prop) : Prop :=
  Leads x d (fun a d' => d.Keeps d' ∧ ok a d'.body.arena) (Refuses p)

/-- Nothing is said of a value. -/
def Ended {α : Type} (_ : α) (_ : Arena) : Prop := True

namespace Runs

variable {p : Prop} {α β : Type} {d : Draft} {x : Build α} {f : α → Build β}
  {ok : α → Arena → Prop} {ok' : β → Arena → Prop}

theorem pure (tidy : d.Tidy) {a : α} (h : ok a d.body.arena) : Runs p d (Pure.pure a) ok :=
  leads_pure ⟨.refl tidy, h⟩

theorem done (tidy : d.Tidy) {a : α} : Runs p d (Pure.pure a) Ended := .pure tidy trivial

theorem throw {e : FrontEndError} (h : e.isFatal = false) : Runs p d (MonadExcept.throw e) ok :=
  leads_throw (Or.inl h)

theorem imp (h : Runs p d x ok) {ok' : α → Arena → Prop} (hok : ∀ v a, ok v a → ok' v a) :
    Runs p d x ok' :=
  Leads.mono h fun v d' hv => ⟨hv.1, hok v d'.body.arena hv.2⟩

/-- A step, and what is done with its value. -/
theorem bind (h : Runs p d x ok)
    (hf : ∀ v d', d.Keeps d' → ok v d'.body.arena → Runs p d' (f v) ok') :
    Runs p d (x >>= f) ok' := by
  refine Leads.bind h fun v d' hv => (hf v d' hv.1 hv.2).mono fun w d'' hw => ?_
  exact ⟨hv.1.trans hw.1, hw.2⟩

/-- A step whose value does not matter, and the next one. -/
theorem seq {y : Build β} (h : Runs p d x ok) (hy : ∀ d', d.Keeps d' → Runs p d' y ok') :
    Runs p d (x >>= fun _ => y) ok' :=
  h.bind fun _ d' k _ => hy d' k

/-- A value that is there, and what is done with it. -/
theorem pureBind {a : α} (h : Runs p d (f a) ok') : Runs p d (Pure.pure a >>= f) ok' := h

theorem map {g : α → β} (h : Runs p d x ok) (hg : ∀ v a, ok v a → ok' (g v) a) :
    Runs p d (g <$> x) ok' :=
  Leads.map h fun v d' hv => ⟨hv.1, hg v d'.body.arena hv.2⟩

/-- An operand as a result. -/
theorem mapSome {x : Build OperandId} {ok : OperandId → Arena → Prop} (h : Runs p d x ok) :
    Runs p d (some <$> x) fun r a => ∀ id ∈ r, ok id a :=
  h.map fun _ _ hid _ hmem => Option.some.inj hmem ▸ hid

/-- An operand to write, whatever it stands for. -/
theorem yields {x : Build OperandId} (h : Runs p d x fun id a => a.Writable id) {fixed : Bool} :
    Runs p d (some <$> x) fun r a => ∀ id ∈ r, a.Yields fixed id :=
  (h.imp fun _ _ hid => hid.yields).mapSome

/-- An operand that stands for something fixed. -/
theorem yieldsFixed {x : Build OperandId} (h : Runs p d x fun id a => a.Known id) :
    Runs p d (some <$> x) fun r a => ∀ id ∈ r, a.Yields true id :=
  (h.imp fun _ _ hid => Arena.Known.yields hid).mapSome

/-- A step that may have no result, a check that it has one, and what is done with it. -/
theorem require {y : Build (Option OperandId)} {result : Option OperandId → Build OperandId}
    {g : OperandId → Build β} {ok : OperandId → Arena → Prop}
    (hy : Runs p d y fun r a => ∀ id ∈ r, ok id a)
    (hresult : ∀ {d' : Draft} {r : Option OperandId}, d'.Tidy → (∀ id ∈ r, ok id d'.body.arena) →
      Runs p d' (result r) ok)
    (hg : ∀ id d', d.Keeps d' → ok id d'.body.arena → Runs p d' (g id) ok') :
    Runs p d (y >>= fun r => result r >>= g) ok' := by
  refine hy.bind fun r d₁ k₁ hr => ?_
  refine (hresult k₁.tidy hr).bind fun id d₂ k₂ hid => ?_
  exact hg id d₂ (k₁.trans k₂) hid

/-- Looking at the draft changes nothing. -/
theorem get {f : Draft → Build β} (h : Runs p d (f d) ok') :
    Runs p d (MonadState.get >>= f) ok' :=
  leads_bind (leads_get h)

theorem modify {g : Draft → Draft} (h : d.Keeps (g d)) : Runs p d (modify g) Ended :=
  leads_modify ⟨h, trivial⟩

theorem step {g : Draft → α × Draft} (h : d.Keeps (g d).2 ∧ ok (g d).1 (g d).2.body.arena) :
    Runs p d (Build.step g) ok :=
  leads_modifyGet h

/-! ### Operands -/

theorem arena (tidy : d.Tidy) : Runs p d Build.arena Ended := get (done tidy)

theorem tyOf (tidy : d.Tidy) (id : OperandId) : Runs p d (Build.tyOf id) Ended := get (done tidy)

theorem declareLocal (tidy : d.Tidy) (name : String) (ty : Ty) :
    Runs p d (Build.declareLocal name ty) fun id a => a.Writable id :=
  step (tidy.declareLocal name ty)

theorem state (tidy : d.Tidy) (name : String) (ty : Ty) :
    Runs p d (Build.state name ty) fun id a => a.Writable id := step (tidy.state name ty)

theorem builtin (tidy : d.Tidy) (name : String) (ty : Ty) :
    Runs p d (Build.builtin name ty) fun id a => a.Known id := step (tidy.builtin name ty)

theorem constant (tidy : d.Tidy) (value : Constant) (ty : Ty) :
    Runs p d (Build.constant value ty) fun id a => a.Known id :=
  step ⟨tidy.add ⟨.constant value, ty, none⟩ d.counters, Draft.known_add _ _⟩

theorem temporary (tidy : d.Tidy) (ty : Ty) :
    Runs p d (Build.temporary ty) fun id a => a.Writable id := step (tidy.temporary ty)

theorem tuple (tidy : d.Tidy) (ty : Ty) :
    Runs p d (Build.step (·.tuple ty)) fun id a => a.Writable id := step (tidy.tuple ty)

theorem resultFor (tidy : d.Tidy) (ty : Ty) :
    Runs p d (Build.step (·.resultFor ty)) fun r a => ∀ id ∈ r, a.Writable id :=
  step (tidy.resultFor ty)

/-- A reference to an operand that is there. -/
theorem reference (tidy : d.Tidy) (ty : Ty) {target : OperandId}
    (htarget : d.body.arena.Known target) :
    Runs p d (Build.reference ty target) fun id a => a.Writable id := by
  obtain ⟨keeps, hid⟩ := tidy.offer (o := ⟨.reference d.counters.reference (some target), ty, none⟩)
    rfl { d.counters with reference := d.counters.reference + 1 }
  have hbind := Arena.bindReference_add d.body.arena d.counters.reference ty htarget
  refine leads_bind (leads_modifyGet (leads_bind ?_))
  refine leads_bind (leads_get (leads_pure ?_))
  show Leads (Build.check ((d.body.arena.add ⟨.reference d.counters.reference none, ty, none⟩).2
    |>.bindReference ⟨d.body.arena.size⟩ target) >>= _) _ _ _
  rw [hbind]
  exact leads_bind (leads_pure (leads_bind (leads_modify (leads_pure ⟨keeps, hid⟩))))

/-! ### Operations -/

theorem check (tidy : d.Tidy) {r : Except ModelError α} (h : Passes p r) :
    Runs p d (Build.check r) fun v _ => r = .ok v := by
  cases r with
  | error e => exact leads_throw (h e rfl)
  | ok v => exact pure tidy rfl

/-- An operation that is checked and emitted. -/
theorem emitChecked (tidy : d.Tidy) {make : Arena → Except ModelError Operation}
    (h : Passes p (make d.body.arena)) :
    Runs p d (do Build.emit (← Build.check (make (← Build.arena))))
      fun _ a => d.body.arena.Includes a ∧ ∃ op, make d.body.arena = .ok op := by
  refine get (bind (check tidy h) fun op d₁ k₁ hop => ?_)
  have k₂ := k₁.tidy.same (d₁.sameOperands_emit op)
  exact leads_modify ⟨k₂, (k₁.trans k₂).arena, op, hop⟩

/-- An operation that writes one operand and reads another: the one may be written afterwards. -/
theorem emitInto (tidy : d.Tidy) {lvalue operand : OperandId} (hl : d.body.arena.Allows p lvalue)
    (hoperand : d.body.arena.Known operand) {make : Arena → Except ModelError Operation}
    {op : Operation}
    (hmake : ∀ a : Arena, make a = do a.ensureLvalue lvalue; a.ensureRvalue operand; return op) :
    Runs p d (do Build.emit (← Build.check (make (← Build.arena))))
      fun _ a => a.Writable lvalue := by
  refine (emitChecked tidy ?_).imp ?_
  · rw [hmake]
    refine (passes_ensureLvalue hl).bind fun _ => ?_
    exact (passes_ensureRvalue hoperand).bind fun _ => passes_ok op
  · rintro _ a ⟨e, made, hmade⟩
    rw [hmake] at hmade
    obtain ⟨_, hwritable, -⟩ := bind_eq_ok hmade
    exact e.writable (Arena.writable_of_ensureLvalue hwritable)

theorem assign (tidy : d.Tidy) {lvalue rvalue : OperandId} (hl : d.body.arena.Allows p lvalue)
    (hr : d.body.arena.Known rvalue) (declared : Ty) :
    Runs p d (Build.assign lvalue rvalue declared) fun _ a => a.Writable lvalue :=
  emitInto tidy hl hr fun _ => rfl

theorem delete (tidy : d.Tidy) {lvalue : OperandId} (hl : d.body.arena.Allows p lvalue) :
    Runs p d (Build.delete lvalue) fun _ a => a.Writable lvalue :=
  emitInto tidy hl hl.1 fun _ => rfl

theorem call (tidy : d.Tidy) (callee : Callee) {args : CallArgs} {lvalue : Option OperandId}
    (hl : ∀ id ∈ lvalue, d.body.arena.Allows p id)
    (hargs : ∀ id ∈ args.arguments, d.body.arena.Known id) :
    Runs p d (Build.call callee args lvalue) Ended := by
  refine (emitChecked tidy ?_).imp fun _ _ _ => trivial
  have hcheck : Passes p (lvalue.forM d.body.arena.ensureLvalue) := by
    cases lvalue with
    | none => exact passes_ok ()
    | some id => exact passes_ensureLvalue (hl id rfl)
  exact hcheck.bind fun _ => (passes_checkArgs hargs).bind fun _ => passes_ok _

/-- A call into an operand for its result, which may be the end of the execution. -/
theorem callInto {x : Build (Option OperandId)}
    (hx : Runs p d x fun r a => ∀ id ∈ r, a.Writable id) (callee : Callee) {args : CallArgs}
    (hargs : ∀ id ∈ args.arguments, d.body.arena.Known id) (ends : Bool) :
    Runs p d (do
      let result ← x
      Build.call callee args result
      if ends then Build.terminate .revert
      return result) fun r a => ∀ id ∈ r, a.Writable id := by
  refine hx.bind fun result d₁ k₁ hresult => ?_
  refine (call k₁.tidy callee (fun id hid => (hresult id hid).allows)
    fun id hid => k₁.known (hargs id hid)).seq fun d₂ k₂ => ?_
  have hdone : ∀ {d₃ : Draft}, d₂.Keeps d₃ →
      Runs p d₃ (Pure.pure result) fun r a => ∀ id ∈ r, a.Writable id := fun k₃ =>
    pure k₃.tidy fun id hid => (k₂.trans k₃).writable (hresult id hid)
  cases ends with
  | true => exact (modify (k₂.tidy.same ⟨rfl, rfl, rfl, rfl, rfl⟩)).seq fun d₃ k₃ => hdone k₃
  | false => exact hdone (.refl k₂.tidy)

theorem intrinsicInto (tidy : d.Tidy) (form : Intrinsic) {arguments : List OperandId}
    {lvalue : OperandId} (hl : d.body.arena.Allows p lvalue)
    (harguments : ∀ id ∈ arguments, d.body.arena.Known id) :
    Runs p d (Build.intrinsicInto form arguments lvalue) Ended :=
  call tidy _ (fun _ hid => Option.some.inj hid ▸ hl) harguments

/-- A step that gives an operand to write, and a step that writes it. -/
theorem giving {x : Build OperandId} {y : OperandId → Build Unit}
    (hx : Runs p d x fun id a => a.Writable id)
    (hy : ∀ id d', d.Keeps d' → d'.body.arena.Writable id → Runs p d' (y id) Ended) :
    Runs p d (do let id ← x; y id; return id) fun id a => a.Writable id := by
  refine hx.bind fun id d₁ k₁ hid => (hy id d₁ k₁ hid).seq fun d₂ k₂ => ?_
  exact pure k₂.tidy (k₂.writable hid)

theorem intrinsic (tidy : d.Tidy) (form : Intrinsic) {arguments : List OperandId}
    (harguments : ∀ id ∈ arguments, d.body.arena.Known id) (ty : Ty) :
    Runs p d (Build.intrinsic form arguments ty) fun id a => a.Writable id :=
  giving (temporary tidy ty) fun _ _ k hid =>
    intrinsicInto k.tidy form hid.allows fun other h => k.known (harguments other h)

theorem refer (tidy : d.Tidy) (form : Intrinsic) (ty : Ty) {object : OperandId}
    (hobject : d.body.arena.Known object) {arguments : List OperandId}
    (harguments : ∀ id ∈ arguments, d.body.arena.Known id) :
    Runs p d (Build.refer form ty object arguments) fun id a => a.Writable id :=
  giving (reference tidy ty hobject) fun _ _ k hid =>
    intrinsicInto k.tidy form hid.allows fun other h => k.known (harguments other h)

/-- An operation that is checked and writes a fresh temporary. -/
theorem emitFresh (tidy : d.Tidy) (ty : Ty) {make : OperandId → Arena → Except ModelError Operation}
    (h : ∀ id a, d.body.arena.Includes a → a.Writable id → Passes p (make id a)) :
    Runs p d (do
      let id ← Build.temporary ty
      Build.emit (← Build.check (make id (← Build.arena)))
      return id) fun id a => a.Writable id := by
  refine (temporary tidy ty).bind fun id d₁ k₁ hid => get ?_
  refine (check k₁.tidy (h id d₁.body.arena k₁.arena hid)).bind fun op d₂ k₂ _ => ?_
  have k₃ := k₂.tidy.same (d₂.sameOperands_emit op)
  exact (modify k₃).seq fun d₄ k₄ => pure k₄.tidy ((k₂.trans k₄).writable hid)

theorem unary (tidy : d.Tidy) {token : String} (htoken : token ∈ ["!", "~"]) {operand : OperandId}
    (hoperand : d.body.arena.Known operand) (ty : Ty) :
    Runs p d (Build.unary token operand ty) fun id a => a.Writable id := by
  refine emitFresh tidy ty fun id a e hid => (passes_ofToken htoken).bind fun _ => ?_
  refine (passes_ensureLvalue hid.allows).bind fun _ => ?_
  exact (passes_ensureRvalue (e.known hoperand)).bind fun _ => passes_ok _

theorem newElementary (tidy : d.Tidy) (ty : Ty) {arguments : List OperandId}
    (harguments : ∀ id ∈ arguments, d.body.arena.Known id) :
    Runs p d (Build.newElementary ty arguments) fun id a => a.Writable id := by
  refine emitFresh tidy ty fun id a e hid => (passes_ensureLvalue hid.allows).bind fun _ => ?_
  exact (passes_checkArgs fun other h => e.known (harguments other h)).bind fun _ => passes_ok _

theorem newStructure (tidy : d.Tidy) (name : String) {args : CallArgs}
    (hargs : ∀ id ∈ args.arguments, d.body.arena.Known id) (ty : Ty) :
    Runs p d (Build.newStructure name args ty) fun id a => a.Writable id := by
  refine emitFresh tidy ty fun id a e hid => (passes_ensureLvalue hid.allows).bind fun _ => ?_
  exact (passes_checkArgs fun other h => e.known (hargs other h)).bind fun _ => passes_ok _

/-! ### Scopes and loops -/

theorem inScope (tidy : d.Tidy) {y : Build Unit} (hy : ∀ d', d.Keeps d' → Runs p d' y Ended) :
    Runs p d (Build.inScope y) Ended :=
  (modify tidy.pushScope).seq fun d₁ k₁ => (hy d₁ k₁).seq fun _ k₂ => modify k₂.tidy.popScope

theorem inLoop (tidy : d.Tidy) (continueTo breakTo : NodeId) {y : Build Unit}
    (hy : ∀ d', d.Keeps d' → Runs p d' y Ended) :
    Runs p d (Build.inLoop continueTo breakTo y) Ended := by
  refine (modify (tidy.same ⟨rfl, rfl, rfl, rfl, rfl⟩)).seq fun d₁ k₁ => ?_
  refine (hy d₁ k₁).seq fun d₂ k₂ => ?_
  exact modify (k₂.tidy.same ⟨rfl, rfl, rfl, rfl, rfl⟩)

end Runs

/-! ## Steps without values -/

/-- From whatever tidy draft the step is taken, it runs. -/
def Behaves {α : Type} (p : Prop) (x : Build α) : Prop := ∀ d : Draft, d.Tidy → Runs p d x Ended

namespace Behaves

variable {p : Prop} {α β : Type} {x : Build α} {f : α → Build β}

theorem pure {a : α} : Behaves p (Pure.pure a) := fun _ tidy => .pure tidy trivial

theorem throw {e : FrontEndError} (h : e.isFatal = false) :
    Behaves p (MonadExcept.throw e : Build α) := fun _ _ => .throw h

theorem bind (h : Behaves p x) (hf : ∀ v, Behaves p (f v)) : Behaves p (x >>= f) :=
  fun d tidy => (h d tidy).bind fun v d' k _ => hf v d' k.tidy

theorem seq {y : Build β} (h : Behaves p x) (hy : Behaves p y) : Behaves p (x >>= fun _ => y) :=
  h.bind fun _ => hy

theorem modify {g : Draft → Draft} (h : ∀ d : Draft, d.Tidy → d.Keeps (g d)) :
    Behaves p (modify g) := fun d tidy => .modify (h d tidy)

theorem newNode : Behaves p Build.newNode := fun _ tidy =>
  .step ⟨tidy.same ⟨rfl, rfl, rfl, rfl, rfl⟩, trivial⟩

theorem switchTo (n : NodeId) : Behaves p (Build.switchTo n) :=
  modify fun _ tidy => tidy.same ⟨rfl, rfl, rfl, rfl, rfl⟩

theorem terminate (t : Terminator) : Behaves p (Build.terminate t) :=
  modify fun _ tidy => tidy.same ⟨rfl, rfl, rfl, rfl, rfl⟩

theorem annotate (span : Option Span) : Behaves p (Build.annotate span) :=
  modify fun _ tidy => tidy.same ⟨rfl, rfl, rfl, rfl, rfl⟩

theorem nop : Behaves p (Build.emit .nop) :=
  modify fun d tidy => tidy.same (d.sameOperands_emit .nop)

theorem inScope {y : Build Unit} (hy : Behaves p y) : Behaves p (Build.inScope y) :=
  fun _ tidy => .inScope tidy fun d' k => hy d' k.tidy

theorem inLoop {y : Build Unit} (hy : Behaves p y) (continueTo breakTo : NodeId) :
    Behaves p (Build.inLoop continueTo breakTo y) :=
  fun _ tidy => .inLoop tidy continueTo breakTo fun d' k => hy d' k.tidy

theorem leaveTo (target : LoopTargets → NodeId) : Behaves p (Build.leaveTo target) := by
  intro d tidy
  refine .get ?_
  split
  · exact terminate _ d tidy
  · exact .pure tidy trivial

end Behaves

/-- A construction that fails, fails with an error that can be recorded or refuses an operand. -/
theorem Build.refuses_of_runBody {p : Prop} {build : Build Unit} (hbuild : Behaves p build)
    {counters after : Counters} {e : FrontEndError}
    (h : Build.runBody build counters = (.error e, after)) : Refuses p e := by
  have hb : Runs p (.start counters) build Ended := hbuild _ (Draft.tidy_start counters)
  unfold Runs Leads at hb
  unfold Build.runBody at h
  split at h
  · simp at h
  · next error draft hrun =>
      rw [hrun] at hb
      obtain ⟨rfl, -⟩ : error = e ∧ draft.counters = after := by simpa using h
      exact hb

end ContractCalls
