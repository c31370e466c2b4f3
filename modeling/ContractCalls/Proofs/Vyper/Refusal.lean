/-
# Why the lowering of Vyper fails

One lemma for each function of the lowering, in the order of the lowering, as
for Solidity: an expression gives an operand that is there, which may be written
unless the expression is fixed, and every failure can be recorded unless a fixed
place is written to.
-/
import ContractCalls.Proofs.Body.Refusal
import ContractCalls.Proofs.Vyper.Target

namespace ContractCalls.Vyper

/-! ## Names -/

variable {p : Prop} {d : Draft}

namespace Expr

theorem runs_result {ok : OperandId → Arena → Prop} (e : Expr) {r : Option OperandId}
    (tidy : d.Tidy) (hr : ∀ id ∈ r, ok id d.body.arena) : Runs p d (e.result r) ok := by
  cases r with
  | none => exact .throw rfl
  | some id => exact .pure tidy (hr id rfl)

/-- An expression that has to have a result, and what is done with it. -/
theorem runs_bind {β : Type} {x : Build (Option OperandId)} {f : OperandId → Build β}
    {ok : OperandId → Arena → Prop} {ok' : β → Arena → Prop} (e : Expr)
    (hx : Runs p d x fun r a => ∀ id ∈ r, ok id a)
    (hf : ∀ id d', d.Keeps d' → ok id d'.body.arena → Runs p d' (f id) ok') :
    Runs p d (x >>= fun r => e.result r >>= f) ok' :=
  hx.require e.runs_result hf

end Expr

/-- A variable may be written, and a state variable is one. -/
theorem runs_variableNamed? (layout : Layout) (tidy : d.Tidy) (name : String) :
    Runs p d (variableNamed? layout name) fun r a =>
      (∀ id ∈ r, a.Writable id) ∧ (r = none → (layout.states.get? name).isNone = true) := by
  refine .get ?_
  split
  · next operand hlookup =>
      refine .pure tidy ⟨fun id hid => Option.some.inj hid ▸ tidy.lookup? hlookup, fun hnone => ?_⟩
      cases hnone
  · refine (Runs.state tidy _ _).map fun id a hid => ⟨fun other hother => ?_, fun hnone => ?_⟩
    · exact Option.some.inj hother ▸ hid
    · cases hnone
  · next hstate =>
      refine .pure tidy ⟨fun id hid => ?_, fun _ => by rw [hstate]; rfl⟩
      cases hid

theorem runs_nameValue (layout : Layout) (tidy : d.Tidy) (name : String) :
    Runs p d (nameValue layout name) fun id a => a.Yields ((Expr.name name).isFixed layout) id := by
  refine (runs_variableNamed? layout tidy name).bind fun r d₁ k₁ hr => ?_
  cases r with
  | none =>
      rw [Expr.isFixed, hr.2 rfl]
      exact (Runs.builtin k₁.tidy _ _).imp fun _ _ hid => Arena.Known.yields hid
  | some operand => exact .pure k₁.tidy (hr.1 operand rfl).yields

theorem runs_environmentValue? {layout : Layout} (tidy : d.Tidy) {base : Expr} {name : String}
    {x : Build OperandId} (h : environmentValue? layout base name = some x) :
    Runs p d x fun id a => a.Yields ((Expr.member base name).isFixed layout) id := by
  unfold environmentValue? at h
  split at h
  · next id =>
      split at h
      · cases h
        exact (Runs.state tidy _ _).imp fun _ _ hid => hid.yields
      · next hstorage =>
          split at h
          · next henvironment =>
              cases h
              have hfixed : (Expr.member (.name id) name).isFixed layout = true := by
                rw [Expr.isFixed, henvironment, Bool.true_and, Bool.not_eq_true', Bool.eq_false_iff]
                intro h
                rw [Bool.and_eq_true, Option.isSome_iff_exists] at h
                obtain ⟨hself, ty, hty⟩ := h
                exact hstorage ty hself hty
              rw [hfixed]
              exact (Runs.builtin tidy _ _).imp fun _ _ hid => Arena.Known.yields hid
          · cases h
  · cases h

/-! ## Operations -/

theorem runs_applyUnary (tidy : d.Tidy) (form : UnaryForm) {operand : OperandId}
    (hoperand : d.body.arena.Known operand) :
    Runs p d (applyUnary form operand) fun id a => a.Writable id := by
  refine (Runs.tyOf tidy operand).bind fun ty d₁ k₁ _ => ?_
  have hoperand := k₁.known hoperand
  cases form with
  | not => exact .unary k₁.tidy (by simp) hoperand _
  | invert => exact .unary k₁.tidy (by simp) hoperand _
  | negate =>
      refine (Runs.constant k₁.tidy (.uint 0) ty).bind fun zero d₂ k₂ hzero => ?_
      exact .intrinsic k₂.tidy _ (Arena.known_pair hzero (k₂.known hoperand)) _

theorem behaves_typesOf (operands : List OperandId) : Behaves p (typesOf operands) := fun _ tidy =>
  (Runs.arena tidy).bind fun _ _ k₁ _ => .pure k₁.tidy trivial

theorem runs_callResult (layout : Layout) (tidy : d.Tidy) (callee : Callee) (name : String) :
    Runs p d (callResult layout callee name) fun r a => ∀ id ∈ r, a.Writable id := by
  unfold callResult
  split
  · exact .resultFor tidy _
  · exact (Runs.temporary tidy _).mapSome

theorem runs_emitCall (layout : Layout) (tidy : d.Tidy) (callee : Callee) (name : String)
    {arguments : List OperandId} (harguments : ∀ id ∈ arguments, d.body.arena.Known id) :
    Runs p d (emitCall layout callee name arguments) fun r a => ∀ id ∈ r, a.Writable id :=
  .callInto (runs_callResult layout tidy callee name) callee harguments (isRevert callee)

/-! ## Expressions -/

section Expressions

variable (layout : Layout)

mutual

theorem runs_value : (e : Expr) → {d : Draft} → d.Tidy →
    Runs p d (value layout e) fun r a => ∀ id ∈ r, a.Yields (e.isFixed layout) id
  | .absent field nodeType, d, tidy => by
      rw [value]
      exact .throw rfl
  | .literal constant ty, d, tidy => by
      rw [value]
      exact .yieldsFixed (.constant tidy constant ty)
  | .name id, d, tidy => by
      rw [value]
      exact (runs_nameValue layout tidy id).mapSome
  | .member base name, d, tidy => by
      rw [value]
      split
      · next operand hoperand => exact (runs_environmentValue? tidy hoperand).mapSome
      · refine base.runs_bind (runs_value base tidy) fun object d₁ k₁ hobject => ?_
        have harguments := List.forall_mem_singleton.mpr hobject.1
        exact Runs.yields (.refer k₁.tidy _ _ hobject.1 harguments)
  | .subscript base key, d, tidy => by
      rw [value]
      refine base.runs_bind (runs_value base tidy) fun object d₁ k₁ hobject => ?_
      refine key.runs_bind (runs_value key k₁.tidy) fun position d₂ k₂ hposition => ?_
      refine (Runs.tyOf k₂.tidy object).bind fun ty d₃ k₃ _ => ?_
      have hobject := (k₂.trans k₃).known hobject.1
      have harguments := Arena.known_pair hobject (k₃.known hposition.1)
      exact Runs.yields (.refer k₃.tidy _ _ hobject harguments)
  | .call callee label arguments, d, tidy => by
      have hcallee := runs_value callee tidy
      have hcall : ∀ {d' : Draft} (target : Callee) (name : String), d'.Tidy →
          Runs p d' (do emitCall layout target name (← values layout arguments))
            fun r a => ∀ id ∈ r, a.Yields false id := by
        intro d' target name tidy'
        refine (runs_values arguments tidy').bind fun operands d₁ k₁ hoperands => ?_
        refine (runs_emitCall layout k₁.tidy target name hoperands).imp fun r a hr id hid => ?_
        exact (hr id hid).yields
      cases callee with
      | absent field nodeType =>
          rw [value]
          exact .throw rfl
      | name id =>
          rw [value]
          exact hcall _ _ tidy
      | member base name =>
          rw [value]
          split
          · exact hcall _ _ tidy
          · exact (runs_value base tidy).seq fun d₁ k₁ => hcall _ _ k₁.tidy
      | _ =>
          simp only [value]
          exact Runs.seq hcallee fun d₁ k₁ => hcall _ _ k₁.tidy
  | .construct typeName names members, d, tidy => by
      rw [value]
      refine (runs_values members tidy).bind fun operands d₁ k₁ hoperands => ?_
      exact Runs.yields (.newStructure k₁.tidy _ hoperands _)
  | .marked nodeType inner, d, tidy => by
      rw [value]
      exact runs_value inner tidy
  | .binary operator left right, d, tidy => by
      rw [value]
      refine left.runs_bind (runs_value left tidy) fun first d₁ k₁ hfirst => ?_
      refine right.runs_bind (runs_value right k₁.tidy) fun second d₂ k₂ hsecond => ?_
      refine (Runs.tyOf k₂.tidy first).bind fun ty d₃ k₃ _ => ?_
      have harguments := Arena.known_pair ((k₂.trans k₃).known hfirst.1) (k₃.known hsecond.1)
      exact Runs.yields (.intrinsic k₃.tidy _ harguments _)
  | .compare operator left right, d, tidy => by
      rw [value]
      refine left.runs_bind (runs_value left tidy) fun first d₁ k₁ hfirst => ?_
      refine right.runs_bind (runs_value right k₁.tidy) fun second d₂ k₂ hsecond => ?_
      have harguments := Arena.known_pair (k₂.known hfirst.1) hsecond.1
      exact Runs.yields (.intrinsic k₂.tidy _ harguments _)
  | .logical operator [], d, tidy => by
      rw [value]
      exact .throw rfl
  | .logical operator (first :: rest), d, tidy => by
      rw [value]
      refine first.runs_bind (runs_value first tidy) fun start d₁ k₁ hstart => ?_
      refine (runs_combine operator rest k₁.tidy hstart.1 fun hrest => ?_).mapSome
      subst hrest
      exact hstart
  | .unary form operand, d, tidy => by
      rw [value]
      refine operand.runs_bind (runs_value operand tidy) fun id d₁ k₁ hid => ?_
      exact Runs.yields (runs_applyUnary k₁.tidy form hid.1)
  | .tuple elements, d, tidy => by
      rw [value]
      refine (runs_values elements tidy).bind fun operands d₁ k₁ hoperands => ?_
      refine (behaves_typesOf operands d₁ k₁.tidy).bind fun types d₂ k₂ _ => ?_
      exact Runs.yields (.intrinsic k₂.tidy _ (fun id hid => k₂.known (hoperands id hid)) _)
  | .list elements, d, tidy => by
      rw [value]
      refine (runs_values elements tidy).bind fun operands d₁ k₁ hoperands => ?_
      refine (behaves_typesOf operands d₁ k₁.tidy).bind fun types d₂ k₂ _ => ?_
      exact Runs.yields (.intrinsic k₂.tidy _ (fun id hid => k₂.known (hoperands id hid)) _)
  | .conditional test yes no, d, tidy => by
      rw [value]
      refine test.runs_bind (runs_value test tidy) fun condition d₁ k₁ hcondition => ?_
      refine yes.runs_bind (runs_value yes k₁.tidy) fun first d₂ k₂ hfirst => ?_
      refine no.runs_bind (runs_value no k₂.tidy) fun second d₃ k₃ hsecond => ?_
      refine (Runs.tyOf k₃.tidy first).bind fun ty d₄ k₄ _ => ?_
      have k := k₃.trans k₄
      have harguments := List.forall_mem_cons.mpr ⟨(k₂.trans k).known hcondition.1,
        Arena.known_pair (k.known hfirst.1) (k₄.known hsecond.1)⟩
      exact Runs.yields (.intrinsic k₄.tidy _ harguments _)
  | .dict members, d, tidy => by
      rw [value]
      refine (runs_values members tidy).bind fun operands d₁ k₁ hoperands => ?_
      exact Runs.yields (.intrinsic k₁.tidy _ hoperands _)
  | .unlisted nodeType children, d, tidy => by
      rw [value]
      refine (runs_effects children tidy).seq fun d₁ k₁ => ?_
      exact .yieldsFixed (.builtin k₁.tidy _ _)

theorem runs_values : (es : List Expr) → {d : Draft} → d.Tidy →
    Runs p d (values layout es) fun ids a => ∀ id ∈ ids, a.Known id
  | [], d, tidy => by
      rw [values]
      exact .pure tidy (List.forall_mem_nil _)
  | e :: rest, d, tidy => by
      rw [values]
      refine e.runs_bind (runs_value e tidy) fun first d₁ k₁ hfirst => ?_
      refine (runs_values rest k₁.tidy).bind fun ids d₂ k₂ hids => .pure k₂.tidy ?_
      exact List.forall_mem_cons.mpr ⟨k₂.known hfirst.1, hids⟩

theorem runs_effects : (es : List Expr) → {d : Draft} → d.Tidy →
    Runs p d (effects layout es) Ended
  | [], d, tidy => by
      rw [effects]
      exact .pure tidy trivial
  | e :: rest, d, tidy => by
      rw [effects]
      exact (runs_value e tidy).seq fun d₁ k₁ => runs_effects rest k₁.tidy

/-- A single operand stays what it is, and several are combined into a temporary. -/
theorem runs_combine (operator : String) {fixed : Bool} : (es : List Expr) → {d : Draft} →
    d.Tidy → {start : OperandId} → d.body.arena.Known start →
    (es = [] → d.body.arena.Yields fixed start) →
    Runs p d (combine layout operator start es) fun id a => a.Yields fixed id
  | [], d, tidy, start, hstart, hsingle => by
      rw [combine]
      exact .pure tidy (hsingle rfl)
  | e :: rest, d, tidy, start, hstart, hsingle => by
      rw [combine]
      refine e.runs_bind (runs_value e tidy) fun next d₁ k₁ hnext => ?_
      have harguments := Arena.known_pair (k₁.known hstart) hnext.1
      refine (Runs.intrinsic k₁.tidy _ harguments _).bind fun both d₂ k₂ hboth => ?_
      exact runs_combine operator rest k₂.tidy hboth.known fun _ => hboth.yields

end

theorem runs_expression (e : Expr) (tidy : d.Tidy) :
    Runs p d (expression layout e) fun id a => a.Yields (e.isFixed layout) id :=
  (runs_value layout e tidy).bind fun _ _ k₁ hr => e.runs_result k₁.tidy hr

end Expressions

/-! ## Statements -/

namespace Stmt

/-- The statement writes to a fixed place only if `p` holds, and what it cannot declare can be
recorded. -/
structure Fits (layout : Layout) (p : Prop) (s : Stmt) : Prop where
  places : ∀ place ∈ s.written, place.isFixedPlace layout = true → p
  declares : s.Declares

/-- The statement and everything below it fits. -/
def Suits (layout : Layout) (p : Prop) (s : Stmt) : Prop := ∀ t : Stmt, t.Within s → t.Fits layout p

theorem Suits.fits {layout : Layout} {s : Stmt} (h : s.Suits layout p) : s.Fits layout p :=
  h s .refl

theorem Suits.child {layout : Layout} {s c : Stmt} (h : s.Suits layout p) (hc : c ∈ s.children) :
    c.Suits layout p :=
  fun t ht => h t (ht.tail hc)

end Stmt

section Statements

variable (layout : Layout)

theorem behaves_value (e : Expr) : Behaves p (value layout e) := fun _ tidy =>
  (runs_value layout e tidy).imp fun _ _ _ => trivial

theorem behaves_effect? (e : Option Expr) : Behaves p (effect? layout e) := by
  cases e with
  | none => exact .pure
  | some e => exact (behaves_value layout e).seq .pure

theorem runs_place (e : Expr) (he : e.isFixedPlace layout = true → p) (tidy : d.Tidy) :
    Runs p d (place layout e) fun id a => a.Allows p id := by
  unfold place
  split
  · refine (runs_variableNamed? layout tidy _).bind fun r d₁ k₁ hr => ?_
    cases r with
    | none => exact .throw rfl
    | some operand => exact .pure k₁.tidy (hr.1 operand rfl).allows
  · next hname =>
      have hplace : e.isFixedPlace layout = e.isFixed layout := by
        cases e with
        | name id => exact absurd rfl (hname id)
        | _ => rfl
      rw [hplace] at he
      exact (runs_expression layout e tidy).imp fun id a hid => hid.allows he

theorem runs_assignComponents {source : OperandId} : (position : Nat) → (es : List Expr) →
    (∀ e ∈ es, e.isFixedPlace layout = true → p) → {d : Draft} → d.Tidy →
    d.body.arena.Known source → Runs p d (assignComponents layout source position es) Ended
  | _, [], h, d, tidy, hsource => .pure tidy trivial
  | position, e :: rest, h, d, tidy, hsource => by
      obtain ⟨he, hrest⟩ := List.forall_mem_cons.mp h
      refine (runs_place layout e he tidy).bind fun slot d₁ k₁ hslot => ?_
      have hsource := k₁.known hsource
      refine (Runs.intrinsicInto k₁.tidy _ hslot (List.forall_mem_singleton.mpr hsource)).seq
        fun d₂ k₂ => ?_
      exact runs_assignComponents (position + 1) rest hrest k₂.tidy (k₂.known hsource)

theorem behaves_declare (binding : Binding) (initial : Option Expr) :
    Behaves p (declare layout binding initial) := by
  intro d tidy
  cases initial with
  | none => exact (Runs.declareLocal tidy _ _).seq fun d₁ k₁ => .pure k₁.tidy trivial
  | some initial =>
      refine (runs_expression layout initial tidy).bind fun computed d₁ k₁ hcomputed => ?_
      refine (Runs.declareLocal k₁.tidy _ _).bind fun declared d₂ k₂ hdeclared => ?_
      refine (Runs.assign k₂.tidy hdeclared.allows (k₂.known hcomputed.1) _).imp ?_
      exact fun _ _ _ => trivial

theorem behaves_readable {binding : Except FrontEndError Binding}
    (h : ∀ e, binding = .error e → e.isFatal = false) : Behaves p (readable binding) := by
  cases binding with
  | error e => exact .throw (h e rfl)
  | ok binding => exact .pure

mutual

theorem behaves_statement : (s : Stmt) → s.Suits layout p → Behaves p (statement layout s)
  | .located span inner, h => by
      rw [statement]
      refine (Behaves.annotate span).seq ?_
      exact behaves_statement inner (h.child List.mem_cons_self)
  | .skip, h => by
      rw [statement]
      exact .pure
  | .expression e, h => by
      rw [statement]
      exact (behaves_value layout e).seq .pure
  | .declare binding initial, h => by
      rw [statement]
      refine (behaves_readable fun e he => h.fits.declares e (congrArg some he)).bind ?_
      exact fun binding => behaves_declare layout binding initial
  | .assign target source, h => by
      rw [statement]
      intro d tidy
      refine (runs_expression layout source tidy).bind fun computed d₁ k₁ hcomputed => ?_
      refine (runs_place layout target (h.fits.places target List.mem_cons_self) k₁.tidy).bind
        fun slot d₂ k₂ hslot => ?_
      refine (Runs.tyOf k₂.tidy slot).bind fun ty d₃ k₃ _ => ?_
      have hcomputed := (k₂.trans k₃).known hcomputed.1
      exact (Runs.assign k₃.tidy (hslot.mono k₃.arena) hcomputed _).imp fun _ _ _ => trivial
  | .assignAll targets source, h => by
      rw [statement]
      intro d tidy
      refine (runs_expression layout source tidy).bind fun computed d₁ k₁ hcomputed => ?_
      exact runs_assignComponents layout 0 targets h.fits.places k₁.tidy hcomputed.1
  | .update operator target source, h => by
      rw [statement]
      intro d tidy
      refine (runs_expression layout source tidy).bind fun right d₁ k₁ hright => ?_
      refine (runs_place layout target (h.fits.places target List.mem_cons_self) k₁.tidy).bind
        fun slot d₂ k₂ hslot => ?_
      refine (Runs.tyOf k₂.tidy slot).bind fun ty d₃ k₃ _ => ?_
      have hslot := hslot.mono k₃.arena
      have harguments := Arena.known_pair hslot.1 ((k₂.trans k₃).known hright.1)
      refine (Runs.intrinsic k₃.tidy _ harguments _).bind fun updated d₄ k₄ hupdated => ?_
      refine (Runs.assign k₄.tidy (hslot.mono k₄.arena) hupdated.known _).imp ?_
      exact fun _ _ _ => trivial
  | .ret es, h => by
      rw [statement]
      intro d tidy
      exact (runs_values layout es tidy).bind fun ids d₁ k₁ _ => Behaves.terminate _ d₁ k₁.tidy
  | .ifElse test yes no, h => by
      have hyes : Behaves p (statements layout yes) :=
        behaves_statements yes fun s hs => h.child (List.mem_append_left _ hs)
      have hno : Behaves p (statements layout no) :=
        behaves_statements no fun s hs => h.child (List.mem_append_right _ hs)
      have htest : Behaves p (expression layout test) := fun _ tidy =>
        (runs_expression layout test tidy).imp fun _ _ _ => trivial
      rw [statement]
      refine htest.bind fun condition => Behaves.newNode.bind fun yesNode => ?_
      refine Behaves.newNode.bind fun join => ?_
      -- without statements in the other branch the join takes the place of its node
      by_cases hempty : no.isEmpty = true
      · simp only [hempty, if_true, Bool.not_true, Bool.false_eq_true, if_false]
        refine Behaves.pure.bind fun noNode => (Behaves.terminate _).seq ?_
        refine (Behaves.switchTo _).seq (hyes.inScope.seq ((Behaves.terminate _).seq ?_))
        exact .switchTo _
      · simp only [hempty, Bool.not_false, if_true]
        refine Behaves.newNode.bind fun noNode => (Behaves.terminate _).seq ?_
        refine (Behaves.switchTo _).seq (hyes.inScope.seq ((Behaves.terminate _).seq ?_))
        refine (Behaves.switchTo _).seq (hno.inScope.seq ((Behaves.terminate _).seq ?_))
        exact .switchTo _
  | .forEach binding iterable body, h => by
      have hbody := behaves_statements body fun s hs => h.child hs
      rw [statement]
      intro d tidy
      refine (runs_expression layout iterable tidy).bind fun source d₁ k₁ hsource => ?_
      refine (behaves_readable (fun e he => h.fits.declares e (congrArg some he)) d₁ k₁.tidy).bind
        fun binding d₂ k₂ _ => ?_
      refine Runs.inScope k₂.tidy fun d₃ k₃ => ?_
      refine (Runs.declareLocal k₃.tidy _ _).bind fun declared d₄ k₄ hdeclared => ?_
      refine (Behaves.newNode d₄ k₄.tidy).bind fun header d₅ k₅ _ => ?_
      refine (Behaves.terminate _ d₅ k₅.tidy).seq fun d₆ k₆ => ?_
      refine (Behaves.switchTo _ d₆ k₆.tidy).seq fun d₇ k₇ => ?_
      refine (Runs.builtin k₇.tidy _ _).bind fun hasNext d₈ k₈ _ => ?_
      refine (Behaves.newNode d₈ k₈.tidy).bind fun bodyNode d₉ k₉ _ => ?_
      refine (Behaves.newNode d₉ k₉.tidy).bind fun exit d₁₀ k₁₀ _ => ?_
      refine (Behaves.terminate _ d₁₀ k₁₀.tidy).seq fun d₁₁ k₁₁ => ?_
      -- the source is known since before the scope, and is referred to only inside the loop
      have k := (((k₅.trans k₆).trans (k₇.trans k₈)).trans (k₉.trans k₁₀)).trans k₁₁
      have hdeclared := k.writable hdeclared
      have hsource := (((k₂.trans k₃).trans k₄).trans k).known hsource.1
      refine (Runs.inLoop k₁₁.tidy _ _ fun d₁₂ k₁₂ => ?_).seq fun d₁₂ k₁₂ =>
        Behaves.switchTo _ d₁₂ k₁₂.tidy
      refine (Behaves.switchTo _ d₁₂ k₁₂.tidy).seq fun d₁₃ k₁₃ => ?_
      have k := k₁₂.trans k₁₃
      have hsource := k.known hsource
      refine (Runs.refer k₁₃.tidy _ _ hsource (List.forall_mem_singleton.mpr hsource)).bind
        fun element d₁₄ k₁₄ helement => ?_
      have hdeclared := (k.trans k₁₄).writable hdeclared
      refine (Runs.assign k₁₄.tidy hdeclared.allows helement.known _).seq fun d₁₅ k₁₅ => ?_
      exact (hbody.seq (.terminate _)) d₁₅ k₁₅.tidy
  | .assert test message, h => by
      have htest : Behaves p (expression layout test) := fun _ tidy =>
        (runs_expression layout test tidy).imp fun _ _ _ => trivial
      rw [statement]
      refine htest.bind fun condition => Behaves.newNode.bind fun pass => ?_
      refine Behaves.newNode.bind fun fail => (Behaves.terminate _).seq ?_
      refine (Behaves.switchTo _).seq ((behaves_effect? layout message).seq ?_)
      exact (Behaves.terminate _).seq (.switchTo _)
  | .raise exception, h => by
      rw [statement]
      exact (behaves_effect? layout exception).seq (.terminate _)
  | .breakLoop, h => by
      rw [statement]
      exact .leaveTo _
  | .continueLoop, h => by
      rw [statement]
      exact .leaveTo _
  | .nop, h => by
      rw [statement]
      exact .nop

theorem behaves_statements : (ss : List Stmt) → (∀ s ∈ ss, s.Suits layout p) →
    Behaves p (statements layout ss)
  | [], h => by
      rw [statements]
      exact .pure
  | s :: rest, h => by
      obtain ⟨hs, hrest⟩ := List.forall_mem_cons.mp h
      rw [statements]
      exact (behaves_statement s hs).seq (behaves_statements rest hrest)

end

theorem behaves_declareAll : (bindings : List Binding) → Behaves p (declareAll bindings)
  | [] => .pure
  | _ :: rest =>
      Behaves.bind (fun _ tidy => (Runs.declareLocal tidy _ _).imp fun _ _ _ => trivial) fun _ =>
        (behaves_declareAll rest).bind fun _ => .pure

/-- Lowering a definition fails with an error that can be recorded, unless it writes to a fixed
place. -/
theorem Definition.behaves_lower (definition : Definition)
    (hparameters : ∀ e, definition.parameters = .error e → e.isFatal = false)
    (hbody : ∀ s ∈ definition.body, s.Suits layout p) : Behaves p (definition.lower layout) := by
  unfold Definition.lower
  split
  · next e he => exact .throw (hparameters e he)
  · next bindings _ =>
      refine (behaves_declareAll bindings).bind fun parameters => ?_
      have hlowered := behaves_statements layout definition.body hbody
      refine Behaves.seq (.modify fun d tidy => ?_) hlowered
      exact tidy.same ⟨rfl, rfl, rfl, rfl, rfl⟩

end Statements

end ContractCalls.Vyper
