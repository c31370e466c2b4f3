/-
# Why the lowering of Solidity fails

One lemma for each function of the lowering, in the order of the lowering: an
expression gives an operand that is there, which may be written unless the
expression is fixed, and every failure can be recorded unless a fixed expression
is written to.  Where control goes does not matter, so statements need no more
than that each of their parts behaves.
-/
import ContractCalls.Proofs.Body.Refusal
import ContractCalls.Proofs.Solidity.Target

namespace ContractCalls.Solidity

/-! ## What is asked of an expression -/

namespace Expr

/-- The expression writes to a fixed place only if `p` holds, and its operator is known. -/
structure Fits (env : Env) (p : Prop) (e : Expr) : Prop where
  places : ∀ place ∈ e.written, place.isFixed env = true → p
  tokens : ∀ {text token operand}, e = .unary text (.direct token) operand → token ∈ ["!", "~"]

/-- The expression and everything below it fits. -/
def Suits (env : Env) (p : Prop) (e : Expr) : Prop := ∀ s : Expr, s.Within e → s.Fits env p

theorem Suits.fits {env : Env} {p : Prop} {e : Expr} (h : e.Suits env p) : e.Fits env p := h e .refl

theorem Suits.child {env : Env} {p : Prop} {e c : Expr} (h : e.Suits env p)
    (hc : c ∈ e.children) : c.Suits env p :=
  fun s hs => h s (hs.tail hc)

end Expr

variable {p : Prop} {d : Draft}

theorem Expr.runs_ensure (e : Expr) (tidy : d.Tidy) : Runs p d e.ensure Ended := by
  unfold Expr.ensure
  split
  · exact .throw rfl
  · exact .pure tidy trivial

theorem Expr.runs_result {ok : OperandId → Arena → Prop} (e : Expr) {r : Option OperandId}
    (tidy : d.Tidy) (hr : ∀ id ∈ r, ok id d.body.arena) : Runs p d (e.result r) ok := by
  cases r with
  | none => exact .throw rfl
  | some id => exact .pure tidy (hr id rfl)

/-- An expression that has to have a result, and what is done with it. -/
theorem Expr.runs_bind {β : Type} {x : Build (Option OperandId)} {f : OperandId → Build β}
    {ok : OperandId → Arena → Prop} {ok' : β → Arena → Prop} (e : Expr)
    (hx : Runs p d x fun r a => ∀ id ∈ r, ok id a)
    (hf : ∀ id d', d.Keeps d' → ok id d'.body.arena → Runs p d' (f id) ok') :
    Runs p d (x >>= fun r => e.result r >>= f) ok' :=
  hx.require e.runs_result hf

/-! ## Operands of expressions -/

theorem Env.runs_identifier (env : Env) (tidy : d.Tidy) (text : TypeText) (name : String)
    (declaration : Option Int) :
    Runs p d (env.identifier text name declaration) fun id a =>
      a.Yields ((Expr.identifier text name declaration).isFixed env) id := by
  refine .get ?_
  split
  · next operand hdeclared =>
      obtain ⟨id, -, hid⟩ := Option.bind_eq_some_iff.mp hdeclared
      exact .pure tidy (tidy.declared id operand hid).yields
  · split
    · exact (Runs.state tidy _ _).imp fun _ _ hid => hid.yields
    · exact (Runs.state tidy _ _).imp fun _ _ hid => hid.yields
    · next decl hstate hconstant hdecl =>
        have hfixed : (Expr.identifier text name declaration).isFixed env = true := by
          rw [Expr.isFixed, hdecl]
          cases decl with
          | stateVariable declarer stored ty => exact absurd rfl (hstate declarer stored ty)
          | fileConstant stored ty => exact absurd rfl (hconstant stored ty)
          | _ => rfl
        rw [hfixed]
        exact (Runs.builtin tidy _ _).imp fun _ _ hid => Arena.Known.yields hid
    · next hdecl =>
        split
        · next hpre =>
            have hfixed : (Expr.identifier text name declaration).isFixed env = true := by
              simp only [Expr.isFixed, hdecl, hpre]
            rw [hfixed]
            exact (Runs.builtin tidy _ _).imp fun _ _ hid => Arena.Known.yields hid
        · split
          · next operand hlookup =>
              exact .pure tidy (tidy.lookup? hlookup).yields
          · exact .throw rfl

theorem runs_stepBy (tidy : d.Tidy) (operator : String) (givesOld : Bool) (ty : Ty)
    {target : OperandId} (htarget : d.body.arena.Allows p target) :
    Runs p d (stepBy operator givesOld ty target) fun id a => a.Writable id := by
  -- with or without a copy of the old value, the rest is the same
  have hrest : ∀ {old : Option OperandId} {d₁ : Draft}, d.Keeps d₁ →
      (∀ id ∈ old, d₁.body.arena.Writable id) → Runs p d₁ (do
        let one ← Build.constant (.uint 1) ty
        let updated ← Build.intrinsic (.binary operator) [target, one] ty
        Build.assign target updated ty
        return old.getD updated) fun id a => a.Writable id := by
    intro old d₁ k₁ hold
    have htarget := htarget.mono k₁.arena
    refine (Runs.constant k₁.tidy (.uint 1) ty).bind fun one d₂ k₂ hone => ?_
    have htarget := htarget.mono k₂.arena
    refine (Runs.intrinsic k₂.tidy _ (Arena.known_pair htarget.1 hone) ty).bind
      fun updated d₃ k₃ hupdated => ?_
    refine (Runs.assign k₃.tidy (htarget.mono k₃.arena) hupdated.known ty).seq fun d₄ k₄ => ?_
    refine .pure k₄.tidy ?_
    cases old with
    | none => exact k₄.writable hupdated
    | some copy => exact ((k₂.trans k₃).trans k₄).writable (hold copy rfl)
  unfold stepBy
  cases givesOld with
  | true =>
      refine (Runs.temporary tidy ty).bind fun copy d₁ k₁ hcopy => ?_
      refine (Runs.assign k₁.tidy hcopy.allows (k₁.known htarget.1) ty).bind fun _ d₂ k₂ hcopy => ?_
      exact .pureBind (hrest (k₁.trans k₂) fun id hid => Option.some.inj hid ▸ hcopy)
  | false => exact .pureBind (hrest (.refl tidy) fun _ h => by cases h)

theorem runs_applyUnary {env : Env} (tidy : d.Tidy) {text : TypeText} {form : UnaryForm}
    {e : Expr} (he : (Expr.unary text form e).Fits env p) (ty : Ty) {operand : OperandId}
    (hoperand : d.body.arena.Yields (e.isFixed env) operand) :
    Runs p d (applyUnary form ty operand) fun id a =>
      a.Yields ((Expr.unary text form e).isFixed env) id := by
  have hplace : form.writes = true → d.body.arena.Allows p operand := fun hwrites =>
    hoperand.allows (he.places e (by simp [Expr.written, hwrites]))
  cases form with
  | direct token =>
      exact (Runs.unary tidy (he.tokens rfl) hoperand.1 ty).imp fun _ _ hid => hid.yields
  | negate =>
      refine (Runs.constant tidy (.uint 0) ty).bind fun zero d₁ k₁ hzero => ?_
      have harguments := Arena.known_pair hzero (k₁.known hoperand.1)
      exact (Runs.intrinsic k₁.tidy _ harguments ty).imp fun _ _ hid => hid.yields
  | step operator givesOld =>
      exact (runs_stepBy tidy operator givesOld ty (hplace rfl)).imp fun _ _ hid => hid.yields
  | delete =>
      exact (Runs.delete tidy (hplace rfl)).bind fun _ d₁ k₁ hid => .pure k₁.tidy hid.yields
  | plain => exact .pure tidy hoperand

theorem runs_collect (tidy : d.Tidy) (isArray : Bool) (ty : Ty) {values : List OperandId}
    (hvalues : ∀ id ∈ values, d.body.arena.Known id) :
    Runs p d (collect isArray ty values) fun id a => a.Writable id := by
  have hlist : ∀ id d', d.Keeps d' → d'.body.arena.Writable id →
      Runs p d' (Build.intrinsicInto .initializer values id) Ended := fun id d' k hid =>
    .intrinsicInto k.tidy _ hid.allows fun other h => k.known (hvalues other h)
  cases isArray with
  | true => exact .giving (.temporary tidy ty) hlist
  | false => exact .giving (.tuple tidy ty) hlist

/-! ## Calls -/

theorem callArgs_arguments (names : List String) (arguments : List OperandId) :
    (callArgs names arguments).arguments = arguments := by
  unfold callArgs
  split <;> rfl

theorem runs_receive (tidy : d.Tidy) (use : ReceiverUse) (receiver : Expr)
    {value : Build (Option OperandId)} {args : CallArgs}
    (hargs : ∀ id ∈ args.arguments, d.body.arena.Known id)
    (hvalue : ∀ d' : Draft, d'.Tidy → Runs p d' value fun r a => ∀ id ∈ r, a.Known id) :
    Runs p d (receive use receiver value args) fun args a =>
      ∀ id ∈ args.arguments, a.Known id := by
  refine (receiver.runs_ensure tidy).seq fun d₁ k₁ => ?_
  cases use with
  | unused => exact .pure k₁.tidy fun id hid => k₁.known (hargs id hid)
  | evaluated =>
      refine (hvalue d₁ k₁.tidy).seq fun d₂ k₂ => .pure k₂.tidy ?_
      exact fun id hid => (k₁.trans k₂).known (hargs id hid)
  | attached =>
      refine receiver.runs_bind (hvalue d₁ k₁.tidy) fun id d₂ k₂ hid => .pure k₂.tidy ?_
      have hargs : ∀ id ∈ args.arguments, d₂.body.arena.Known id := fun id hid =>
        (k₁.trans k₂).known (hargs id hid)
      unfold attachReceiver
      split
      · exact hargs
      · exact List.forall_mem_cons.mpr ⟨hid, hargs⟩

theorem runs_emitCall (tidy : d.Tidy) (callee : Callee) {args : CallArgs}
    (hargs : ∀ id ∈ args.arguments, d.body.arena.Known id) (ty : Ty) :
    Runs p d (emitCall callee args ty) fun r a => ∀ id ∈ r, a.Writable id :=
  .callInto (.resultFor tidy ty) callee hargs (isRevert callee)

theorem runs_emitCreation (tidy : d.Tidy) (created ty : Ty) {arguments : List OperandId}
    (harguments : ∀ id ∈ arguments, d.body.arena.Known id) :
    Runs p d (emitCreation created ty arguments) fun id a => a.Writable id := by
  unfold emitCreation
  split
  · exact .intrinsic tidy _ harguments _
  · exact .newElementary tidy _ harguments

/-! ## Expressions -/

section Expressions

variable (env : Env)

mutual

theorem runs_value : (e : Expr) → e.Suits env p → {d : Draft} → d.Tidy →
    Runs p d (value env e) fun r a => ∀ id ∈ r, a.Yields (e.isFixed env) id
  | .absent field nodeType, h, d, tidy => by
      rw [value]
      exact .throw rfl
  | .literal text constant, h, d, tidy => by
      rw [value]
      exact Runs.yieldsFixed (.constant tidy constant _)
  | .identifier text name declaration, h, d, tidy => by
      rw [value]
      exact (env.runs_identifier tidy text name declaration).mapSome
  | .member text base name declaration, h, d, tidy => by
      have hbase : base.Suits env p := h.child List.mem_cons_self
      rw [value]
      refine (base.runs_ensure tidy).seq fun d₁ k₁ => ?_
      split
      · next hnamespace =>
          rw [Expr.isFixed, hnamespace]
          exact .yieldsFixed (.builtin k₁.tidy _ _)
      · refine base.runs_bind (runs_value base hbase k₁.tidy) fun object d₂ k₂ hobject => ?_
        exact Runs.yields (.refer k₂.tidy _ _ hobject.1 (List.forall_mem_singleton.mpr hobject.1))
  | .index text base key, h, d, tidy => by
      have hbase : base.Suits env p := h.child List.mem_cons_self
      have hkey : key.Suits env p := h.child (by simp [Expr.children])
      rw [value]
      refine base.runs_bind (runs_value base hbase tidy) fun object d₁ k₁ hobject => ?_
      refine key.runs_bind (runs_value key hkey k₁.tidy) fun position d₂ k₂ hposition => ?_
      have hobject := k₂.known hobject.1
      exact Runs.yields (.refer k₂.tidy _ _ hobject (Arena.known_pair hobject hposition.1))
  | .arrayType text base, h, d, tidy => by
      rw [value]
      exact Runs.yieldsFixed (.builtin tidy _ _)
  | .typeName text name, h, d, tidy => by
      rw [value]
      exact Runs.yieldsFixed (.builtin tidy _ _)
  | .creation text created, h, d, tidy => by
      rw [value]
      exact Runs.yieldsFixed (.builtin tidy _ _)
  | .range text base bounds, h, d, tidy => by
      have hbase : base.Suits env p := h.child List.mem_cons_self
      have hbounds : ∀ e ∈ bounds, e.Suits env p := fun e he => h.child (List.mem_cons_of_mem _ he)
      rw [value]
      refine base.runs_bind (runs_value base hbase tidy) fun object d₁ k₁ hobject => ?_
      refine (runs_values bounds hbounds k₁.tidy).bind fun limits d₂ k₂ hlimits => ?_
      have harguments := List.forall_mem_cons.mpr ⟨k₂.known hobject.1, hlimits⟩
      exact Runs.yields (.intrinsic k₂.tidy _ harguments _)
  | .binary text operator left right, h, d, tidy => by
      have hleft : left.Suits env p := h.child List.mem_cons_self
      have hright : right.Suits env p := h.child (by simp [Expr.children])
      rw [value]
      refine (left.runs_ensure tidy).seq fun d₁ k₁ => ?_
      refine (right.runs_ensure k₁.tidy).seq fun d₂ k₂ => ?_
      refine left.runs_bind (runs_value left hleft k₂.tidy) fun first d₃ k₃ hfirst => ?_
      refine right.runs_bind (runs_value right hright k₃.tidy) fun second d₄ k₄ hsecond => ?_
      exact Runs.yields (.intrinsic k₄.tidy _ (Arena.known_pair (k₄.known hfirst.1) hsecond.1) _)
  | .unary text form operand, h, d, tidy => by
      have hoperand : operand.Suits env p := h.child List.mem_cons_self
      rw [value]
      refine operand.runs_bind (runs_value operand hoperand tidy) fun id d₁ k₁ hid => ?_
      exact (runs_applyUnary k₁.tidy h.fits _ hid).mapSome
  | .assign text operator targetText target source, h, d, tidy => by
      have htarget : target.Suits env p := h.child List.mem_cons_self
      have hsource : source.Suits env p := h.child (by simp [Expr.children])
      rw [value]
      refine (target.runs_ensure tidy).seq fun d₁ k₁ => ?_
      refine source.runs_bind (runs_value source hsource k₁.tidy) fun computed d₂ k₂ hcomputed => ?_
      refine target.runs_bind (runs_value target htarget k₂.tidy) fun place d₃ k₃ hplace => ?_
      have hplace : d₃.body.arena.Allows p place :=
        hplace.allows (h.fits.places target List.mem_cons_self)
      have hcomputed := k₃.known hcomputed.1
      -- what is stored differs with the operator, not how it is stored
      have hstore : ∀ {d₄ : Draft} {stored : OperandId}, d₃.Keeps d₄ → d₄.body.arena.Known stored →
          Runs p d₄ (do Build.assign place stored (Ty.ofText? targetText); return some place)
            fun r a => ∀ id ∈ r, a.Yields false id := by
        intro d₄ stored k₄ hstored
        refine (Runs.assign k₄.tidy (hplace.mono k₄.arena) hstored _).bind
          fun _ d₅ k₅ hwritten => ?_
        exact .pure k₅.tidy fun id hid => Option.some.inj hid ▸ hwritten.yields
      cases operator with
      | none => exact hstore (.refl k₃.tidy) hcomputed
      | some operator =>
          refine (Runs.intrinsic k₃.tidy _ (Arena.known_pair hplace.1 hcomputed) _).bind ?_
          exact fun stored d₄ k₄ hstored => hstore k₄ hstored.known
  | .assignAll text targets source, h, d, tidy => by
      have hsource : source.Suits env p := h.child List.mem_cons_self
      have htargets : ∀ e ∈ targets.filterMap id, e.Suits env p := fun e he =>
        h.child (List.mem_cons_of_mem _ he)
      rw [value]
      refine source.runs_bind (runs_value source hsource tidy) fun computed d₁ k₁ hcomputed => ?_
      refine (runs_assignComponents 0 targets htargets h.fits.places k₁.tidy hcomputed.1).seq
        fun d₂ k₂ => .pure k₂.tidy fun id hid => ?_
      exact Option.some.inj hid ▸ hcomputed.mono k₂.arena
  | .conditional text condition yes no, h, d, tidy => by
      have hcondition : condition.Suits env p := h.child List.mem_cons_self
      have hyes : yes.Suits env p := h.child (by simp [Expr.children])
      have hno : no.Suits env p := h.child (by simp [Expr.children])
      rw [value]
      refine condition.runs_bind (runs_value condition hcondition tidy) fun test d₁ k₁ htest => ?_
      refine yes.runs_bind (runs_value yes hyes k₁.tidy) fun first d₂ k₂ hfirst => ?_
      refine no.runs_bind (runs_value no hno k₂.tidy) fun second d₃ k₃ hsecond => ?_
      have harguments := List.forall_mem_cons.mpr ⟨(k₂.trans k₃).known htest.1,
        Arena.known_pair (k₃.known hfirst.1) hsecond.1⟩
      exact Runs.yields (.intrinsic k₃.tidy _ harguments _)
  | .tuple text isArray components, h, d, tidy => by
      have hcomponents : ∀ e ∈ components.filterMap id, e.Suits env p := fun e he => h.child he
      -- parentheses: the only component of a tuple stands for the tuple
      by_cases hsingle : ∃ inner, isArray = false ∧ components = [some inner]
      · obtain ⟨inner, hflag, hinner⟩ := hsingle
        have hvalue := runs_component components hcomponents tidy inner (by simp [hinner])
        subst hflag hinner
        rw [value]
        exact hvalue
      · rw [value]
        · refine (runs_present components hcomponents tidy).bind fun operands d₁ k₁ hoperands => ?_
          exact Runs.yields (runs_collect k₁.tidy isArray _ hoperands)
        · intro inner hflag hinner
          exact hsingle ⟨inner, hflag, hinner⟩
  | .call text form options callee arguments names, h, d, tidy => by
      have hcallee : callee.Suits env p := h.child List.mem_cons_self
      have hoptions : ∀ e ∈ options, e.Suits env p := fun e he =>
        h.child (List.mem_cons_of_mem _ (List.mem_append_left _ he))
      have harguments : ∀ e ∈ arguments, e.Suits env p := fun e he =>
        h.child (List.mem_cons_of_mem _ (List.mem_append_right _ he))
      rw [value]
      refine (runs_effects options hoptions tidy).seq fun d₁ k₁ => ?_
      refine (callee.runs_ensure k₁.tidy).seq fun d₂ k₂ => ?_
      refine (runs_values arguments harguments k₂.tidy).bind fun operands d₃ k₃ hoperands => ?_
      have hargs : ∀ id ∈ (callArgs names operands).arguments, d₃.body.arena.Known id :=
        (callArgs_arguments names operands).symm ▸ hoperands
      cases form with
      | conversion => exact Runs.yields (.intrinsic k₃.tidy _ hoperands _)
      | construction => exact Runs.yields (.newStructure k₃.tidy _ hargs _)
      | ordinary =>
          -- whichever receiver the arguments are joined with
          have hcall : ∀ {receiver : Expr} (target : Callee) (use : ReceiverUse),
              (∀ d' : Draft, d'.Tidy → Runs p d' (value env receiver) fun r a =>
                ∀ id ∈ r, a.Yields (receiver.isFixed env) id) →
              Runs p d₃ (do
                emitCall target
                  (← receive use receiver (value env receiver) (callArgs names operands))
                  (Ty.ofText? text))
                fun r a => ∀ id ∈ r, a.Yields false id := by
            intro receiver target use hreceiver
            refine (runs_receive k₃.tidy use receiver hargs fun d' tidy' =>
              (hreceiver d' tidy').imp fun r a hr id hid => (hr id hid).1).bind
                fun args d₄ k₄ hargs => ?_
            exact (runs_emitCall k₄.tidy target hargs _).imp fun r a hr id hid => (hr id hid).yields
          have hvalue : ∀ d' : Draft, d'.Tidy → Runs p d' (value env callee) _ :=
            fun d' tidy' => runs_value callee hcallee tidy'
          cases callee with
          | creation _ created => exact Runs.yields (runs_emitCreation k₃.tidy _ _ hoperands)
          | member _ base _ _ =>
              have hbase : base.Suits env p := hcallee.child List.mem_cons_self
              exact hcall _ _ fun d' tidy' => runs_value base hbase tidy'
          | _ => exact hcall _ _ hvalue
  | .withOptions text function, h, d, tidy => by
      rw [value]
      exact runs_value function (h.child List.mem_cons_self) tidy
  | .unsupported text nodeType label, h, d, tidy => by
      rw [value]
      exact .throw rfl

theorem runs_values : (es : List Expr) → (∀ e ∈ es, e.Suits env p) → {d : Draft} → d.Tidy →
    Runs p d (values env es) fun ids a => ∀ id ∈ ids, a.Known id
  | [], h, d, tidy => by
      rw [values]
      exact .pure tidy (List.forall_mem_nil _)
  | e :: rest, h, d, tidy => by
      obtain ⟨he, hrest⟩ := List.forall_mem_cons.mp h
      rw [values]
      refine e.runs_bind (runs_value e he tidy) fun first d₁ k₁ hfirst => ?_
      refine (runs_values rest hrest k₁.tidy).bind fun ids d₂ k₂ hids => .pure k₂.tidy ?_
      exact List.forall_mem_cons.mpr ⟨k₂.known hfirst.1, hids⟩

theorem runs_present : (es : List (Option Expr)) → (∀ e ∈ es.filterMap id, e.Suits env p) →
    {d : Draft} → d.Tidy → Runs p d (present env es) fun ids a => ∀ id ∈ ids, a.Known id
  | [], h, d, tidy => by
      rw [present]
      exact .pure tidy (List.forall_mem_nil _)
  | none :: rest, h, d, tidy => by
      rw [present]
      exact runs_present rest h tidy
  | some e :: rest, h, d, tidy => by
      obtain ⟨he, hrest⟩ := List.forall_mem_cons.mp h
      rw [present]
      refine e.runs_bind (runs_value e he tidy) fun first d₁ k₁ hfirst => ?_
      refine (runs_present rest hrest k₁.tidy).bind fun ids d₂ k₂ hids => .pure k₂.tidy ?_
      exact List.forall_mem_cons.mpr ⟨k₂.known hfirst.1, hids⟩

theorem runs_component : (es : List (Option Expr)) → (∀ e ∈ es.filterMap id, e.Suits env p) →
    {d : Draft} → d.Tidy → (e : Expr) → some e ∈ es →
    Runs p d (value env e) fun r a => ∀ id ∈ r, a.Yields (e.isFixed env) id
  | [], _, _, _, _, hmem => absurd hmem List.not_mem_nil
  | none :: rest, h, d, tidy, e, hmem => by
      rcases List.mem_cons.mp hmem with hmem | hmem
      · cases hmem
      · exact runs_component rest h tidy e hmem
  | some first :: rest, h, d, tidy, e, hmem => by
      obtain ⟨hfirst, hrest⟩ := List.forall_mem_cons.mp h
      rcases List.mem_cons.mp hmem with hmem | hmem
      · cases hmem
        exact runs_value first hfirst tidy
      · exact runs_component rest hrest tidy e hmem

theorem runs_effects : (es : List Expr) → (∀ e ∈ es, e.Suits env p) → {d : Draft} → d.Tidy →
    Runs p d (effects env es) Ended
  | [], h, d, tidy => by
      rw [effects]
      exact .pure tidy trivial
  | e :: rest, h, d, tidy => by
      obtain ⟨he, hrest⟩ := List.forall_mem_cons.mp h
      rw [effects]
      exact (runs_value e he tidy).seq fun d₁ k₁ => runs_effects rest hrest k₁.tidy

theorem runs_assignComponents {source : OperandId} : (position : Nat) →
    (es : List (Option Expr)) → (∀ e ∈ es.filterMap id, e.Suits env p) →
    (∀ e ∈ es.filterMap id, e.isFixed env = true → p) → {d : Draft} → d.Tidy →
    d.body.arena.Known source → Runs p d (assignComponents env source position es) Ended
  | _, [], h, hfixed, d, tidy, hsource => by
      rw [assignComponents]
      exact .pure tidy trivial
  | position, none :: rest, h, hfixed, d, tidy, hsource => by
      rw [assignComponents]
      exact runs_assignComponents (position + 1) rest h hfixed tidy hsource
  | position, some e :: rest, h, hfixed, d, tidy, hsource => by
      obtain ⟨he, hrest⟩ := List.forall_mem_cons.mp h
      obtain ⟨hplace, hplaces⟩ := List.forall_mem_cons.mp hfixed
      rw [assignComponents]
      refine e.runs_bind (runs_value e he tidy) fun place d₁ k₁ hid => ?_
      have hsource := k₁.known hsource
      refine (Runs.intrinsicInto k₁.tidy _ (hid.allows hplace)
        (List.forall_mem_singleton.mpr hsource)).seq fun d₂ k₂ => ?_
      exact runs_assignComponents (position + 1) rest hrest hplaces k₂.tidy (k₂.known hsource)

end

theorem runs_expression (e : Expr) (h : e.Suits env p) (tidy : d.Tidy) :
    Runs p d (expression env e) fun id a => a.Known id := by
  refine (runs_value env e h tidy).bind fun r d₁ k₁ hr => ?_
  exact e.runs_result k₁.tidy fun id hid => (hr id hid).1

end Expressions

/-! ## Declarations -/

theorem runs_declare (tidy : d.Tidy) (decl : VarDecl) :
    Runs p d (declare decl) fun r a => ∀ id ∈ r, a.Writable id := by
  unfold declare
  split
  · exact .pure tidy fun _ h => by cases h
  · refine (Runs.declareLocal tidy decl.name decl.ty).bind fun operand d₁ k₁ hoperand => ?_
    have hsome : ∀ {d₂ : Draft}, d₁.Keeps d₂ →
        Runs p d₂ (pure (some operand)) fun r a => ∀ id ∈ r, a.Writable id := fun k₂ =>
      .pure k₂.tidy fun id hid => Option.some.inj hid ▸ k₂.writable hoperand
    cases decl.id with
    | none => exact hsome (.refl k₁.tidy)
    | some id =>
        refine (Runs.modify ?_).seq fun d₂ k₂ => hsome k₂
        exact ⟨{ k₁.tidy with declared := k₁.tidy.declared.insert hoperand id }, .refl _⟩

theorem behaves_declareAll : (decls : List VarDecl) → Behaves p (declareAll decls)
  | [] => .pure
  | decl :: rest =>
      Behaves.bind (fun _ tidy => (runs_declare tidy decl).imp fun _ _ _ => trivial) fun _ =>
        (behaves_declareAll rest).bind fun _ => .pure

theorem runs_declareComponents {source : Option OperandId} : (position : Nat) →
    (decls : List (Option VarDecl)) → {d : Draft} → d.Tidy →
    (∀ id ∈ source, d.body.arena.Known id) →
    Runs p d (declareComponents source position decls) Ended
  | _, [], d, tidy, hsource => .pure tidy trivial
  | position, none :: rest, d, tidy, hsource =>
      runs_declareComponents (position + 1) rest tidy hsource
  | position, some decl :: rest, d, tidy, hsource => by
      rw [declareComponents]
      refine (runs_declare tidy decl).bind fun place d₁ k₁ hplace => ?_
      have hrest : ∀ {d₂ : Draft}, d₁.Keeps d₂ →
          Runs p d₂ (declareComponents source (position + 1) rest) Ended := fun k₂ =>
        runs_declareComponents (position + 1) rest k₂.tidy fun id hid =>
          (k₁.trans k₂).known (hsource id hid)
      dsimp only
      split
      · next place tuple =>
          refine (Runs.intrinsicInto k₁.tidy _ (hplace place rfl).allows ?_).seq
            fun d₂ k₂ => hrest k₂
          exact List.forall_mem_singleton.mpr (k₁.known (hsource tuple rfl))
      · exact hrest (.refl k₁.tidy)

theorem runs_declareVariables (tidy : d.Tidy) (decls : List (Option VarDecl))
    {initial : Option OperandId} (hinitial : ∀ id ∈ initial, d.body.arena.Known id) :
    Runs p d (declareVariables decls initial) Ended := by
  unfold declareVariables
  split
  · next decl =>
      refine (runs_declare tidy decl).bind fun place d₁ k₁ hplace => ?_
      split
      · next place computed =>
          refine (Runs.assign k₁.tidy (hplace place rfl).allows ?_ _).imp fun _ _ _ => trivial
          exact k₁.known (hinitial computed rfl)
      · exact .pure k₁.tidy trivial
  · exact runs_declareComponents 0 decls tidy hinitial

/-! ## Statements -/

namespace Stmt

/-- Every expression in the statement fits. -/
def Suits (env : Env) (p : Prop) (s : Stmt) : Prop := ∀ e, s.Evaluates e → e.Fits env p

variable {env : Env} {s : Stmt}

theorem Suits.child {c : Stmt} (h : s.Suits env p) (hc : c ∈ s.children) : c.Suits env p :=
  fun e he => h e (he.child hc)

theorem Suits.expression {e : Expr} (h : s.Suits env p) (he : e ∈ s.expressions) : e.Suits env p :=
  fun part hpart => h part (.own he hpart)

end Stmt

section Statements

variable (env : Env)

theorem behaves_value (e : Expr) (h : e.Suits env p) : Behaves p (value env e) := fun _ tidy =>
  (runs_value env e h tidy).imp fun _ _ _ => trivial

theorem behaves_expression (e : Expr) (h : e.Suits env p) : Behaves p (expression env e) :=
  fun _ tidy => (runs_expression env e h tidy).imp fun _ _ _ => trivial

theorem runs_expression? (e : Option Expr) (h : ∀ x ∈ e.toList, x.Suits env p) (tidy : d.Tidy) :
    Runs p d (expression? env e) fun r a => ∀ id ∈ r, a.Known id := by
  cases e with
  | none => exact .pure tidy fun _ h => by cases h
  | some e => exact (runs_expression env e (h e (List.mem_singleton.mpr rfl)) tidy).mapSome

theorem behaves_returned (es : Option (List Expr)) (h : ∀ e ∈ es.getD [], e.Suits env p) :
    Behaves p (returned env es) := by
  intro d tidy
  cases es with
  | none => exact .get (.pure tidy trivial)
  | some es => exact (runs_values env es h tidy).imp fun _ _ _ => trivial

mutual

theorem behaves_statement : (s : Stmt) → s.Suits env p → Behaves p (statement env s)
  | .located span inner, h => by
      rw [statement]
      refine (Behaves.annotate span).seq ?_
      exact behaves_statement inner (h.child List.mem_cons_self)
  | .skip, h => by
      rw [statement]
      exact .pure
  | .block body, h => by
      rw [statement]
      exact .inScope (behaves_statements body fun s hs => h.child hs)
  | .expression e, h => by
      rw [statement]
      exact (behaves_value env e (h.expression List.mem_cons_self)).seq .pure
  | .declare declarations initial, h => by
      rw [statement]
      intro d tidy
      refine (runs_expression? env initial (fun e he => h.expression he) tidy).bind
        fun computed d₁ k₁ hcomputed => ?_
      exact runs_declareVariables k₁.tidy declarations hcomputed
  | .ifThen condition yes, h => by
      have hyes := behaves_statement yes (h.child List.mem_cons_self)
      have hcondition := behaves_expression env condition (h.expression List.mem_cons_self)
      rw [statement]
      refine hcondition.bind fun test => ?_
      refine Behaves.newNode.bind fun yesNode => Behaves.newNode.bind fun join => ?_
      refine (Behaves.terminate _).seq ((Behaves.switchTo _).seq (hyes.seq ?_))
      exact (Behaves.terminate _).seq (.switchTo _)
  | .ifElse condition yes no, h => by
      have hyes := behaves_statement yes (h.child List.mem_cons_self)
      have hno := behaves_statement no (h.child (by simp [Stmt.children]))
      have hcondition := behaves_expression env condition (h.expression List.mem_cons_self)
      rw [statement]
      refine hcondition.bind fun test => ?_
      refine Behaves.newNode.bind fun yesNode => Behaves.newNode.bind fun join => ?_
      refine Behaves.newNode.bind fun noNode => (Behaves.terminate _).seq ?_
      refine (Behaves.switchTo _).seq (hyes.seq ((Behaves.terminate _).seq ?_))
      refine (Behaves.switchTo _).seq (hno.seq ((Behaves.terminate _).seq ?_))
      exact .switchTo _
  | .whileLoop condition body, h => by
      have hbody := behaves_statement body (h.child List.mem_cons_self)
      have hcondition := behaves_expression env condition (h.expression List.mem_cons_self)
      rw [statement]
      refine Behaves.newNode.bind fun header => (Behaves.terminate _).seq ?_
      refine (Behaves.switchTo _).seq (hcondition.bind fun test => ?_)
      refine Behaves.newNode.bind fun bodyNode => Behaves.newNode.bind fun exit => ?_
      refine (Behaves.terminate _).seq (Behaves.seq (.inLoop ?_ _ _) (.switchTo _))
      exact (Behaves.switchTo _).seq (hbody.seq (.terminate _))
  | .doWhile body condition, h => by
      have hbody := behaves_statement body (h.child List.mem_cons_self)
      have hcondition := behaves_expression env condition (h.expression List.mem_cons_self)
      rw [statement]
      refine Behaves.newNode.bind fun bodyNode => Behaves.newNode.bind fun check => ?_
      refine Behaves.newNode.bind fun exit => (Behaves.terminate _).seq ?_
      refine Behaves.seq (.inLoop ?_ _ _) ?_
      · exact (Behaves.switchTo _).seq (hbody.seq (.terminate _))
      · refine (Behaves.switchTo _).seq (hcondition.bind fun test => ?_)
        exact (Behaves.terminate _).seq (.switchTo _)
  | .forLoop start condition next body, h => by
      have hstart := behaves_statement start (h.child List.mem_cons_self)
      have hnext := behaves_statement next (h.child (by simp [Stmt.children]))
      have hbody := behaves_statement body (h.child (by simp [Stmt.children]))
      have hcondition : Behaves p (expression? env condition) := fun _ tidy =>
        (runs_expression? env condition (fun e he => h.expression he) tidy).imp fun _ _ _ => trivial
      -- the loop is laid out the same with and without a condition
      have hloop : ∀ header bodyNode nextNode exit, Behaves p (do
          Build.inLoop nextNode exit do
            Build.switchTo bodyNode
            statement env body
            Build.goto nextNode
          Build.switchTo nextNode
          statement env next
          Build.goto header
          Build.switchTo exit) := by
        intro header bodyNode nextNode exit
        refine Behaves.seq (.inLoop ?_ _ _) ?_
        · exact (Behaves.switchTo _).seq (hbody.seq (.terminate _))
        · exact (Behaves.switchTo _).seq (hnext.seq ((Behaves.terminate _).seq (.switchTo _)))
      rw [statement]
      refine .inScope (hstart.seq (Behaves.newNode.bind fun header => ?_))
      refine (Behaves.terminate _).seq ((Behaves.switchTo _).seq ?_)
      refine Behaves.newNode.bind fun bodyNode => Behaves.newNode.bind fun nextNode => ?_
      refine Behaves.newNode.bind fun exit => hcondition.bind fun test => ?_
      cases test with
      | none => exact (Behaves.terminate _).seq (hloop header bodyNode nextNode exit)
      | some test => exact (Behaves.terminate _).seq (hloop header bodyNode nextNode exit)
  | .continueLoop, h => by
      rw [statement]
      exact .leaveTo _
  | .breakLoop, h => by
      rw [statement]
      exact .leaveTo _
  | .ret es, h => by
      rw [statement]
      exact (behaves_returned env es fun e he => h.expression he).bind fun ids => .terminate _
  | .revert none, h => by
      rw [statement]
      exact .terminate _
  | .revert (some e), h => by
      rw [statement]
      exact (behaves_value env e (h.expression List.mem_cons_self)).seq (.terminate _)
  | .tryCatch call cases, h => by
      rw [statement]
      intro d tidy
      refine (runs_value env call (h.expression List.mem_cons_self) tidy).bind
        fun result d₁ k₁ hresult => ?_
      refine (Behaves.newNode d₁ k₁.tidy).bind fun join d₂ k₂ _ => ?_
      refine (Runs.builtin k₂.tidy _ _).bind fun success d₃ k₃ _ => ?_
      have hresult : ∀ id ∈ result, d₃.body.arena.Known id := fun id hid =>
        (k₂.trans k₃).known (hresult id hid).1
      have hcases := runs_clauses success join cases (fun s hs => h.child hs) k₃.tidy hresult
      exact hcases.seq fun d₄ k₄ => Behaves.switchTo _ d₄ k₄.tidy
  | .nop, h => by
      rw [statement]
      exact .nop
  | .unsupported nodeType, h => by
      rw [statement]
      exact .throw rfl

theorem behaves_statements : (ss : List Stmt) → (∀ s ∈ ss, s.Suits env p) →
    Behaves p (statements env ss)
  | [], h => by
      rw [statements]
      exact .pure
  | s :: rest, h => by
      obtain ⟨hs, hrest⟩ := List.forall_mem_cons.mp h
      rw [statements]
      exact (behaves_statement s hs).seq (behaves_statements rest hrest)

/-- The operand with the result of the call has to be there until the first clause takes it apart,
so the draft counts. -/
theorem runs_clauses (success : OperandId) (join : NodeId) : {result : Option OperandId} →
    (cases : List Clause) → (∀ s ∈ cases.map Clause.body, s.Suits env p) → {d : Draft} → d.Tidy →
    (∀ id ∈ result, d.body.arena.Known id) →
    Runs p d (clauses env success join result cases) Ended
  | _, [], h, d, tidy, hresult => by
      rw [clauses]
      exact .pure tidy trivial
  | result, .clause parameters body :: rest, h, d, tidy, hresult => by
      obtain ⟨hbody, hrest⟩ := List.forall_mem_cons.mp h
      have hbody := behaves_statement body hbody
      have hclauses : Behaves p (clauses env success join none rest) := fun d' tidy' =>
        runs_clauses success join rest hrest tidy' fun _ hid => by cases hid
      rw [clauses]
      refine (Behaves.newNode d tidy).bind fun node d₁ k₁ _ => ?_
      -- where the last clause fails control goes to the join, else to a node for the next clause
      have hclause : ∀ {d₂ : Draft} (next : NodeId), d₁.Keeps d₂ → Runs p d₂ (do
          Build.branch success node next
          Build.switchTo node
          Build.inScope do
            declareComponents result 0 (parameters.map some)
            statement env body
          Build.goto join
          Build.switchTo next
          clauses env success join none rest) Ended := by
        intro d₂ next k₂
        refine (Behaves.terminate _ d₂ k₂.tidy).seq fun d₃ k₃ => ?_
        refine (Behaves.switchTo _ d₃ k₃.tidy).seq fun d₄ k₄ => ?_
        refine (Runs.inScope k₄.tidy fun d₅ k₅ => ?_).seq fun d₅ k₅ => ?_
        · have k := ((k₁.trans k₂).trans (k₃.trans k₄)).trans k₅
          exact (runs_declareComponents 0 (parameters.map some) k₅.tidy fun id hid =>
            k.known (hresult id hid)).seq fun d₆ k₆ => hbody d₆ k₆.tidy
        · exact ((Behaves.terminate _).seq ((Behaves.switchTo _).seq hclauses)) d₅ k₅.tidy
      dsimp only
      split
      · exact .pureBind (hclause join (.refl k₁.tidy))
      · exact (Behaves.newNode d₁ k₁.tidy).bind fun next d₂ k₂ _ => hclause next k₂

end

/-- Lowering a definition fails with an error that can be recorded, unless it writes to a fixed
place. -/
theorem Definition.behaves_lower (definition : Definition) (h : definition.body.Suits env p) :
    Behaves p (definition.lower env) := by
  refine (behaves_declareAll definition.parameters).bind fun parameters => ?_
  refine (behaves_declareAll definition.returns).bind fun returns => ?_
  refine Behaves.seq (.modify fun d tidy => ?_) (behaves_statement env definition.body h)
  exact tidy.same ⟨rfl, rfl, rfl, rfl, rfl⟩

end Statements

end ContractCalls.Solidity
