/-
# `super` calls

Inside `B`, the compiler resolves `super.f(...)` for `B` alone: it refers to the
first definition of that full name behind `B` in the linearization of `B`.  The
instance of the calling function in a contract `C` that inherits `B` calls the
instance, in `C`, of that very definition.

Execution goes to the first definition behind `B` in the linearization of `C`.
The two are the same function exactly if the definitions are the same, and in a
diamond they are not: a contract that `B` does not inherit can stand between
`B` and the definition that `B` refers to.
-/
import ContractCalls.Proofs.Solidity.Calls
import ContractCalls.Proofs.Solidity.Instances
import ContractCalls.Proofs.Solidity.Node

namespace ContractCalls.Solidity

/-! ## What follows in a linearization -/

/-- The definition is a function of a full name, as seen from the contract that declares it. -/
def isFunctionNamed (fullName declarer : String) (n : Node) : Bool :=
  let f := functionOf n none (some declarer) [] ""
  !f.isModifier && !f.isConstructor && f.fullName == fullName

/-- What a contract itself defines under a full name. -/
def Headers.definition? (h : Headers) (fullName : String) (base : ContractId) : Option Int := do
  let definition ← h.index.contract? base
  let contract ← h.unit.contract? base
  definition.definitions.find? fun d =>
    (h.index.definitions.get? d).any (isFunctionNamed fullName contract.name)

/-- The first definition of a full name behind `base` in the linearization of `viewer`. -/
def Headers.nextDefinition? (h : Headers) (viewer base : ContractId) (fullName : String) :
    Option Int := do
  let contract ← h.unit.contract? viewer
  (contract.linearization.dropWhile (· != base)).tail.findSome? (h.definition? fullName)

theorem Headers.declares_of_definition? {h : Headers} {fullName : String} {base : ContractId}
    {d : Int} (hd : h.definition? fullName base = some d) : h.Declares base d := by
  obtain ⟨definition, hdefinition, hd⟩ := Option.bind_eq_some_iff.1 hd
  obtain ⟨c, hc, hd⟩ := Option.bind_eq_some_iff.1 hd
  have hany := List.find?_some hd
  obtain ⟨n, hn, hfits⟩ := (Option.any_eq_true _ _).1 hany
  refine ⟨⟨definition, hdefinition, List.mem_of_find?_eq_some hd⟩, n, c.name, hn, by rw [hc]; rfl, ?_⟩
  intro hkind
  have hconstructor : (functionOf n none (some c.name) [] "").isConstructor = true := by
    show (functionKind n (some c.name) == .constructor) = true
    rw [hkind]
    rfl
  simp [isFunctionNamed, hconstructor] at hfits

theorem Headers.declares_of_nextDefinition? {h : Headers} {viewer base : ContractId} {c : Contract}
    {fullName : String} {d : Int} (hc : h.unit.contract? viewer = some c)
    (hd : h.nextDefinition? viewer base fullName = some d) :
    ∃ declarer ∈ c.linearization, h.Declares declarer d := by
  unfold Headers.nextDefinition? at hd
  rw [hc, Option.bind_eq_bind, Option.bind_some] at hd
  obtain ⟨declarer, hmem, hd⟩ := List.exists_of_findSome?_eq_some hd
  exact ⟨declarer, (List.dropWhile_sublist _).subset (List.mem_of_mem_tail hmem),
    h.declares_of_definition? hd⟩

/-- Building functions changes nothing about what follows. -/
theorem Headers.Grows.nextDefinition?_eq {h h' : Headers} (grows : h.Grows h')
    (viewer base : ContractId) (fullName : String) :
    h'.nextDefinition? viewer base fullName = h.nextDefinition? viewer base fullName := by
  have named (k : Headers) (base : ContractId) : k.definition? fullName base =
      (k.index.contract? base).bind fun definition =>
        ((k.unit.contract? base).map Contract.outline).bind fun o =>
          definition.definitions.find? fun d =>
            (k.index.definitions.get? d).any (isFunctionNamed fullName o.2.1) := by
    simp only [Option.bind_map]
    rfl
  have hdefinition : h'.definition? fullName = h.definition? fullName := by
    funext base
    simp only [named, Index.contract?, grows.contracts, grows.definitions, grows.outline_eq]
  have linear (k : Headers) : k.nextDefinition? viewer base fullName =
      ((k.unit.contract? viewer).map Contract.outline).bind fun o =>
        (o.2.2.dropWhile (· != base)).tail.findSome? (k.definition? fullName) := by
    rw [Option.bind_map]
    rfl
  rw [linear, linear, grows.outline_eq, hdefinition]

/-! ## Calls -/

/-- A `super` call calls the instance, in the context, of the definition it refers to. -/
theorem callsFunction_superCall {env : Env} {context : ContractId} {reference : Int}
    {id : FunctionId} (hcontext : env.context = some context)
    (hid : env.index.instance? (some context) reference = some id) {receiver : Expr}
    (hsuper : receiver.isSuper) (text memberText : TypeText) (options arguments : List Expr)
    (name : String) (names : List String) :
    CallsFunction env text options (.member memberText receiver name (some reference)) arguments
      names id := by
  have hcallee : env.memberCallee memberText receiver name (some reference) =
      (.internal id, .unused) := by
    simp [Env.memberCallee, hsuper, Env.inContext?, hcontext, hid, Env.internalOr]
  have hreceiver : receiver.ensure = pure () := by
    cases receiver with
    | identifier => rfl
    | _ => cases hsuper
  have hmember : (Expr.member memberText receiver name (some reference)).ensure = pure () := rfl
  refine callsFunction_of_value_eq ?_
  simp only [value, hmember, Env.resolve, hcallee, receive, hreceiver, pure_bind]

theorem Loader.IsResolved.instance_of_declares {l : Loader} (resolved : l.IsResolved)
    {context base : ContractId} {c : Contract} (hc : l.unit.contract? context = some c)
    (hbase : base ∈ c.linearization) {d : Int} (declares : l.headers.Declares base d) :
    ∃ id f, l.index.instance? (some context) d = some id ∧ l.unit.function? id = some f ∧
      f.context = some c.name ∧ f.astId = some d := by
  obtain ⟨id, hid⟩ := Option.isSome_iff_exists.1 (resolved.seats context c base d hc hbase declares)
  obtain ⟨f, n, hf, hn, hast, hcontext⟩ := resolved.seated.function ⟨some context, d⟩ id hid
  have hname : f.context = (l.unit.contract? context).map (·.name) := hcontext
  rw [hc] at hname
  exact ⟨id, f, hid, hf, hname, hast.trans (resolved.placed d n hn)⟩

/-- In every contract that inherits `base`, a `super` call in a function of `base` is lowered to a
call of the instance of the definition it refers to, the next one for `base` alone.  That is the
function of the next definition in the linearization of the context exactly if the two definitions
are the same. -/
theorem super_calls_reference {target : String} {sources : List SourceUnit}
    {policy : FailurePolicy} {parsed l : Loader}
    (hparse : Loader.parse.run (.new target sources policy) = (.ok (), parsed))
    (hresolve : Loader.resolve.run parsed = (.ok (), l))
    {context base : ContractId} {c b : Contract} (hc : l.unit.contract? context = some c)
    (hb : l.unit.contract? base = some b) (inherits : b.linearization ⊆ c.linearization)
    {fullName : String} {reference : Int}
    (hreference : l.headers.nextDefinition? base base fullName = some reference) :
    ∃ id f, l.index.instance? (some context) reference = some id ∧ l.unit.function? id = some f ∧
      f.context = some c.name ∧ f.astId = some reference ∧
      (∀ (env : Env) (receiver : Expr) (text memberText : TypeText) (options arguments : List Expr)
          (name : String) (names : List String),
        env.index = l.index → env.context = some context → receiver.isSuper →
        CallsFunction env text options (.member memberText receiver name (some reference)) arguments
          names id) ∧
      ∀ next, l.headers.nextDefinition? context base fullName = some next →
        (l.index.instance? (some context) next = some id ↔ next = reference) := by
  obtain ⟨-, resolved⟩ := Loader.resolved_of_run hparse hresolve
  obtain ⟨declarer, hdeclarer, declares⟩ := Headers.declares_of_nextDefinition? hb hreference
  obtain ⟨id, f, hid, hf, hcontext, hast⟩ :=
    resolved.instance_of_declares hc (inherits hdeclarer) declares
  refine ⟨id, f, hid, hf, hcontext, hast, ?_, ?_⟩
  · intro env receiver text memberText options arguments name names hindex henv hsuper
    exact callsFunction_superCall henv (hindex ▸ hid) hsuper text memberText options arguments name
      names
  · intro next _
    constructor
    · intro hnext
      exact congrArg Seat.definition (resolved.seated.apart _ _ id hnext hid)
    · intro heq
      rw [heq, hid]

/-! ## A diamond -/

/-- The tree of a function `f` without parameters. -/
def plainFunction (id : Int) (statements : List Json) : Json :=
  .object [("body", .object [("nodeType", .string "Block"), ("statements", .array statements)]),
    ("id", .ofInt id), ("implemented", .bool true), ("kind", .string "function"),
    ("name", .string "f"), ("nodeType", .string "FunctionDefinition")]

/-- The tree of `super`. -/
def superName : Json :=
  .object [("name", .string "super"), ("nodeType", .string "Identifier"),
    ("referencedDeclaration", .ofInt (-25))]

/-- The tree of `super.f`. -/
def superMember (reference : Int) : Json :=
  .object [("expression", superName), ("memberName", .string "f"),
    ("nodeType", .string "MemberAccess"), ("referencedDeclaration", .ofInt reference)]

/-- The tree of `super.f()`. -/
def superCall (reference : Int) : Json :=
  .object [("expression", superMember reference), ("kind", .string "functionCall"),
    ("nodeType", .string "FunctionCall")]

/-- The tree of `super.f();`. -/
def superStatement (reference : Int) : Json :=
  .object [("expression", superCall reference), ("nodeType", .string "ExpressionStatement")]

/-- The tree of a contract with the ids of its linearization. -/
def plainContract (id : Int) (name : String) (linearized : List Int) (members : List Json) : Json :=
  .object [("contractKind", .string "contract"), ("id", .ofInt id),
    ("linearizedBaseContracts", .ofList .ofInt linearized), ("name", .string name),
    ("nodeType", .string "ContractDefinition"), ("nodes", .array members)]

/-- `A` defines `f`, so do `B` and `D`, which inherit `A`; `C` is `D, B`. -/
def diamond : SourceUnit :=
  ⟨"d.sol", none, .object [("nodeType", .string "SourceUnit"), ("nodes", .array [
    plainContract 10 "A" [10] [plainFunction 11 []],
    plainContract 20 "B" [20, 10] [plainFunction 21 [superStatement 11]],
    plainContract 30 "D" [30, 10] [plainFunction 31 []],
    plainContract 40 "C" [40, 20, 30, 10] []])]⟩

/-- The diamond as registered. -/
@[irreducible] def parsedDiamond : Loader := (Loader.parse.run (.new "" [diamond] .stopOnFirst)).2

/-- The diamond when its bodies are about to be lowered. -/
@[irreducible] def resolvedDiamond : Loader := (Loader.resolve.run parsedDiamond).2

theorem parsedDiamond_run :
    Loader.parse.run (.new "" [diamond] .stopOnFirst) = (.ok (), parsedDiamond) := by
  have hok : (Loader.parse.run (.new "" [diamond] .stopOnFirst)).1 = .ok () := by decide +kernel
  rw [← hok, parsedDiamond, Prod.mk.eta]

theorem resolvedDiamond_run : Loader.resolve.run parsedDiamond = (.ok (), resolvedDiamond) := by
  have hok : (Loader.resolve.run parsedDiamond).1 = .ok () := by decide +kernel
  rw [← hok, resolvedDiamond, Prod.mk.eta]

theorem resolvedDiamond_grows : parsedDiamond.bareHeaders.Grows resolvedDiamond.headers :=
  (Loader.resolved_of_run parsedDiamond_run resolvedDiamond_run).1

/-- The linearizations of `B` and `C` in the diamond. -/
theorem diamond_linearizations :
    (resolvedDiamond.unit.contract? ⟨1⟩).map Contract.outline = some (⟨1⟩, "B", [⟨1⟩, ⟨0⟩]) ∧
    (resolvedDiamond.unit.contract? ⟨3⟩).map Contract.outline =
      some (⟨3⟩, "C", [⟨3⟩, ⟨1⟩, ⟨2⟩, ⟨0⟩]) := by
  constructor
  · exact (resolvedDiamond_grows.outline_eq ⟨1⟩).trans (by decide +kernel)
  · exact (resolvedDiamond_grows.outline_eq ⟨3⟩).trans (by decide +kernel)

theorem diamond_reference : resolvedDiamond.headers.nextDefinition? ⟨1⟩ ⟨1⟩ "f()" = some 11 :=
  (resolvedDiamond_grows.nextDefinition?_eq ⟨1⟩ ⟨1⟩ "f()").trans (by decide +kernel)

theorem diamond_next : resolvedDiamond.headers.nextDefinition? ⟨3⟩ ⟨1⟩ "f()" = some 31 :=
  (resolvedDiamond_grows.nextDefinition?_eq ⟨3⟩ ⟨1⟩ "f()").trans (by decide +kernel)

/-- In `C` the call of `super.f` in `B.f` is a call of `A.f`. -/
theorem diamond_super_calls_reference :
    Loader.parse.run (.new "" [diamond] .stopOnFirst) = (.ok (), parsedDiamond) ∧
    Loader.resolve.run parsedDiamond = (.ok (), resolvedDiamond) ∧
    ∃ f, resolvedDiamond.index.instance? (some ⟨3⟩) 11 = some ⟨7⟩ ∧
      resolvedDiamond.unit.function? ⟨7⟩ = some f ∧ f.context = some "C" ∧ f.astId = some 11 ∧
      CallsFunction ⟨resolvedDiamond.unit, resolvedDiamond.index, some ⟨3⟩⟩ none []
        (.member none (.identifier none "super" (some (-25))) "f" (some 11)) [] [] ⟨7⟩ ∧
      ((value ⟨resolvedDiamond.unit, resolvedDiamond.index, some ⟨3⟩⟩
          (.call none .ordinary [] (.member none (.identifier none "super" (some (-25))) "f" (some 11))
            [] [])).run (.start .start)).2.body.callees = [.internal ⟨7⟩] := by
  obtain ⟨b, hb, houtline⟩ := Option.map_eq_some_iff.1 diamond_linearizations.1
  obtain ⟨c, hc, houtline'⟩ := Option.map_eq_some_iff.1 diamond_linearizations.2
  have hbases : b.linearization = [⟨1⟩, ⟨0⟩] := congrArg (·.2.2) houtline
  have hbases' : c.linearization = [⟨3⟩, ⟨1⟩, ⟨2⟩, ⟨0⟩] := congrArg (·.2.2) houtline'
  have hname : c.name = "C" := congrArg (·.2.1) houtline'
  obtain ⟨id, f, hid, hf, hcontext, hast, hcalls, -⟩ :=
    super_calls_reference parsedDiamond_run resolvedDiamond_run hc hb
      (by rw [hbases, hbases']; decide) diamond_reference
  have hseven : resolvedDiamond.index.instance? (some ⟨3⟩) 11 = some ⟨7⟩ := by decide +kernel
  obtain rfl := Option.some.inj (hid.symm.trans hseven)
  exact ⟨parsedDiamond_run, resolvedDiamond_run, f, hid, hf, hname ▸ hcontext, hast,
    hcalls ⟨_, _, _⟩ (.identifier none "super" (some (-25))) none none [] [] "f" [] rfl rfl rfl,
    by decide +kernel⟩

theorem ofNode_superName :
    Expr.ofNode ⟨.compact, superName⟩ = .identifier none "super" (some (-25)) := by
  rw [Expr.ofNode]
  rfl

theorem ofNode_superMember : Expr.ofNode ⟨.compact, superMember 11⟩ =
    .member none (.identifier none "super" (some (-25))) "f" (some 11) := by
  have hreceiver : Node.field? ⟨.compact, superMember 11⟩ "expression" =
      some ⟨.compact, superName⟩ := rfl
  rw [Expr.ofNode]
  simp only [Node.mapField_eq, hreceiver, Option.map_some, ofNode_superName]
  rfl

theorem ofNode_superCall : Expr.ofNode ⟨.compact, superCall 11⟩ =
    .call none .ordinary [] (.member none (.identifier none "super" (some (-25))) "f" (some 11))
      [] [] := by
  have hcallee : Node.field? ⟨.compact, superCall 11⟩ "expression" =
      some ⟨.compact, superMember 11⟩ := rfl
  have hmember : Expr.calleeOfNode ⟨.compact, superMember 11⟩ =
      ([], .member none (.identifier none "super" (some (-25))) "f" (some 11)) := by
    rw [Expr.calleeOfNode, ofNode_superMember]
    rfl
  rw [Expr.ofNode]
  simp only [Node.mapField_eq, hcallee, Option.map_some, hmember]
  rfl

theorem ofNode?_superFunction (files : List String) :
    Definition.ofNode? (·.span? files "") ⟨.compact, plainFunction 21 [superStatement 11]⟩ =
      some ⟨[], [], .located none (.block [.located none (.expression
        (.call none .ordinary [] (.member none (.identifier none "super" (some (-25))) "f" (some 11))
          [] []))])⟩ := by
  have hbody : Node.field? ⟨.compact, plainFunction 21 [superStatement 11]⟩ "body" =
      some ⟨.compact, .object [("nodeType", .string "Block"),
        ("statements", .array [superStatement 11])]⟩ := rfl
  have hstatements : Node.fields ⟨.compact, .object [("nodeType", .string "Block"),
      ("statements", .array [superStatement 11])]⟩ "statements" =
        [⟨.compact, superStatement 11⟩] := rfl
  have hcall : Stmt.ofPart ⟨.compact, superStatement 11⟩ "expression" =
      .expression (.ofNode ⟨.compact, superCall 11⟩) := rfl
  rw [Definition.ofNode?, hbody, Option.map_some, Stmt.ofNode]
  simp only [Node.mapFields_eq, hstatements]
  rw [List.map_singleton, Stmt.ofNode, ← ofNode_superCall, ← hcall]
  rfl

/-- In the diamond, the next definition behind `B` is that of `A` for `B` alone and that of `D` in
`C`; the body of `B.f` in `C` calls `A.f` and not `D.f`. -/
theorem diamond_super_skips_next :
    resolvedDiamond.headers.nextDefinition? ⟨1⟩ ⟨1⟩ "f()" = some 11 ∧
    resolvedDiamond.headers.nextDefinition? ⟨3⟩ ⟨1⟩ "f()" = some 31 ∧
    resolvedDiamond.index.instance? (some ⟨3⟩) 31 = some ⟨6⟩ ∧
    ((resolvedDiamond.lowerDefinition (some ⟨3⟩) ""
        ⟨.compact, plainFunction 21 [superStatement 11]⟩ .start).1.toOption.join.map
      fun body => body.operations.filterMap (·.callee?)) = some [.internal ⟨7⟩] := by
  refine ⟨diamond_reference, diamond_next, by decide +kernel, ?_⟩
  unfold Loader.lowerDefinition
  rw [ofNode?_superFunction]
  decide +kernel

end ContractCalls.Solidity
