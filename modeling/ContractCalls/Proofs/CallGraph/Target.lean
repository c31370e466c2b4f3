/-
# Every call of a body becomes one target

Collecting the call sites of a function sorts the callees of its body into
three lists; reading call targets goes through the lists again.  Both split by
the form of the callee.  Here they are put together: each list holds the
callees of its kind, each once and in the order in which they first occur
(`internal_collectCalls` and the two lemmas beside it), and every callee in a
list has the target of its form (`TargetOf`), so nothing of the body is lost or
doubled on the way.

What is collected depends on the callees alone, so it stays the same when the
call sites are collected again, or from the converted body.
-/
import ContractCalls.CallGraph.Target
import ContractCalls.Proofs.Body.Calls
import ContractCalls.Proofs.SingleAssignment.Frame

namespace ContractCalls

namespace Callee

/-- The callee is listed among those of libraries. -/
def isLibrary : Callee → Bool
  | .library _ | .unresolved .library _ => true
  | _ => false

/-- What is no expression form belongs to one of the three lists. -/
theorem isIntrinsic_eq_false_iff (c : Callee) :
    c.isIntrinsic = false ↔ c.isInternal ∨ c.isLibrary ∨ c.isHighLevel := by
  cases c with
  | unresolved edge label => cases edge <;> simp [isIntrinsic, isInternal, isLibrary, isHighLevel]
  | _ => simp [isIntrinsic, isInternal, isLibrary, isHighLevel]

/-- It belongs to one of them only. -/
theorem kinds_disjoint (c : Callee) :
    ¬ (c.isInternal ∧ c.isLibrary) ∧ ¬ (c.isInternal ∧ c.isHighLevel) ∧
      ¬ (c.isLibrary ∧ c.isHighLevel) := by
  cases c with
  | unresolved edge label => cases edge <;> simp [isInternal, isLibrary, isHighLevel]
  | _ => simp [isInternal, isLibrary, isHighLevel]

end Callee

/-! ## Collecting -/

/-- Each element of a list once, where it first occurs. -/
theorem nodup_eraseDups {α : Type} [DecidableEq α] (xs : List α) : xs.eraseDups.Nodup := by
  induction xs using List.reverseRecOn with
  | nil => exact List.nodup_nil
  | append_singleton xs x ih =>
      rw [List.eraseDups_append]
      by_cases hx : x ∈ xs
      · simpa [List.removeAll, hx] using ih
      · have hlast : ([x].removeAll xs).eraseDups = [x] := by
          simp [List.removeAll, hx, List.eraseDups_cons]
        rw [hlast]
        refine List.nodup_append.mpr ⟨ih, List.nodup_singleton x, ?_⟩
        rintro a ha b hb rfl
        exact hx (List.mem_eraseDups.mp (List.mem_singleton.mp hb ▸ ha))

namespace Body

/-- The callees of a kind, each once, in the order in which they first occur. -/
def firstCalls (b : Body) (kind : Callee → Bool) : List Callee :=
  ((b.operations.filterMap (·.callee?)).filter kind).eraseDups

theorem nodup_firstCalls (b : Body) (kind : Callee → Bool) : (b.firstCalls kind).Nodup :=
  nodup_eraseDups _

theorem mem_firstCalls {b : Body} {kind : Callee → Bool} {c : Callee} :
    c ∈ b.firstCalls kind ↔ (∃ op ∈ b.operations, op.callee? = some c) ∧ kind c := by
  rw [firstCalls, List.mem_eraseDups, List.mem_filter, List.mem_filterMap]

end Body

namespace Function

theorem foldl_addOnce (callees : List Callee) : callees.foldl addOnce [] = callees.eraseDups := by
  induction callees using List.reverseRecOn with
  | nil => rfl
  | append_singleton callees callee ih =>
      rw [List.foldl_append, ih, List.eraseDups_append, List.foldl_cons, List.foldl_nil, addOnce]
      by_cases h : callee ∈ callees
      · simp [List.removeAll, h]
      · simp [List.removeAll, h, List.eraseDups_cons]

/-- Where recording adds the callees of a kind to a list, the list ends up with these. -/
theorem foldl_recordCallee {list : CallSites → List Callee} {kind : Callee → Bool}
    (hrecord : ∀ calls callee, list (recordCallee calls callee) =
      if kind callee then addOnce (list calls) callee else list calls)
    (callees : List Callee) (calls : CallSites) :
    list (callees.foldl recordCallee calls) = (callees.filter kind).foldl addOnce (list calls) := by
  induction callees generalizing calls with
  | nil => rfl
  | cons callee callees ih =>
      rw [List.foldl_cons, ih, hrecord, List.filter_cons]
      split <;> rfl

section Collected

variable {f : Function} {body : Body}

theorem calls_collectCalls (hbody : f.body = some body) :
    f.collectCalls.calls = (body.operations.filterMap (·.callee?)).foldl recordCallee
      ⟨f.calls.modifiers, f.calls.baseConstructors, [], [], []⟩ := by
  unfold collectCalls
  rw [hbody]

theorem list_collectCalls (hbody : f.body = some body) {list : CallSites → List Callee}
    {kind : Callee → Bool}
    (hrecord : ∀ calls callee, list (recordCallee calls callee) =
      if kind callee then addOnce (list calls) callee else list calls)
    (hempty : list ⟨f.calls.modifiers, f.calls.baseConstructors, [], [], []⟩ = []) :
    list f.collectCalls.calls = body.firstCalls kind := by
  rw [calls_collectCalls hbody, foldl_recordCallee hrecord, hempty, foldl_addOnce, Body.firstCalls]

theorem internal_collectCalls (hbody : f.body = some body) :
    f.collectCalls.calls.internal = body.firstCalls Callee.isInternal := by
  refine list_collectCalls hbody (fun calls callee => ?_) rfl
  unfold recordCallee
  split <;> rfl

theorem library_collectCalls (hbody : f.body = some body) :
    f.collectCalls.calls.library = body.firstCalls Callee.isLibrary := by
  refine list_collectCalls hbody (fun calls callee => ?_) rfl
  unfold recordCallee
  split <;> rfl

theorem highLevel_collectCalls (hbody : f.body = some body) :
    f.collectCalls.calls.highLevel = body.firstCalls Callee.isHighLevel := by
  refine list_collectCalls hbody (fun calls callee => ?_) rfl
  unfold recordCallee
  split <;> rfl

/-- Recording callees leaves the lists of the header alone. -/
theorem header_collectCalls (f : Function) :
    f.collectCalls.calls.modifiers = f.calls.modifiers ∧
      f.collectCalls.calls.baseConstructors = f.calls.baseConstructors := by
  cases hbody : f.body with
  | none =>
      unfold collectCalls
      rw [hbody]
      exact ⟨rfl, rfl⟩
  | some body =>
      rw [calls_collectCalls hbody]
      refine foldl_keeps (P := fun calls : CallSites => calls.modifiers = f.calls.modifiers ∧
        calls.baseConstructors = f.calls.baseConstructors) ⟨rfl, rfl⟩ fun calls callee _ h => ?_
      unfold recordCallee
      split <;> exact h

/-- What is collected depends on the header and on the callees of the body. -/
theorem calls_collectCalls_congr {g : Function} {body' : Body} (hbody : f.body = some body)
    (hbody' : g.body = some body') (hmodifiers : g.calls.modifiers = f.calls.modifiers)
    (hbases : g.calls.baseConstructors = f.calls.baseConstructors)
    (hcallees : body'.operations.filterMap (·.callee?) = body.operations.filterMap (·.callee?)) :
    g.collectCalls.calls = f.collectCalls.calls := by
  rw [calls_collectCalls hbody, calls_collectCalls hbody', hcallees, hmodifiers, hbases]

end Collected

end Function

/-! ## Reading the lists -/

namespace CallTarget

/-- The target of a function id over an edge: the function under its display name, or the id where
there is no function of it. -/
inductive OfFunction (u : Compilation) (edge : EdgeKind) (contract : Option String)
    (id : FunctionId) : CallTarget → Prop
  | known {callee : Function} : u.function? id = some callee →
      OfFunction u edge contract id ⟨.function, callee.displayName, edge, .function id, contract⟩
  | missing : u.function? id = none →
      OfFunction u edge contract id ⟨.unknown, id.render, edge, .unknown, contract⟩

/-- The target of a callee. -/
inductive TargetOf (u : Compilation) : Callee → CallTarget → Prop
  | internal {id : FunctionId} {t : CallTarget} : OfFunction u .internal none id t →
      TargetOf u (.internal id) t
  | builtin {name : String} :
      TargetOf u (.builtin name) ⟨.solidity, name, .solidity, .builtin name, none⟩
  | library {id : FunctionId} {t : CallTarget} : OfFunction u .library none id t →
      TargetOf u (.library id) t
  | unresolvedInternal {label : String} :
      TargetOf u (.unresolved .internal label) ⟨.unknown, label, .internal, .unknown, none⟩
  | unresolvedLibrary {label : String} :
      TargetOf u (.unresolved .library label) ⟨.unknown, label, .library, .unknown, none⟩
  | external {contract : Option String} {id : FunctionId} {t : CallTarget} :
      OfFunction u .external contract id t → TargetOf u (.highLevel contract (.function id)) t
  | getter {contract : Option String} {name : String} :
      TargetOf u (.highLevel contract (.getter name))
        ⟨.stateVar, contract.elim name (· ++ "." ++ name), .external, .getter name, contract⟩
  | unresolvedExternal {contract : Option String} {label : String} :
      TargetOf u (.highLevel contract (.unresolved label))
        ⟨.unknown, contract.elim label (· ++ "." ++ label), .external, .unknown, contract⟩

theorem edge_function (u : Compilation) (id : FunctionId) (edge : EdgeKind) :
    (function u id edge).edge = edge := by
  unfold function
  split <;> rfl

theorem ofFunction_function (u : Compilation) (id : FunctionId) (edge : EdgeKind) :
    OfFunction u edge none id (function u id edge) := by
  unfold function
  split
  · next hcallee => exact .known hcallee
  · next hnone => exact .missing hnone

theorem OfFunction.withContract {u : Compilation} {edge : EdgeKind} {id : FunctionId}
    {t : CallTarget} (h : OfFunction u edge none id t) (contract : Option String) :
    OfFunction u edge contract id { t with contract } := by
  cases h with
  | known hcallee => exact .known hcallee
  | missing hnone => exact .missing hnone

theorem qualified_eq (contract : Option String) (name : String) :
    qualified contract name = contract.elim name (· ++ "." ++ name) := by
  cases contract <;> rfl

section Lists

variable (u : Compilation) {c : Callee}

theorem exists_ofInternal? (h : c.isInternal) : ∃ t, ofInternal? u c = some t ∧ TargetOf u c t := by
  cases c with
  | internal id => exact ⟨_, rfl, .internal (ofFunction_function u id .internal)⟩
  | builtin name => exact ⟨_, rfl, .builtin⟩
  | unresolved edge label =>
      cases edge with
      | internal => exact ⟨_, rfl, .unresolvedInternal⟩
      | library => cases h
  | library | highLevel | intrinsic => cases h

theorem exists_ofLibrary? (h : c.isLibrary) : ∃ t, ofLibrary? u c = some t ∧ TargetOf u c t := by
  cases c with
  | library id => exact ⟨_, rfl, .library (ofFunction_function u id .library)⟩
  | unresolved edge label =>
      cases edge with
      | internal => cases h
      | library => exact ⟨_, rfl, .unresolvedLibrary⟩
  | internal | builtin | highLevel | intrinsic => cases h

theorem exists_ofHighLevel? (h : c.isHighLevel) :
    ∃ t, ofHighLevel? u c = some t ∧ TargetOf u c t := by
  cases c with
  | highLevel contract target =>
      cases target with
      | function id =>
          exact ⟨_, rfl, .external ((ofFunction_function u id .external).withContract contract)⟩
      | getter name => exact ⟨_, rfl, qualified_eq contract name ▸ .getter⟩
      | unresolved label => exact ⟨_, rfl, qualified_eq contract label ▸ .unresolvedExternal⟩
  | internal | builtin | library | unresolved | intrinsic => cases h

theorem forall₂_ofFunction (edge : EdgeKind) (ids : List FunctionId) :
    List.Forall₂ (OfFunction u edge none) ids (ids.map (function u · edge)) :=
  List.forall₂_map_right_iff.mpr (List.forall₂_same.mpr fun id _ => ofFunction_function u id edge)

end Lists

/-- A list of callees that all have a target is read into as many targets. -/
theorem forall₂_targetOf {u : Compilation} {read : Callee → Option CallTarget}
    {callees : List Callee} (h : ∀ c ∈ callees, ∃ t, read c = some t ∧ TargetOf u c t) :
    List.Forall₂ (TargetOf u) callees (callees.filterMap read) := by
  induction callees with
  | nil => exact .nil
  | cons c callees ih =>
      obtain ⟨t, ht, htarget⟩ := h c List.mem_cons_self
      rw [List.filterMap_cons, ht]
      exact .cons htarget (ih fun c hc => h c (List.mem_cons_of_mem _ hc))

end CallTarget

open CallTarget

/-! ## Calls and targets -/

/-- The calls of the body are classified, each once. -/
structure ClassifiesCalls (u : Compilation) (f : Function) (body : Body) : Prop where
  /-- The targets in order: the header, then the callees of each list as they first occur. -/
  targets : ∃ modifiers bases internal library external : List CallTarget,
    u.callTargets f.collectCalls = modifiers ++ bases ++ internal ++ library ++ external ∧
    List.Forall₂ (OfFunction u .modifier none) f.calls.modifiers modifiers ∧
    List.Forall₂ (OfFunction u .baseConstructor none) f.calls.baseConstructors bases ∧
    List.Forall₂ (TargetOf u) (body.firstCalls Callee.isInternal) internal ∧
    List.Forall₂ (TargetOf u) (body.firstCalls Callee.isLibrary) library ∧
    List.Forall₂ (TargetOf u) (body.firstCalls Callee.isHighLevel) external
  /-- Every callee of the body stands in the lists once, and nothing else does. -/
  once : ∀ c, (body.firstCalls Callee.isInternal ++ body.firstCalls Callee.isLibrary ++
    body.firstCalls Callee.isHighLevel).count c =
      if c.isIntrinsic = false ∧ ∃ op ∈ body.operations, op.callee? = some c then 1 else 0
  modifiers : f.collectCalls.calls.modifiers = f.calls.modifiers
  baseConstructors : f.collectCalls.calls.baseConstructors = f.calls.baseConstructors
  /-- Collecting again changes nothing. -/
  again : f.collectCalls.collectCalls.calls = f.collectCalls.calls
  /-- The same is collected from the converted body. -/
  converted : ∀ body', body.toSsa = (.ok (), body') →
    { f with body := some body' }.collectCalls.calls = f.collectCalls.calls

theorem count_firstCalls (body : Body) (c : Callee) :
    (body.firstCalls Callee.isInternal ++ body.firstCalls Callee.isLibrary ++
      body.firstCalls Callee.isHighLevel).count c =
      if c.isIntrinsic = false ∧ ∃ op ∈ body.operations, op.callee? = some c then 1 else 0 := by
  have hone (kind : Callee → Bool) := List.Nodup.count (a := c) (body.nodup_firstCalls kind)
  obtain ⟨h₁, h₂, h₃⟩ := c.kinds_disjoint
  simp only [List.count_append, hone, c.isIntrinsic_eq_false_iff, Body.mem_firstCalls]
  by_cases hop : ∃ op ∈ body.operations, op.callee? = some c
  · by_cases hi : c.isInternal <;> by_cases hl : c.isLibrary <;> by_cases hh : c.isHighLevel <;>
      simp_all
  · simp [hop]

/-- Whatever its header lists, the calls of a function with a body are classified, each once. -/
theorem collectCalls_classifies (u : Compilation) {f : Function} {body : Body}
    (hbody : f.body = some body) : ClassifiesCalls u f body := by
  obtain ⟨hmodifiers, hbases⟩ := f.header_collectCalls
  have htargets {kind : Callee → Bool} {read : Callee → Option CallTarget}
      (h : ∀ c, kind c → ∃ t, read c = some t ∧ TargetOf u c t) :
      List.Forall₂ (TargetOf u) (body.firstCalls kind) ((body.firstCalls kind).filterMap read) :=
    forall₂_targetOf fun c hc => h c (Body.mem_firstCalls.mp hc).2
  refine ⟨⟨_, _, _, _, _, rfl, ?_, ?_, ?_, ?_, ?_⟩, count_firstCalls body, hmodifiers, hbases, ?_, ?_⟩
  · rw [hmodifiers]
    exact forall₂_ofFunction u .modifier _
  · rw [hbases]
    exact forall₂_ofFunction u .baseConstructor _
  · rw [Function.internal_collectCalls hbody]
    exact htargets fun c => exists_ofInternal? u
  · rw [Function.library_collectCalls hbody]
    exact htargets fun c => exists_ofLibrary? u
  · rw [Function.highLevel_collectCalls hbody]
    exact htargets fun c => exists_ofHighLevel? u
  · exact Function.calls_collectCalls_congr hbody (f.collectCalls_body.trans hbody) hmodifiers hbases
      rfl
  · exact fun body' h => Function.calls_collectCalls_congr hbody rfl rfl rfl (Body.callees_toSsa h)

/-- Two calls of one function around a builtin, and behind the return a library that is called
where no path leads. -/
def relayBody : Body :=
  let call (callee : Callee) : Operation := .call (.positional []) none callee
  { Body.empty with
    nodes := #[⟨⟨0⟩, [], [call (.internal ⟨1⟩), call (.builtin "gasleft()"), call (.internal ⟨1⟩),
        call (.highLevel (some "Token") (.getter "supply"))], .ret [], none⟩,
      ⟨⟨1⟩, [], [call (.library ⟨2⟩), call (.unresolved .internal "hook")], .ret [], none⟩]
    entry := some ⟨0⟩ }

/-- A function with a modifier and with calls from an earlier look at another body. -/
def relay : Function :=
  { Function.new "relay" .function with
    calls := ⟨[⟨5⟩], [], [.internal ⟨9⟩], [], []⟩
    body := some relayBody }

/-- A compilation with the functions that are called, but without the modifier. -/
def relayUnit : Compilation :=
  { Compilation.new "relay.sol" .solidity with
    functions := #[relay, { Function.new "step" .function with id := ⟨1⟩ },
      { Function.new "min" .function with id := ⟨2⟩ }] }

theorem relay_classifies :
    relay.body = some relayBody ∧ ClassifiesCalls relayUnit relay relayBody ∧
      relayUnit.callTargets relay.collectCalls =
        [⟨.unknown, "fn5", .modifier, .unknown, none⟩,
          ⟨.function, "step()", .internal, .function ⟨1⟩, none⟩,
          ⟨.solidity, "gasleft()", .solidity, .builtin "gasleft()", none⟩,
          ⟨.unknown, "hook", .internal, .unknown, none⟩,
          ⟨.function, "min()", .library, .function ⟨2⟩, none⟩,
          ⟨.stateVar, "Token.supply", .external, .getter "supply", some "Token"⟩] :=
  ⟨rfl, collectCalls_classifies _ rfl, by decide +kernel⟩

end ContractCalls
