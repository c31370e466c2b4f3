/-
# Virtual dispatch

A call by name runs the most derived definition that the context sees.  After
the headers are built, of all functions of a contract with one key exactly one
is not shadowed; it is the first instance of that key, and both ways of
dispatching find it.  An internal call of any definition of that key is lowered
to a call of it.

A key is a full name for functions and a marked name for modifiers.  As no name
has a parenthesis, keys of different kinds differ, and a key is shared with a
constructor by constructors only.
-/
import ContractCalls.Proofs.Solidity.Distinct
import ContractCalls.Proofs.Solidity.Retry
import ContractCalls.Proofs.Solidity.Shadowing
import ContractCalls.Proofs.Solidity.Super

namespace ContractCalls

namespace Solidity

/-! ## Keys -/

/-- A name that functions and modifiers may have: without a parenthesis, as all identifiers are, and
not the name that constructors are given. -/
def IsOrdinary (name : String) : Prop := '(' ∉ name.toList ∧ name ≠ "constructor"

instance (name : String) : Decidable (IsOrdinary name) := inferInstanceAs (Decidable (_ ∧ _))

/-- A function whose names fit its kind. -/
structure IsKeyed (f : Function) : Prop where
  signed : ∃ parameters, f.fullName = Function.signatureOf f.name parameters
  constructor : f.isConstructor = true → f.name = "constructor"
  ordinary : f.isConstructor = false → IsOrdinary f.name

namespace IsKeyed

variable {f g : Function}

theorem paren_notMem (h : IsKeyed f) : '(' ∉ f.name.toList := by
  cases hconstructor : f.isConstructor with
  | false => exact (h.ordinary hconstructor).1
  | true =>
      rw [h.constructor hconstructor]
      decide

theorem fullName_eq (h : IsKeyed f) :
    ∃ rest, f.fullName.toList = f.name.toList ++ '(' :: rest := by
  obtain ⟨parameters, hfullName⟩ := h.signed
  rw [hfullName, Function.signatureOf, String.toList_append, String.toList_append,
    String.toList_append, List.append_assoc, List.append_assoc]
  exact ⟨_, rfl⟩

/-- The name is what a full name has before its parenthesis. -/
theorem takeWhile_fullName (h : IsKeyed f) :
    f.fullName.toList.takeWhile (· != '(') = f.name.toList := by
  obtain ⟨rest, hrest⟩ := h.fullName_eq
  have hname : ∀ c ∈ f.name.toList, (c != '(') = true := fun c hc =>
    bne_iff_ne.2 (ne_of_mem_of_not_mem hc h.paren_notMem)
  rw [hrest, List.takeWhile_append_of_pos hname, List.takeWhile_cons_of_neg (by simp),
    List.append_nil]

/-- The keys of modifiers have no parenthesis, those of functions have one. -/
theorem paren_mem_shadowKey (h : IsKeyed f) :
    '(' ∈ (shadowKey f).toList ↔ f.isModifier = false := by
  unfold shadowKey
  cases f.isModifier with
  | true =>
      simp [String.toList_append, h.paren_notMem]
  | false =>
      obtain ⟨rest, hrest⟩ := h.fullName_eq
      simp [hrest]

/-- Functions of one key are of one kind. -/
theorem isModifier_eq (hf : IsKeyed f) (hg : IsKeyed g) (h : shadowKey f = shadowKey g) :
    f.isModifier = g.isModifier := by
  have hmem := hf.paren_mem_shadowKey
  rw [h, hg.paren_mem_shadowKey] at hmem
  cases hmodifier : g.isModifier with
  | false => exact hmem.1 hmodifier
  | true =>
      rw [hmodifier] at hmem
      simpa using hmem

/-- Only constructors share a key with a constructor. -/
theorem isConstructor_eq_false (hf : IsKeyed f) (hg : IsKeyed g) (h : shadowKey f = shadowKey g)
    (hordinary : g.isConstructor = false) : f.isConstructor = false := by
  by_contra hconstructor
  rw [Bool.not_eq_false] at hconstructor
  have hmodifier : f.isModifier = false := by
    unfold Function.isModifier
    rw [eq_of_beq hconstructor]
    rfl
  have hmodifier' := (hf.isModifier_eq hg h).symm.trans hmodifier
  rw [shadowKey, shadowKey, hmodifier, hmodifier', if_neg Bool.false_ne_true,
    if_neg Bool.false_ne_true] at h
  have hname : g.name = f.name := by
    rw [← String.toList_inj, ← hg.takeWhile_fullName, ← h, hf.takeWhile_fullName]
  exact (hg.ordinary hordinary).2 (hname.trans (hf.constructor hconstructor))

/-- The functions with the key of a function are those of its full name. -/
theorem shadowKey_beq (hf : IsKeyed f) (hg : IsKeyed g) (hmodifier : g.isModifier = false) :
    (shadowKey f == shadowKey g) = (!f.isModifier && f.fullName == g.fullName) := by
  cases hf' : f.isModifier with
  | false => simp [shadowKey, hf', hmodifier]
  | true =>
      have hne : shadowKey f ≠ shadowKey g := fun heq => by
        simpa [hf', hmodifier] using hf.isModifier_eq hg heq
      simpa using hne

/-- The functions with the key of a modifier are the modifiers of its name. -/
theorem shadowKey_beq_modifier (hf : IsKeyed f) (hg : IsKeyed g) (hmodifier : g.isModifier = true) :
    (shadowKey f == shadowKey g) = (f.isModifier && f.name == g.name) := by
  cases hf' : f.isModifier with
  | true =>
      rw [shadowKey, shadowKey, hf', hmodifier, Bool.eq_iff_iff]
      simp
  | false =>
      have hne : shadowKey f ≠ shadowKey g := fun heq => by
        simpa [hf', hmodifier] using hf.isModifier_eq hg heq
      simpa using hne

end IsKeyed

/-! ## What dispatch finds -/

/-- Of the functions of a contract with the key of `g`, the function `f` alone is not shadowed; it
is the first of the contract's instances with that key, and dispatch finds it. -/
structure Dispatches (u : Compilation) (context : ContractId) (c : Contract)
    (instances : List Function) (g f : Function) : Prop where
  unshadowed :
    (u.functionsOf c).filter (fun f => shadowKey f == shadowKey g && !f.isShadowed) = [f]
  first : instances.find? (fun f => shadowKey f == shadowKey g) = some f.header
  numbered : u.function? f.id = some f
  dispatched : g.isModifier = false → dispatch? u context g.fullName = some f.id
  applied : g.isModifier = true → dispatchModifier? u context g.name = some f.id

section

variable {u : Compilation} {context : ContractId} {c : Contract} {instances : List Function}
  {f g : Function}

theorem map_header_of_marked (hmarked : (u.functionsOf c).map Function.face = marked [] instances)
    (hheader : ∀ f ∈ instances, f.header = f) :
    (u.functionsOf c).map Function.header = instances := by
  have hmap := congrArg (List.map Function.header) hmarked
  rw [map_header_marked, List.map_map] at hmap
  exact hmap.trans ((List.map_congr_left hheader).trans (List.map_id' instances))

/-- The first function of a key is not shadowed, and the others are. -/
theorem exists_unshadowed (hmarked : (u.functionsOf c).map Function.face = marked [] instances)
    (hheader : ∀ f ∈ instances, f.header = f) (hg : g ∈ instances)
    (hkey : ∀ f ∈ instances, shadowKey f = shadowKey g → f.isConstructor = false) :
    ∃ f, (u.functionsOf c).filter (fun f => shadowKey f == shadowKey g && !f.isShadowed) = [f] ∧
      instances.find? (fun f => shadowKey f == shadowKey g) = some f.header := by
  obtain ⟨first, hfirst⟩ : ∃ first, instances.find? (fun f => shadowKey f == shadowKey g) =
      some first :=
    Option.isSome_iff_exists.1 (List.find?_isSome.2 ⟨g, hg, by simp⟩)
  have hfaces : ((u.functionsOf c).filter
      (fun f => shadowKey f == shadowKey g && !f.isShadowed)).map Function.face =
        [mark [] first] := by
    have hfilter := filter_marked [] hkey
    rw [← hmarked, List.filter_map, hfirst] at hfilter
    exact hfilter
  obtain ⟨f, hf, hface⟩ := List.map_eq_singleton_iff.1 hfaces
  have hsame := congrArg Function.header hface
  change f.header = first.header at hsame
  refine ⟨f, hf, ?_⟩
  rw [hsame, hheader first (List.mem_of_find?_eq_some hfirst)]
  exact hfirst

/-- What is alone among the functions that a test selects is the first that passes it. -/
theorem find?_of_filter {α : Type} {xs : List α} {p q : α → Bool} {x : α}
    (hfilter : xs.filter p = [x]) (hsame : ∀ y ∈ xs, q y = p y) : xs.find? q = some x := by
  rw [← List.head?_filter, List.filter_congr hsame, hfilter]
  rfl

theorem dispatch?_eq (hc : u.contract? context = some c)
    (hkeyed : ∀ f ∈ u.functionsOf c, IsKeyed f) (hg : IsKeyed g) (hmodifier : g.isModifier = false)
    (hf : (u.functionsOf c).filter (fun f => shadowKey f == shadowKey g && !f.isShadowed) = [f]) :
    dispatch? u context g.fullName = some f.id := by
  have hfind := find?_of_filter (q := fun f =>
      (!f.isModifier && f.fullName == g.fullName) && !f.isShadowed) hf fun f' hf' => by
    rw [(hkeyed f' hf').shadowKey_beq hg hmodifier]
  simp [dispatch?, hc, hfind]

theorem dispatchModifier?_eq (hc : u.contract? context = some c)
    (hkeyed : ∀ f ∈ u.functionsOf c, IsKeyed f) (hg : IsKeyed g) (hmodifier : g.isModifier = true)
    (hf : (u.functionsOf c).filter (fun f => shadowKey f == shadowKey g && !f.isShadowed) = [f]) :
    dispatchModifier? u context g.name = some f.id := by
  have hfind := find?_of_filter (q := fun f =>
      f.isModifier && !f.isShadowed && f.name == g.name) hf fun f' hf' => by
    rw [(hkeyed f' hf').shadowKey_beq_modifier hg hmodifier, Bool.and_right_comm]
  simp [dispatchModifier?, hc, hfind]

end

/-! ## Instances -/

namespace Headers

variable {h : Headers}

/-- The functions of a contract, as the account has them. -/
theorem Shows.map_functionsOf {listed : ContractId → List (Int × Function)} (shows : h.Shows listed)
    {id : ContractId} {c : Contract} (hc : h.unit.contract? id = some c) :
    (h.unit.functionsOf c).map Function.face = marked [] ((listed id).map (·.2)) := by
  have hviews := congrArg (List.filterMap fun view => view) (shows.functions id c hc)
  rw [List.filterMap_map, List.filterMap_map] at hviews
  rw [Compilation.functionsOf, List.map_filterMap]
  exact hviews.trans (List.filterMap_some ..)

/-- An instance is the function of a definition that a contract of the linearization lists; only the
context has instances of constructors. -/
theorem exists_of_mem_instancesFrom {context : Contract} {base : ContractId} {d : Int}
    {f : Function} (hf : (d, f) ∈ h.instancesFrom context base) :
    ∃ definition contract n, h.index.contract? base = some definition ∧
      h.unit.contract? base = some contract ∧ d ∈ definition.definitions ∧
      h.index.definitions.get? d = some n ∧
      f = functionOf n (some context.name) (some contract.name) h.unit.sourceList definition.file ∧
      (f.isConstructor = true → contract.id = context.id) := by
  unfold instancesFrom at hf
  split at hf
  · next definition contract hdefinition hcontract =>
      obtain ⟨e, he, hinstance⟩ := List.mem_filterMap.1 hf
      obtain ⟨g, hg, heq⟩ := Option.map_eq_some_iff.1 hinstance
      cases heq
      obtain ⟨n, hn, hout⟩ := Option.bind_eq_some_iff.1 hg
      dsimp only at hout
      split at hout
      · cases hout
      · next hin =>
          cases hout
          refine ⟨definition, contract, n, hdefinition, hcontract, he, hn, rfl, fun hf => ?_⟩
          simpa [hf] using hin
  · cases hf

theorem inferKind_beq_modifier (n : Node) (declarer : Option String) :
    (inferKind n declarer == .modifier) = false := by
  unfold inferKind
  dsimp only
  repeat' split
  all_goals rfl

theorem isModifier_functionOf (n : Node) (context declarer : Option String) (files : List String)
    (file : String) :
    (functionOf n context declarer files file).isModifier = n.is "ModifierDefinition" := by
  show (functionKind n declarer == .modifier) = _
  unfold functionKind
  cases n.is "ModifierDefinition" with
  | true => rfl
  | false =>
      rw [if_neg Bool.false_ne_true]
      split
      case h_6 => exact inferKind_beq_modifier n declarer
      all_goals rfl

theorem name_functionOf {n : Node} {context declarer : Option String} {files : List String}
    {file : String} (hf : (functionOf n context declarer files file).isConstructor = true) :
    (functionOf n context declarer files file).name = "constructor" := by
  have hkind : functionKind n declarer = .constructor := eq_of_beq hf
  show functionName n (functionKind n declarer) = _
  rw [hkind]
  rfl

theorem functionOf_of_mem_instances {context : Contract} {f : Function}
    (hf : f ∈ (h.instances context).map (·.2)) :
    ∃ n context declarer files file, f = functionOf n context declarer files file := by
  obtain ⟨⟨d, f⟩, hmem, rfl⟩ := List.mem_map.1 hf
  obtain ⟨base, -, hbase⟩ := List.mem_flatMap.1 hmem
  obtain ⟨definition, contract, n, -, -, -, -, heq, -⟩ := exists_of_mem_instancesFrom hbase
  exact ⟨n, _, _, _, _, heq⟩

/-- An instance is all header. -/
theorem header_of_mem_instances {context : Contract} {f : Function}
    (hf : f ∈ (h.instances context).map (·.2)) : f.header = f := by
  obtain ⟨n, _, _, _, _, rfl⟩ := functionOf_of_mem_instances hf
  exact functionOf_header ..

/-- The names of an instance fit its kind if it has an ordinary name. -/
theorem isKeyed_of_mem_instances {context : Contract} {f : Function}
    (hf : f ∈ (h.instances context).map (·.2))
    (hordinary : f.isConstructor = false → IsOrdinary f.name) : IsKeyed f := by
  obtain ⟨n, _, _, _, _, rfl⟩ := functionOf_of_mem_instances hf
  exact ⟨⟨_, rfl⟩, name_functionOf, hordinary⟩

/-- Where every definition of a contract is found as one, a definition has one instance in a
context. -/
theorem instances_unique (defines : h.index.DefinesListed) {context : Contract} {d : Int}
    {f g : Function} (hf : (d, f) ∈ h.instances context) (hg : (d, g) ∈ h.instances context)
    (hmodifier : g.isModifier = false) :
    f = g ∧ ∃ declarer, h.index.declarations.get? d = some (.function (some declarer)) := by
  obtain ⟨base, -, hf⟩ := List.mem_flatMap.1 hf
  obtain ⟨base', -, hg⟩ := List.mem_flatMap.1 hg
  obtain ⟨definition, contract, n, hdefinition, hcontract, hd, hn, rfl, -⟩ :=
    exists_of_mem_instancesFrom hf
  obtain ⟨definition', contract', n', hdefinition', hcontract', hd', hn', rfl, -⟩ :=
    exists_of_mem_instancesFrom hg
  obtain rfl : n = n' := Option.some_inj.1 (hn.symm.trans hn')
  rw [isModifier_functionOf] at hmodifier
  have href {base : ContractId} {definition : ContractDefinition}
      (hdefinition : h.index.contract? base = some definition) (hd : d ∈ definition.definitions) :
      h.index.declarations.get? d = some (.function (some base)) := by
    obtain ⟨m, hm, href⟩ := defines definition (List.mem_of_find?_eq_some hdefinition) d hd
    obtain rfl : n = m := Option.some_inj.1 (hn.symm.trans hm)
    have hid : definition.id = base := by simpa using List.find?_some hdefinition
    rw [href, definitionRef, hmodifier, if_neg Bool.false_ne_true, hid]
  have hbase := (href hdefinition hd).symm.trans (href hdefinition' hd')
  cases hbase
  cases hdefinition.symm.trans hdefinition'
  cases hcontract.symm.trans hcontract'
  exact ⟨rfl, base, href hdefinition hd⟩

end Headers

/-- Dispatch finds a function of every key that is listed for a contract. -/
theorem Headers.Shows.dispatches {h : Headers} {listed : ContractId → List (Int × Function)}
    (shows : h.Shows listed) {context : ContractId} {c : Contract}
    (hc : h.unit.contract? context = some c) {instances : List Function}
    (hinstances : (listed context).map (·.2) = instances)
    (hheader : ∀ f ∈ instances, f.header = f) (hkeyed : ∀ f ∈ instances, IsKeyed f) {g : Function}
    (hg : g ∈ instances) (hconstructor : g.isConstructor = false) :
    ∃ f, Dispatches h.unit context c instances g f := by
  have hmarked := shows.map_functionsOf hc
  rw [hinstances] at hmarked
  have hmap := map_header_of_marked hmarked hheader
  have hkeyed' : ∀ f ∈ h.unit.functionsOf c, IsKeyed f := by
    intro f hf
    have keyed := hkeyed f.header (hmap ▸ List.mem_map_of_mem hf)
    exact ⟨keyed.signed, keyed.constructor, keyed.ordinary⟩
  have keyed := hkeyed g hg
  obtain ⟨f, hfilter, hfirst⟩ := exists_unshadowed hmarked hheader hg fun f hf hkey =>
    (hkeyed f hf).isConstructor_eq_false keyed hkey hconstructor
  have hmem : f ∈ h.unit.functionsOf c := by
    have hf : f ∈ [f] := List.mem_singleton_self f
    rw [← hfilter] at hf
    exact List.mem_of_mem_filter hf
  obtain ⟨id, -, hid⟩ := List.mem_filterMap.1 hmem
  refine ⟨f, hfilter, hfirst, ?_, fun hmodifier => ?_, fun hmodifier => ?_⟩
  · rw [shows.numbered id f hid]
    exact hid
  · exact dispatch?_eq hc hkeyed' keyed hmodifier hfilter
  · exact dispatchModifier?_eq hc hkeyed' keyed hmodifier hfilter

theorem Headers.Shows.not_shadowed_of_constructor {h : Headers}
    {listed : ContractId → List (Int × Function)} (shows : h.Shows listed) {context : ContractId}
    {c : Contract} (hc : h.unit.contract? context = some c) {f : Function}
    (hf : f ∈ h.unit.functionsOf c) (hconstructor : f.isConstructor = true) :
    f.isShadowed = false := by
  have hface : f.face ∈ marked [] ((listed context).map (·.2)) :=
    shows.map_functionsOf hc ▸ List.mem_map_of_mem hf
  have hmark : f.face.isShadowed = false := isShadowed_of_mem_marked hface hconstructor
  exact hmark

/-- Constructors are instances of the context's own definitions. -/
theorem Headers.own_of_constructor {h : Headers} (numbered : h.Numbered) {c : Contract} {d : Int}
    {f : Function} (hf : (d, f) ∈ h.instances c) (hconstructor : f.isConstructor = true) :
    (d, f) ∈ h.instancesFrom c c.id := by
  obtain ⟨base, -, hf⟩ := List.mem_flatMap.1 hf
  obtain ⟨_, contract, _, -, hcontract, -, -, -, hown⟩ := exists_of_mem_instancesFrom hf
  rw [← hown hconstructor, numbered base contract hcontract]
  exact hf

/-! ## Calls by name -/

/-- A call of an identifier that resolves to a function calls that function. -/
theorem callsFunction_identifierCall {env : Env} {nameText : TypeText} {name : String}
    {declaration : Option Int} {id : FunctionId}
    (hcallee : env.identifierCallee nameText name declaration = .internal id) (text : TypeText)
    (options arguments : List Expr) (names : List String) :
    CallsFunction env text options (.identifier nameText name declaration) arguments names id := by
  have hname : (Expr.identifier nameText name declaration).ensure = pure () := rfl
  refine callsFunction_of_value_eq ?_
  simp only [value, hname, Env.resolve, receive, hcallee, pure_bind]

/-- A call of a definition that is listed for the context calls what dispatch finds for its
instance. -/
theorem Headers.Shows.identifierCallee_eq {h : Headers}
    {listed : ContractId → List (Int × Function)} (shows : h.Shows listed)
    {context declarer : ContractId} {c : Contract} {instances : List Function} {d : Int}
    {g f : Function} (hg : (d, g) ∈ listed context)
    (hunique : ∀ g', (d, g') ∈ listed context → g' = g)
    (href : h.index.declarations.get? d = some (.function (some declarer)))
    (dispatches : Dispatches h.unit context c instances g f) (hmodifier : g.isModifier = false)
    (text : TypeText) (name : String) :
    Env.identifierCallee ⟨h.unit, h.index, some context⟩ text name (some d) = .internal f.id := by
  obtain ⟨id, hid⟩ := Option.isSome_iff_exists.1 (shows.seats context d g hg)
  obtain ⟨g', hg', hmem⟩ := shows.seated context d id hid
  have hname : g'.fullName = g.fullName := congrArg (·.fullName) (hunique g'.header hmem)
  have hdispatch := dispatches.dispatched hmodifier
  rw [← hname] at hdispatch
  simp [Env.identifierCallee, Index.declaration?, href, Env.virtual, hid, hg', hdispatch]

/-! ## Resolved loaders -/

theorem resolveHeaderCalls_sourceList (index : Index) (u : Compilation) :
    (resolveHeaderCalls index u).sourceList = u.sourceList := by
  refine foldl_keeps (P := fun t : Compilation => t.sourceList = u.sourceList) rfl ?_
  intro t entry _ ht
  unfold resolveInstance
  split
  · exact ht
  · exact ht

namespace Headers

/-- What a build of the headers reads. -/
def inputs (h : Headers) : Array Contract × Array Function × List String × Index :=
  (h.unit.contracts, h.unit.functions, h.unit.sourceList, h.index)

variable {h h' : Headers}

theorem grows_of_inputs (hinputs : h'.inputs = h.inputs) : h.Grows h' := by
  have hcontracts : h'.unit.contracts = h.unit.contracts := congrArg (·.1) hinputs
  have hindex : h'.index = h.index := congrArg (·.2.2.2) hinputs
  exact ⟨congrArg (·.definitions) hindex, congrArg (·.contracts) hindex,
    congrArg _ hcontracts, fun seat hseat => hindex ▸ hseat⟩

/-- Headers after a build: their contracts have the instances that were to be built. -/
structure Built (start h : Headers) : Prop where
  shows : h.Shows start.instancesOf
  grows : start.Grows h
  sources : h.unit.sourceList = start.unit.sourceList
  declarations : h.index.declarations = start.index.declarations

theorem Bare.of_inputs (bare : h.Bare) (hinputs : h'.inputs = h.inputs) : h'.Bare := by
  have hcontracts : h'.unit.contracts = h.unit.contracts := congrArg (·.1) hinputs
  have hcontract := Compilation.contract?_congr hcontracts
  have hindex : h'.index = h.index := congrArg (·.2.2.2) hinputs
  constructor
  case numbered => exact (grows_of_inputs hinputs).numbered bare.numbered
  case listed => rw [hindex]; exact bare.listed
  case functions => exact (congrArg (·.2.1) hinputs).trans bare.functions
  case contracts => rw [hcontract, hindex]; exact bare.contracts
  case instances => rw [hindex]; exact bare.instances

theorem built_buildHeaders (bare : h.Bare) :
    h.Built ⟨resolveHeaderCalls (buildHeaders h).index (buildHeaders h).unit,
      (buildHeaders h).index⟩ where
  shows := (buildHeaders_underway bare).shows.sameOutline
    (Loader.sameOutline_resolveHeaderCalls (buildHeaders h).index _)
  grows := (buildHeaders_grows h).trans (resolveHeaderCalls_grows _)
  sources := (resolveHeaderCalls_sourceList _ _).trans (buildHeaders_underway bare).sources
  declarations :=
    (buildHeaders_underway bare).builds.index_eq (·.declarations) fun _ _ => rfl

theorem Built.of_inputs {start : Headers} (built : h'.Built h)
    (hinputs : h'.inputs = start.inputs) : start.Built h where
  shows := by
    rw [← (grows_of_inputs hinputs).instancesOf_eq (congrArg (·.2.2.1) hinputs)]
    exact built.shows
  grows := (grows_of_inputs hinputs).trans built.grows
  sources := built.sources.trans (congrArg (·.2.2.1) hinputs)
  declarations := built.declarations.trans (congrArg (·.2.2.2.declarations) hinputs)

namespace Built

variable {start : Headers}

theorem instancesOf_eq (built : start.Built h) {context : ContractId} {c : Contract}
    (hc : h.unit.contract? context = some c) : start.instancesOf context = h.instances c := by
  rw [← built.grows.instancesOf_eq built.sources, instancesOf, hc]
  rfl

/-- The functions of a contract are its instances. -/
theorem map_header_functionsOf (built : start.Built h) {u : Compilation}
    (same : h.unit.SameOutline u) {context : ContractId} {c : Contract}
    (hc : h.unit.contract? context = some c) (hc' : u.contract? context = some c) :
    (u.functionsOf c).map Function.header = (h.instances c).map (·.2) := by
  have hmarked := (built.shows.sameOutline same).map_functionsOf hc'
  rw [built.instancesOf_eq hc] at hmarked
  exact map_header_of_marked hmarked fun f => header_of_mem_instances

theorem definesListed (built : start.Built h) (defines : start.index.DefinesListed) :
    h.index.DefinesListed := by
  intro c hc d hd
  rw [built.grows.contracts] at hc
  obtain ⟨n, hn, href⟩ := defines c hc d hd
  exact ⟨n, built.grows.definitions.symm ▸ hn, built.declarations.symm ▸ href⟩

end Built

end Headers

namespace Loader

variable {l : Loader}

/-- A parse that succeeds leaves contracts without functions. -/
theorem bare_of_parsed {target : String} {sources : List SourceUnit} {policy : FailurePolicy}
    {parsed : Loader} (hparse : parse.run (.new target sources policy) = (.ok (), parsed)) :
    parsed.bareHeaders.Bare := by
  obtain ⟨count, registered⟩ := (leads_parse target sources policy).of_run hparse
  have hstart : Gathering (.new target sources policy) [] (.new target sources policy) := by
    cases reached_new target sources policy with
    | gathering h => exact h
    | analyzing hlast => cases hlast
  obtain ⟨r, hr, rfl⟩ := (ends_parse hstart).leads.of_run hparse
  have resolved := registered.ofUnit (resolveVariables_ids r.index r.unit.markParsed)
  constructor
  case numbered => exact fun _ _ hc => resolved.contract_id hc
  case listed =>
    rw [show (bareHeaders _).index.contracts.map (·.id) = firstContracts count from
      registered.listed]
    exact List.nodup_range.map fun _ _ heq => congrArg ContractId.index heq
  case functions =>
    exact (resolveVariables_rest (g := (·.functions)) (fun _ _ _ => rfl) _ _).trans
      hr.gathered.functions
  case contracts =>
    intro id c hc
    refine ⟨?_, resolved.contract_listed hc⟩
    have hid := congrArg (·[id.index]?) (map_resolveVariables (g := Contract.functions)
      (fun _ _ _ => rfl) r.index r.unit.markParsed)
    simp only [Array.getElem?_map] at hid
    rw [show (resolveVariables r.index r.unit.markParsed).contracts[id.index]? = some c from hc]
      at hid
    obtain ⟨c', hc', heq⟩ := Option.map_eq_some_iff.1 hid.symm
    exact heq.symm.trans (hr.gathered.entry_eq hc').2.2
  case instances => exact registered.bare

theorem leaves_readDeclaration_inputs {h : Headers} (hl : l.headers.inputs = h.inputs)
    (position : Nat) :
    Leaves (readDeclaration position) l fun t => t.headers.inputs = h.inputs := by
  unfold readDeclaration
  refine ends_bind (ends_get ?_)
  split
  · exact ends_pure hl
  · refine ends_bind (ends_modify ?_)
    split
    · exact ends_pure hl
    · refine ends_onUnit ?_
      unfold Compilation.recover
      split
      · exact ends_modify hl
      · exact ends_throw hl

/-- Resolving gives every contract its instances. -/
theorem built_of_resolved {parsed : Loader} (bare : parsed.bareHeaders.Bare)
    (hresolve : resolve.run parsed = (.ok (), l)) : parsed.bareHeaders.Built l.headers := by
  have built : Ends resolve parsed (fun _ t => parsed.bareHeaders.Built t.headers)
      fun _ _ => True := by
    refine ends_bind (ends_get (ends_bind (ends_modify ?_)))
    refine ends_bind ((ends_forM (fun _ t => t.headers.inputs = parsed.bareHeaders.inputs) rfl
      fun position _ _ _ ht => leaves_readDeclaration_inputs ht position).imp ?_
      fun _ _ _ => trivial)
    intro _ t ht
    exact ends_bind (ends_modify (ends_modify
      ((Headers.built_buildHeaders (bare.of_inputs ht)).of_inputs ht)))
  exact built.leads.of_run hresolve

end Loader

/-! ## Dispatch -/

/-- Dispatch finds the most derived definition.  In every contract the functions are the instances
of what its linearization leads to, in order; of those of one key, constructors apart, the first
alone is not shadowed and is what dispatch finds, and, if the sources declare distinct ids, an
internal call by name of any function definition of that key is lowered to a call of it.
Constructors have instances in their own contract only and are never shadowed. -/
theorem resolved_dispatches {target : String} {sources : List SourceUnit} {policy : FailurePolicy}
    {parsed l : Loader} (hparse : Loader.parse.run (.new target sources policy) = (.ok (), parsed))
    (hresolve : Loader.resolve.run parsed = (.ok (), l)) {u : Compilation}
    (same : l.unit.SameOutline u) {context : ContractId} {c : Contract}
    (hc : u.contract? context = some c)
    (hordinary : ∀ f ∈ u.functionsOf c, f.isConstructor = false → IsOrdinary f.name) :
    (u.functionsOf c).map Function.header = (l.headers.instances c).map (·.2) ∧
    (∀ d g, (d, g) ∈ l.headers.instances c → g.isConstructor = false →
      ∃ f, Dispatches u context c ((l.headers.instances c).map (·.2)) g f ∧
        (g.isModifier = false → (Loader.new target sources policy).declaredIds.Nodup →
          ∀ (env : Env) (text nameText : TypeText) (options arguments : List Expr) (name : String)
            (names : List String),
            env.unit = u → env.index = l.index → env.context = some context →
            CallsFunction env text options (.identifier nameText name (some d)) arguments names
              f.id)) ∧
    ∀ f ∈ u.functionsOf c, f.isConstructor = true →
      f.isShadowed = false ∧ ∃ d, (d, f.header) ∈ l.headers.instancesFrom c context := by
  have bare := Loader.bare_of_parsed hparse
  have built := Loader.built_of_resolved bare hresolve
  have shown := built.shows.sameOutline same
  have hc' : l.unit.contract? context = some c := Compilation.contract?_congr same.contracts ▸ hc
  have hlisted := built.instancesOf_eq hc'
  have hmap := built.map_header_functionsOf same hc' hc
  have hkeyed : ∀ g ∈ (l.headers.instances c).map (·.2), IsKeyed g := by
    intro g hg
    refine Headers.isKeyed_of_mem_instances hg fun hconstructor => ?_
    rw [← hmap] at hg
    obtain ⟨f, hf, rfl⟩ := List.mem_map.1 hg
    exact hordinary f hf hconstructor
  refine ⟨hmap, fun d g hg hconstructor => ?_, fun f hf hconstructor => ?_⟩
  · obtain ⟨f, dispatches⟩ := shown.dispatches hc (congrArg _ hlisted)
      (fun f => Headers.header_of_mem_instances) hkeyed (List.mem_map_of_mem hg) hconstructor
    refine ⟨f, dispatches, ?_⟩
    intro hmodifier hdistinct env text nameText options arguments name names hunit hindex hcontext
    obtain rfl : env = ⟨u, l.index, some context⟩ := by
      rw [← hunit, ← hindex, ← hcontext]
    have defines := built.definesListed ((Loader.leads_parse_defines hdistinct).of_run hparse)
    obtain ⟨-, declarer, href⟩ := Headers.instances_unique defines hg hg hmodifier
    have hunique : ∀ g', (d, g') ∈ parsed.bareHeaders.instancesOf context → g' = g := by
      rw [hlisted]
      exact fun g' hg' => (Headers.instances_unique defines hg' hg hmodifier).1
    have hcallee : Env.identifierCallee ⟨u, l.index, some context⟩ nameText name (some d) =
        .internal f.id :=
      shown.identifierCallee_eq (hlisted ▸ hg) hunique href dispatches hmodifier nameText name
    exact callsFunction_identifierCall hcallee text options arguments names
  · refine ⟨shown.not_shadowed_of_constructor hc hf hconstructor, ?_⟩
    have hmem : f.header ∈ (l.headers.instances c).map (·.2) := hmap ▸ List.mem_map_of_mem hf
    obtain ⟨⟨d, g⟩, hg, heq⟩ := List.mem_map.1 hmem
    have hg' : (d, f.header) ∈ l.headers.instances c := heq ▸ hg
    have numbered := built.grows.numbered bare.numbered
    rw [← numbered context c hc']
    exact ⟨d, Headers.own_of_constructor numbered hg' hconstructor⟩

/-- What `C` of the diamond sees: `B.f`, `D.f` and `A.f`. -/
theorem diamond_instances :
    (parsedDiamond.bareHeaders.instancesOf ⟨3⟩).map (fun e => (e.1, e.2.astId)) =
      [(21, some 21), (31, some 31), (11, some 11)] ∧
    ∀ e ∈ parsedDiamond.bareHeaders.instancesOf ⟨3⟩,
      e.2.name = "f" ∧ e.2.fullName = "f()" ∧ e.2.kind = .function := by
  decide +kernel

/-- In the diamond, a call of `f` by name in `C` that refers to `A.f` is a call of `B.f`. -/
theorem diamond_dispatches :
    Loader.parse.run (.new "" [diamond] .stopOnFirst) = (.ok (), parsedDiamond) ∧
    Loader.resolve.run parsedDiamond = (.ok (), resolvedDiamond) ∧
    (Loader.new "" [diamond] .stopOnFirst).declaredIds.Nodup ∧
    ∃ c f, resolvedDiamond.unit.contract? ⟨3⟩ = some c ∧
      (resolvedDiamond.unit.functionsOf c).filter
        (fun f => shadowKey f == "f()" && !f.isShadowed) = [f] ∧
      f.astId = some 21 ∧ dispatch? resolvedDiamond.unit ⟨3⟩ "f()" = some f.id ∧
      CallsFunction ⟨resolvedDiamond.unit, resolvedDiamond.index, some ⟨3⟩⟩ none []
        (.identifier none "f" (some 11)) [] [] f.id ∧
      ((value ⟨resolvedDiamond.unit, resolvedDiamond.index, some ⟨3⟩⟩
          (.call none .ordinary [] (.identifier none "f" (some 11)) [] [])).run
        (.start .start)).2.body.callees = [.internal f.id] := by
  have hdistinct : (Loader.new "" [diamond] .stopOnFirst).declaredIds.Nodup := by decide +kernel
  obtain ⟨c, hc, houtline⟩ := Option.map_eq_some_iff.1 diamond_linearizations.2
  have built := Loader.built_of_resolved (Loader.bare_of_parsed parsedDiamond_run)
    resolvedDiamond_run
  have hlisted := built.instancesOf_eq hc
  have hmap := built.map_header_functionsOf (.refl _) hc hc
  obtain ⟨hids, hnames⟩ := diamond_instances
  rw [hlisted] at hids hnames
  have hordinary : ∀ f ∈ resolvedDiamond.unit.functionsOf c, f.isConstructor = false →
      IsOrdinary f.name := by
    intro f hf _
    have hmem : f.header ∈ (resolvedDiamond.headers.instances c).map (·.2) :=
      hmap ▸ List.mem_map_of_mem hf
    obtain ⟨e, he, heq⟩ := List.mem_map.1 hmem
    have hname : f.header.name = "f" := heq ▸ (hnames e he).1
    rw [show f.name = "f" from hname]
    decide
  obtain ⟨-, hdispatches, -⟩ :=
    resolved_dispatches parsedDiamond_run resolvedDiamond_run (.refl _) hc hordinary
  have hkey : ∀ e ∈ resolvedDiamond.headers.instances c, shadowKey e.2 = "f()" := by
    intro e he
    obtain ⟨-, hfullName, hkind⟩ := hnames e he
    simp [shadowKey, Function.isModifier, hkind, hfullName]
  have hmem : ((11, some 11) : Int × Option Int) ∈
      (resolvedDiamond.headers.instances c).map fun e => (e.1, e.2.astId) := by
    rw [hids]
    simp
  obtain ⟨⟨d, g⟩, hg, heq⟩ := List.mem_map.1 hmem
  obtain rfl : d = 11 := congrArg (·.1) heq
  have hfullName : g.fullName = "f()" := (hnames _ hg).2.1
  have hkind : g.kind = .function := (hnames _ hg).2.2
  have hmodifier : g.isModifier = false := by simp [Function.isModifier, hkind]
  obtain ⟨f, dispatches, hcalls⟩ := hdispatches 11 g hg (by simp [Function.isConstructor, hkind])
  obtain ⟨first, rest, hinstances, hfirst, -⟩ := List.map_eq_cons_iff.1 hids
  have hheader : first.2 = f.header := by
    have hfound := dispatches.first
    rw [hinstances, List.map_cons, List.find?_cons_of_pos] at hfound
    · exact Option.some_inj.1 hfound
    · rw [hkey first (hinstances ▸ List.mem_cons_self), hkey _ hg, beq_self_eq_true]
  have calls : CallsFunction ⟨resolvedDiamond.unit, resolvedDiamond.index, some ⟨3⟩⟩ none []
      (.identifier none "f" (some 11)) [] [] f.id :=
    hcalls hmodifier hdistinct ⟨_, _, _⟩ none none [] [] "f" [] rfl rfl rfl
  refine ⟨parsedDiamond_run, resolvedDiamond_run, hdistinct, c, f, hc, ?_, ?_, ?_, calls, ?_⟩
  · rw [← hkey _ hg]
    exact dispatches.unshadowed
  · exact (congrArg (·.astId) hheader).symm.trans (congrArg (·.2) hfirst)
  · rw [← hfullName]
    exact dispatches.dispatched hmodifier
  · rw [calls.value_eq, effects, values]
    rfl

end Solidity

end ContractCalls
