/-
# What one build of the headers adds

Building the headers goes through the contracts, the contracts of their
linearizations and the definitions of these, and adds a function for each; then
it adds the functions outside every contract.  What is built depends on the
index and on the names of the contracts only, and a build changes neither, so
that every further build adds the same functions once more.

`Headers.Lists` keeps account of it: for each contract the definitions of its
functions in order, and those of the free functions.
-/
import ContractCalls.Proofs.Solidity.Instances

namespace ContractCalls

/-- What every step of a fold adds, gathered in order. -/
theorem foldl_gathers {σ γ δ : Type} {P : List δ → σ → Prop} {f : σ → γ → σ} {g : γ → List δ}
    (xs : List γ) {s : σ} {b : List δ} (hs : P b s)
    (step : ∀ gathered s x, x ∈ xs → P gathered s → P (gathered ++ g x) (f s x)) :
    P (b ++ xs.flatMap g) (xs.foldl f s) := by
  induction xs generalizing b s with
  | nil => simpa using hs
  | cons x rest ih =>
      rw [List.foldl_cons, List.flatMap_cons, ← List.append_assoc]
      exact ih (step b s x List.mem_cons_self hs) fun gathered t y hy =>
        step gathered t y (List.mem_cons_of_mem x hy)

/-- The id of the definition a function comes from. -/
def Compilation.definition? (u : Compilation) (id : FunctionId) : Option Int :=
  (u.function? id).bind (·.astId)

/-- The functions outside every contract. -/
def Compilation.freeFunctions (u : Compilation) : List Function :=
  u.functions.toList.filter (·.context.isNone)

/-- What a contract has from its definition. -/
def Contract.label (c : Contract) : String × Option Int := (c.name, c.astId)

namespace Solidity

/-! ## What a contract sees -/

/-- The linearization of a contract; one that names no known contract leaves it alone. -/
def Index.linearizationOf (i : Index) (definition : ContractDefinition) : List ContractId :=
  let bases := definition.linearized.filterMap i.contractOf?
  if bases.isEmpty then [definition.id] else bases

/-- A definition of a contract of the given name has an instance in a context, unless it constructs
another contract. -/
def Index.instantiates (i : Index) (context base : ContractId) (name : String) (d : Int) : Bool :=
  match i.definitions.get? d with
  | some n => !(functionKind n (some name) == .constructor && base != context)
  | none => false

namespace Headers

/-- The definitions of a contract of the linearization that have an instance in a context. -/
def seenIn (h : Headers) (context base : ContractId) : List Int :=
  match h.index.contract? base, (h.unit.contract? base).map (·.name) with
  | some definition, some name =>
      definition.definitions.filter (h.index.instantiates context base name)
  | _, _ => []

/-- The definitions that have an instance in a contract, as often as its linearization leads to
them. -/
def seen (h : Headers) (context : ContractId) : List Int :=
  match h.index.contract? context with
  | some definition => (h.index.linearizationOf definition).flatMap (h.seenIn context)
  | none => []

/-- The definitions outside every contract. -/
def free (h : Headers) : List Int := h.index.freeFunctions.map (·.definition)

/-- What is seen depends on the names of the contracts and on the index without the instances. -/
theorem seenIn_congr {h h' : Headers}
    (hname : ∀ id, (h'.unit.contract? id).map (·.name) = (h.unit.contract? id).map (·.name))
    (hindex : ∃ instances, h'.index = { h.index with instances }) : h'.seenIn = h.seenIn := by
  obtain ⟨instances, hindex⟩ := hindex
  funext context base
  unfold seenIn
  rw [hname, hindex]
  rfl

theorem seen_congr {h h' : Headers}
    (hname : ∀ id, (h'.unit.contract? id).map (·.name) = (h.unit.contract? id).map (·.name))
    (hindex : ∃ instances, h'.index = { h.index with instances }) : h'.seen = h.seen := by
  have hseen := seenIn_congr hname hindex
  obtain ⟨instances, hindex⟩ := hindex
  funext context
  unfold seen
  rw [hseen, hindex]
  rfl

/-- Every contract has the linearization that its definition says. -/
def Linearized (h : Headers) : Prop :=
  ∀ id c definition, h.unit.contract? id = some c → h.index.contract? id = some definition →
    c.linearization = h.index.linearizationOf definition

/-- The second headers come from the first by a build: of the index only the instances differ. -/
structure Builds (h h' : Headers) : Prop where
  grows : h.Grows h'
  index : ∃ instances, h'.index = { h.index with instances }
  labels : h'.unit.contracts.map Contract.label = h.unit.contracts.map Contract.label
  isParsed : h'.unit.isParsed = h.unit.isParsed
  isAnalyzed : h'.unit.isAnalyzed = h.unit.isAnalyzed

namespace Builds

variable {h h' h'' : Headers}

theorem refl (h : Headers) : h.Builds h := ⟨.refl h, ⟨_, rfl⟩, rfl, rfl, rfl⟩

theorem trans (first : h.Builds h') (next : h'.Builds h'') : h.Builds h'' := by
  obtain ⟨instances, hindex⟩ := first.index
  obtain ⟨instances', hindex'⟩ := next.index
  exact ⟨first.grows.trans next.grows, ⟨instances', by rw [hindex', hindex]⟩,
    next.labels.trans first.labels, next.isParsed.trans first.isParsed,
    next.isAnalyzed.trans first.isAnalyzed⟩

/-- What is read of the index besides the instances. -/
theorem index_eq {β : Type} (builds : h.Builds h') (view : Index → β)
    (hview : ∀ i instances, view { i with instances } = view i) : view h'.index = view h.index := by
  obtain ⟨instances, hindex⟩ := builds.index
  rw [hindex, hview]

theorem seenIn_eq (builds : h.Builds h') : h'.seenIn = h.seenIn :=
  seenIn_congr builds.grows.name_eq builds.index

theorem seen_eq (builds : h.Builds h') : h'.seen = h.seen :=
  seen_congr builds.grows.name_eq builds.index

theorem linearized (builds : h.Builds h') (linearized : h.Linearized) : h'.Linearized := by
  intro id c definition hc hdefinition
  obtain ⟨c', hc', heq⟩ := builds.grows.contract_from hc
  rw [builds.index_eq (·.contract? id) fun _ _ => rfl] at hdefinition
  rw [builds.index_eq (·.linearizationOf) fun _ _ => rfl,
    show c.linearization = c'.linearization from congrArg (·.2.2) heq]
  exact linearized id c' definition hc' hdefinition

end Builds

/-! ## The account -/

/-- The functions of every contract come from the definitions `listed` for it, and the free ones
from `free`. -/
structure Lists (listed : ContractId → List Int) (free : List Int) (h : Headers) : Prop where
  contract : ∀ id c, h.unit.contract? id = some c →
    c.functions.map h.unit.definition? = (listed id).map some
  free : h.unit.freeFunctions.map (·.astId) = free.map some

variable {h : Headers} {listed : ContractId → List Int} {free : List Int}

/-- The account reads where functions come from and which contract has which. -/
theorem Lists.congr (lists : h.Lists listed free) (h' : Headers)
    (hcontracts : ∀ id, (h'.unit.contract? id).map (·.functions) =
      (h.unit.contract? id).map (·.functions))
    (horigins : h'.unit.functions.map (fun f => (f.context, f.astId)) =
      h.unit.functions.map fun f => (f.context, f.astId)) : h'.Lists listed free where
  contract id c hc := by
    have hfunctions := hcontracts id
    rw [hc, Option.map_some] at hfunctions
    obtain ⟨c', hc', heq⟩ := Option.map_eq_some_iff.1 hfunctions.symm
    have hdefinition : h'.unit.definition? = h.unit.definition? := by
      funext f
      have hf := congrArg (·[f.index]?.bind (·.2)) horigins
      simpa [Compilation.definition?, Compilation.function?, Option.bind_map, Function.comp_def]
        using hf
    rw [← heq, hdefinition]
    exact lists.contract id c' hc'
  free := by
    have hfree := congrArg (fun os : Array (Option String × Option Int) =>
      (os.toList.filter (·.1.isNone)).map (·.2)) horigins
    rw [← lists.free]
    simpa [Compilation.freeFunctions, List.filter_map, Function.comp_def] using hfree

/-- More definitions for one contract. -/
def also (listed : ContractId → List Int) (context : ContractId) (ds : List Int) :
    ContractId → List Int :=
  fun id => if id = context then listed id ++ ds else listed id

@[simp] theorem also_nil (context : ContractId) : also listed context [] = listed := by
  funext id
  simp [also]

theorem also_also (context : ContractId) (ds es : List Int) :
    also (also listed context ds) context es = also listed context (ds ++ es) := by
  funext id
  simp only [also]
  split <;> simp

/-- A function that is there stays when another one is added. -/
theorem definition?_push {u u' : Compilation} {f : Function}
    (added : u'.functions = u.functions.push f) {id : FunctionId} {d : Int}
    (hd : u.definition? id = some d) : u'.definition? id = some d := by
  obtain ⟨g, hg, hast⟩ := Option.bind_eq_some_iff.1 hd
  exact Option.bind_eq_some_iff.2 ⟨g, Compilation.function?_push added hg, hast⟩

theorem definition?_next {u u' : Compilation} {f : Function}
    (added : u'.functions = u.functions.push f) : u'.definition? u.nextFunctionId = f.astId := by
  rw [Compilation.definition?, Compilation.function?_next added, Option.bind_some]

theorem map_definition?_push {u u' : Compilation} {f : Function}
    (added : u'.functions = u.functions.push f) {ids : List FunctionId} {ds : List Int}
    (h : ids.map u.definition? = ds.map some) : ids.map u'.definition? = ds.map some := by
  rw [← h]
  refine List.map_congr_left fun id hid => ?_
  have hmem : u.definition? id ∈ ds.map some := h ▸ List.mem_map_of_mem hid
  obtain ⟨d, -, hd⟩ := List.mem_map.1 hmem
  rw [← hd]
  exact definition?_push added hd.symm

theorem freeFunctions_push {u u' : Compilation} {f : Function}
    (added : u'.functions = u.functions.push f) :
    u'.freeFunctions = u.freeFunctions ++ [f].filter (·.context.isNone) := by
  rw [Compilation.freeFunctions, added, Array.toList_push, List.filter_append]
  rfl

/-- One more function of a contract. -/
theorem Lists.push (lists : h.Lists listed free) {h' : Headers} {f : Function}
    {context : ContractId} {d : Int} (added : h'.unit.functions = h.unit.functions.push f)
    (hast : f.astId = some d) (hcontext : f.context.isNone = false)
    (contracts : ∀ id, (h'.unit.contract? id).map (·.functions) =
      (h.unit.contract? id).map fun c =>
        if id = context then c.functions ++ [h.unit.nextFunctionId] else c.functions) :
    h'.Lists (also listed context [d]) free where
  contract id c hc := by
    have hfunctions := contracts id
    rw [hc, Option.map_some] at hfunctions
    obtain ⟨c', hc', heq⟩ := Option.map_eq_some_iff.1 hfunctions.symm
    have hkept := map_definition?_push added (lists.contract id c' hc')
    rw [← heq]
    unfold also
    split
    · rw [List.map_append, List.map_append, hkept, List.map_singleton, definition?_next added, hast]
      rfl
    · exact hkept
  free := by
    rw [freeFunctions_push added, List.filter_cons_of_neg (by simp [hcontext]), List.filter_nil,
      List.append_nil]
    exact lists.free

/-- One more free function. -/
theorem Lists.pushFree (lists : h.Lists listed free) {h' : Headers} {f : Function} {d : Int}
    (added : h'.unit.functions = h.unit.functions.push f) (hast : f.astId = some d)
    (hcontext : f.context = none) (contracts : h'.unit.contracts = h.unit.contracts) :
    h'.Lists listed (free ++ [d]) where
  contract id c hc := by
    have hc' : h.unit.contract? id = some c := Compilation.contract?_congr contracts ▸ hc
    exact map_definition?_push added (lists.contract id c hc')
  free := by
    rw [freeFunctions_push added, List.filter_cons_of_pos (by simp [hcontext]), List.filter_nil,
      List.map_append, lists.free, List.map_append, List.map_singleton, hast]
    rfl

/-! ## Steps of a build -/

end Headers

/-- Every definition is found under its own id. -/
def Index.Placed (i : Index) : Prop := ∀ d n, i.definitions.get? d = some n → n.id? = some d

/-- A build in progress: what it started from, and what the contracts and the files have so far. -/
structure Headers.Building (start : Headers) (listed : ContractId → List Int) (free : List Int)
    (h : Headers) : Prop where
  builds : start.Builds h
  lists : h.Lists listed free

variable {start : Headers} {listed : ContractId → List Int} {free : List Int}

/-- An instance is left out, or one function is added to its context. -/
theorem addInstance_pushes (context base : Contract) (file : String) (s : ContextHeaders) (d : Int) :
    (s.headers.index.instantiates context.id base.id base.name d = false ∧
      addInstance context base file s d = s) ∨
    ∃ n f, s.headers.index.instantiates context.id base.id base.name d = true ∧
      s.headers.index.definitions.get? d = some n ∧ f.astId = n.id? ∧ f.context.isNone = false ∧
      (addInstance context base file s d).headers.unit.functions =
        s.headers.unit.functions.push f ∧
      (∀ id, ((addInstance context base file s d).headers.unit.contract? id).map (·.functions) =
        (s.headers.unit.contract? id).map fun c =>
          if id = context.id then c.functions ++ [s.headers.unit.nextFunctionId] else c.functions) ∧
      s.headers.Builds (addInstance context base file s d).headers := by
  have grows := addInstance_grows context base file s d
  unfold addInstance Index.instantiates at *
  cases hn : s.headers.index.definitions.get? d with
  | none => exact .inl ⟨rfl, rfl⟩
  | some n =>
      rw [hn] at grows
      dsimp only at grows ⊢
      split
      · next hskip => exact .inl ⟨congrArg not hskip, rfl⟩
      · next hadd =>
          rw [if_neg hadd] at grows
          refine .inr ⟨n, ?f, ?kind, rfl, ?ast, ?context, ?added, ?contracts, grows, ⟨_, rfl⟩,
            ?labels, rfl, rfl⟩
          case kind => exact congrArg not (Bool.eq_false_of_not_eq_true hadd)
          case added => rfl
          case ast => rfl
          case context => rfl
          case labels =>
            apply Compilation.map_modifyContract
            exact fun _ => rfl
          case contracts =>
            rintro ⟨i⟩
            rcases hcontext : context.id with ⟨j⟩
            simp only [Compilation.contract?, Compilation.modifyContract, Compilation.addFunction,
              Array.getElem?_modify, ContractId.mk.injEq, eq_comm (a := i)]
            split
            · rw [Option.map_map]
              rfl
            · rfl

/-- An instance that is added is one more function of its context. -/
theorem addInstance_building (placed : start.index.Placed) {context base : Contract} {file : String}
    {s : ContextHeaders} {d : Int} (building : start.Building listed free s.headers) :
    start.Building
      (Headers.also listed context.id
        ([d].filter (start.index.instantiates context.id base.id base.name)))
      free (addInstance context base file s d).headers := by
  have hinstantiates := building.builds.index_eq (·.instantiates) fun _ _ => rfl
  rw [List.filter_singleton, ← hinstantiates]
  obtain ⟨hout, heq⟩ | ⟨n, f, hin, hn, hast, hcontext, added, contracts, builds⟩ :=
    addInstance_pushes context base file s d
  · rw [hout, heq]
    simpa using building
  · rw [building.builds.grows.definitions] at hn
    rw [hin]
    exact ⟨building.builds.trans builds,
      building.lists.push added (hast.trans (placed d n hn)) hcontext contracts⟩

theorem flatMap_filter_singleton {α : Type} (p : α → Bool) (xs : List α) :
    xs.flatMap (fun x => [x].filter p) = xs.filter p := by
  induction xs with
  | nil => rfl
  | cons x rest ih => rw [List.flatMap_cons, ih, ← List.filter_append]; rfl

theorem addBase_building (placed : start.index.Placed) (numbered : start.Numbered)
    {context : Contract} {s : ContextHeaders} {base : ContractId}
    (building : start.Building listed free s.headers) :
    start.Building (Headers.also listed context.id (start.seenIn context.id base)) free
      (addBase context s base).headers := by
  rw [← building.builds.seenIn_eq]
  unfold addBase Headers.seenIn
  cases hdefinition : s.headers.index.contract? base with
  | none => simpa using building
  | some definition =>
      cases hcontract : s.headers.unit.contract? base with
      | none => simpa using building
      | some contract =>
          have hid : contract.id = base :=
            building.builds.grows.numbered numbered base contract hcontract
          have hinstantiates := building.builds.index_eq (·.instantiates) fun _ _ => rfl
          simp only [Option.map_some]
          rw [← hid, hinstantiates, ← flatMap_filter_singleton]
          refine foldl_gathers (b := []) (P := fun ds (t : ContextHeaders) =>
            start.Building (Headers.also listed context.id ds) free t.headers) _ ?_ ?_
          · simpa using building
          · intro ds t d _ ht
            rw [← Headers.also_also]
            exact addInstance_building placed ht

/-- A context is given all it sees. -/
theorem addContext_building (placed : start.index.Placed) (numbered : start.Numbered)
    {h : Headers} {id : ContractId} (building : start.Building listed free h)
    (linearized : start.Linearized)
    (hlisted : (h.index.contract? id).isSome) :
    start.Building (Headers.also listed id (start.seen id)) free (addContext h id) := by
  obtain ⟨definition, hdefinition⟩ := Option.isSome_iff_exists.1 hlisted
  unfold addContext
  cases hcontext : h.unit.contract? id with
  | none =>
      refine ⟨building.builds, ?_, building.lists.free⟩
      intro other c hc
      have hne : other ≠ id := fun heq => by
        rw [heq, hcontext] at hc
        cases hc
      rw [Headers.also, if_neg hne]
      exact building.lists.contract other c hc
  | some context =>
      have hid : context.id = id := building.builds.grows.numbered numbered id context hcontext
      have hseen : start.seen id = context.linearization.flatMap (start.seenIn id) := by
        rw [← building.builds.seen_eq, Headers.seen, hdefinition,
          (building.builds.linearized linearized) id context definition hcontext hdefinition,
          building.builds.seenIn_eq]
      rw [hseen]
      refine foldl_gathers (b := []) (P := fun ds (t : ContextHeaders) =>
        start.Building (Headers.also listed id ds) free t.headers) _ ?_ ?_
      · simpa using building
      · intro ds t base _ ht
        rw [← Headers.also_also, ← hid]
        exact addBase_building placed numbered (hid ▸ ht)

/-- The contracts that are listed are given what they see, one after another. -/
theorem addContexts_building (placed : start.index.Placed) (numbered : start.Numbered)
    (linearized : start.Linearized) {contracts : List ContractDefinition} {h : Headers}
    (building : start.Building listed free h) (hnodup : (contracts.map (·.id)).Nodup)
    (hlisted : ∀ c ∈ contracts, (start.index.contract? c.id).isSome) :
    start.Building
      (fun id => if id ∈ contracts.map (·.id) then listed id ++ start.seen id else listed id) free
      (contracts.foldl (fun h c => addContext h c.id) h) := by
  induction contracts generalizing listed h with
  | nil => simpa using building
  | cons c rest ih =>
      rw [List.foldl_cons]
      rw [List.map_cons, List.nodup_cons] at hnodup
      have hc := hlisted c List.mem_cons_self
      rw [← building.builds.index_eq (·.contract? c.id) fun _ _ => rfl] at hc
      have hrest := ih (addContext_building placed numbered building linearized hc) hnodup.2
        fun d hd => hlisted d (List.mem_cons_of_mem c hd)
      refine ⟨hrest.builds, ?_, hrest.lists.free⟩
      intro id c' hc'
      rw [hrest.lists.contract id c' hc']
      simp only [Headers.also, List.map_cons, List.mem_cons]
      by_cases hid : id = c.id
      · subst hid
        simp [hnodup.1]
      · simp [hid]

theorem addFree_building (placed : start.index.Placed) {h : Headers} {entry : FreeFunction}
    (building : start.Building listed free h)
    (hdefined : (start.index.definitions.get? entry.definition).isSome) :
    start.Building listed (free ++ [entry.definition]) (addFree h entry) := by
  have grows := addFree_grows h entry
  unfold addFree at grows ⊢
  rw [building.builds.grows.definitions] at grows ⊢
  obtain ⟨n, hn⟩ := Option.isSome_iff_exists.1 hdefined
  rw [hn] at grows ⊢
  refine ⟨building.builds.trans ⟨grows, ⟨_, rfl⟩, rfl, rfl, rfl⟩,
    building.lists.pushFree (f := ?f) ?added ?ast ?context ?contracts⟩
  case added => rfl
  case ast => exact placed _ n hn
  case context => rfl
  case contracts => rfl

/-- A build gives every contract that is listed what it sees, and every file its functions. -/
theorem buildHeaders_lists {h : Headers} (lists : h.Lists listed free) (placed : h.index.Placed)
    (numbered : h.Numbered) (linearized : h.Linearized)
    (hnodup : (h.index.contracts.map (·.id)).Nodup)
    (hdefined : ∀ entry ∈ h.index.freeFunctions,
      (h.index.definitions.get? entry.definition).isSome) :
    h.Builds (buildHeaders h) ∧
      (buildHeaders h).Lists (fun id => listed id ++ h.seen id) (free ++ h.free) := by
  have hlisted : ∀ c ∈ h.index.contracts, (h.index.contract? c.id).isSome := by
    intro c hc
    exact List.find?_isSome.2 ⟨c, hc, by simp⟩
  have contexts := addContexts_building placed numbered linearized
    (h := h) ⟨.refl h, lists⟩ hnodup hlisted
  have built := foldl_gathers (f := addFree) (g := fun entry => [entry.definition])
    h.index.freeFunctions contexts
    fun ds t entry hentry ht => addFree_building placed ht (hdefined entry hentry)
  rw [← List.map_eq_flatMap] at built
  refine ⟨built.builds, ?_, built.lists.free⟩
  intro id c hc
  have hfunctions := built.lists.contract id c hc
  split at hfunctions
  · exact hfunctions
  · next hunlisted =>
      have hnone : h.index.contract? id = none := by
        refine List.find?_eq_none.2 fun d hd hid => hunlisted ?_
        exact List.mem_map.2 ⟨d, hd, eq_of_beq hid⟩
      rw [Headers.seen, hnone, List.append_nil]
      exact hfunctions

end Solidity

end ContractCalls
