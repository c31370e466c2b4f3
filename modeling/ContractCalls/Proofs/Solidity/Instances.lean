/-
# Instances of definitions

A contract sees the definitions of every contract of its linearization, each as
a function of its own.  Building the headers gives them: after it every
definition that is no constructor has an instance in every contract that sees
it, the instance leads to a function of that context and that definition, and
no two seats share a function.

Each step adds one function and seats it at its number, which no seat had
before; what was registered stays as it is.
-/
import ContractCalls.Proofs.Solidity.Registration

namespace ContractCalls

/-- What is fixed about a contract before its functions are built. -/
def Contract.outline (c : Contract) : ContractId × String × List ContractId :=
  (c.id, c.name, c.linearization)

namespace Solidity

/-! ## What building headers leaves as it is -/

/-- The second headers come from the first by adding functions. -/
structure Headers.Grows (h h' : Headers) : Prop where
  definitions : h'.index.definitions = h.index.definitions
  contracts : h'.index.contracts = h.index.contracts
  outlines : h'.unit.contracts.map Contract.outline = h.unit.contracts.map Contract.outline
  seats : ∀ seat, (h.index.instances.get? seat).isSome → (h'.index.instances.get? seat).isSome

namespace Headers.Grows

variable {h h' h'' : Headers}

theorem refl (h : Headers) : h.Grows h := ⟨rfl, rfl, rfl, fun _ => id⟩

theorem trans (first : h.Grows h') (next : h'.Grows h'') : h.Grows h'' where
  definitions := next.definitions.trans first.definitions
  contracts := next.contracts.trans first.contracts
  outlines := next.outlines.trans first.outlines
  seats seat hseat := next.seats seat (first.seats seat hseat)

theorem outline_eq (grows : h.Grows h') (id : ContractId) :
    (h'.unit.contract? id).map Contract.outline = (h.unit.contract? id).map Contract.outline := by
  have hid := congrArg (·[id.index]?) grows.outlines
  simp only [Array.getElem?_map] at hid
  exact hid

theorem contract_of (grows : h.Grows h') {id : ContractId} {c : Contract}
    (hc : h.unit.contract? id = some c) :
    ∃ c', h'.unit.contract? id = some c' ∧ c'.outline = c.outline := by
  have hid := grows.outline_eq id
  rw [hc, Option.map_some, Option.map_eq_some_iff] at hid
  exact hid

theorem contract_from (grows : h.Grows h') {id : ContractId} {c : Contract}
    (hc : h'.unit.contract? id = some c) :
    ∃ c', h.unit.contract? id = some c' ∧ c.outline = c'.outline := by
  have hid := grows.outline_eq id
  rw [hc, Option.map_some] at hid
  obtain ⟨c', hc', heq⟩ := Option.map_eq_some_iff.1 hid.symm
  exact ⟨c', hc', heq.symm⟩

theorem name_eq (grows : h.Grows h') (id : ContractId) :
    (h'.unit.contract? id).map (·.name) = (h.unit.contract? id).map (·.name) := by
  have hid := congrArg (Option.map fun o => o.2.1) (grows.outline_eq id)
  simp only [Option.map_map] at hid
  exact hid

theorem context_eq (grows : h.Grows h') (context : Option ContractId) :
    (context.bind h'.unit.contract?).map (·.name) = (context.bind h.unit.contract?).map (·.name) := by
  cases context with
  | none => rfl
  | some id => exact grows.name_eq id

end Headers.Grows

/-! ## Seats -/

/-- Every seat leads to a function of its own, which knows its context and its definition. -/
structure Headers.Seated (h : Headers) : Prop where
  function : ∀ seat id, h.index.instances.get? seat = some id →
    ∃ f n, h.unit.function? id = some f ∧ h.index.definitions.get? seat.definition = some n ∧
      f.astId = n.id? ∧ f.context = (seat.context.bind h.unit.contract?).map (·.name)
  apart : ∀ seat other id, h.index.instances.get? seat = some id →
    h.index.instances.get? other = some id → seat = other

namespace Headers

variable {h : Headers}

theorem seated_of_bare (bare : ∀ seat, h.index.instances.get? seat = none) : h.Seated where
  function seat id hid := by rw [bare seat] at hid; cases hid
  apart seat other id hid _ := by rw [bare seat] at hid; cases hid

/-- The seat of a function that is added under the next number. -/
theorem grows_seat {u : Compilation} (seat : Seat) (id : FunctionId)
    (outlines : u.contracts.map Contract.outline = h.unit.contracts.map Contract.outline) :
    h.Grows ⟨u, h.index.setInstance seat id⟩ where
  definitions := rfl
  contracts := rfl
  outlines := outlines
  seats other hother := by
    simp only [Index.setInstance, Table.get?_insert]
    split
    · rfl
    · exact hother

theorem Seated.seat (seated : h.Seated) {u : Compilation} {seat : Seat} {f : Function} {n : Node}
    (outlines : u.contracts.map Contract.outline = h.unit.contracts.map Contract.outline)
    (added : u.functions = h.unit.functions.push f)
    (hn : h.index.definitions.get? seat.definition = some n) (hid : f.astId = n.id?)
    (hcontext : f.context = (seat.context.bind h.unit.contract?).map (·.name)) :
    Seated ⟨u, h.index.setInstance seat h.unit.nextFunctionId⟩ := by
  have grows : h.Grows ⟨u, h.index.setInstance seat h.unit.nextFunctionId⟩ :=
    grows_seat seat h.unit.nextFunctionId outlines
  have old {other : Seat} {id : FunctionId} (hother : h.index.instances.get? other = some id) :
      id.index < h.unit.functions.size := by
    obtain ⟨g, -, hg, -⟩ := seated.function other id hother
    exact (Array.getElem?_eq_some_iff.1 hg).1
  constructor
  · intro other id hother
    rw [grows.context_eq]
    simp only [Index.setInstance, Table.get?_insert] at hother
    split at hother
    · next heq =>
        cases hother
        subst heq
        refine ⟨f, n, ?_, hn, hid, hcontext⟩
        simp [Compilation.function?, Compilation.nextFunctionId, added]
    · obtain ⟨g, m, hg, hm, hrest⟩ := seated.function other id hother
      refine ⟨g, m, ?_, hm, hrest⟩
      have hlt := old hother
      simp only [Compilation.function?] at hg ⊢
      rw [added, Array.getElem?_push_lt hlt, ← hg, Array.getElem?_eq_getElem hlt]
  · intro first second id hfirst hsecond
    simp only [Index.setInstance, Table.get?_insert] at hfirst hsecond
    split at hfirst <;> split at hsecond
    · next h1 h2 => exact h1.symm.trans h2
    · cases hfirst
      exact absurd (old hsecond) (Nat.lt_irrefl _)
    · cases hsecond
      exact absurd (old hfirst) (Nat.lt_irrefl _)
    · exact seated.apart first second id hfirst hsecond

end Headers

/-! ## Steps -/

/-- An instance is left out if its definition is not there or constructs another contract;
otherwise one function is added and seated. -/
theorem addInstance_cases (context base : Contract) (file : String) (s : ContextHeaders) (d : Int) :
    (addInstance context base file s d = s ∧ ∀ n, s.headers.index.definitions.get? d = some n →
      functionKind n (some base.name) = .constructor) ∨
    ∃ n f u, s.headers.index.definitions.get? d = some n ∧ f.astId = n.id? ∧
      f.context = some context.name ∧ u.functions = s.headers.unit.functions.push f ∧
      u.contracts.map Contract.outline = s.headers.unit.contracts.map Contract.outline ∧
      (addInstance context base file s d).headers =
        ⟨u, s.headers.index.setInstance ⟨some context.id, d⟩ s.headers.unit.nextFunctionId⟩ := by
  unfold addInstance
  cases hn : s.headers.index.definitions.get? d with
  | none => exact .inl ⟨rfl, fun n hn => nomatch hn⟩
  | some n =>
      dsimp only
      split
      · next hkind =>
          refine .inl ⟨rfl, fun m hm => ?_⟩
          cases hm
          exact eq_of_beq (Bool.and_eq_true_iff.1 hkind).1
      · refine .inr ⟨n, ?f, _, rfl, ?hid, ?hcontext, ?added, ?outlines, rfl⟩
        case added => rfl
        case outlines =>
          apply Compilation.map_modifyContract
          exact fun _ => rfl
        all_goals rfl

theorem addInstance_grows (context base : Contract) (file : String) (s : ContextHeaders) (d : Int) :
    s.headers.Grows (addInstance context base file s d).headers := by
  obtain ⟨heq, -⟩ | ⟨n, f, u, -, -, -, -, outlines, heq⟩ := addInstance_cases context base file s d
  · rw [heq]
    exact .refl _
  · rw [heq]
    exact Headers.grows_seat _ _ outlines

theorem addBase_grows (context : Contract) (s : ContextHeaders) (base : ContractId) :
    s.headers.Grows (addBase context s base).headers := by
  unfold addBase
  split
  · exact foldl_keeps (P := fun t : ContextHeaders => s.headers.Grows t.headers) (.refl _)
      fun t d _ ht => ht.trans (addInstance_grows _ _ _ t d)
  · exact .refl _

theorem addContext_grows (h : Headers) (id : ContractId) : h.Grows (addContext h id) := by
  unfold addContext
  split
  · exact foldl_keeps (P := fun t : ContextHeaders => h.Grows t.headers) (.refl _)
      fun t base _ ht => ht.trans (addBase_grows _ t base)
  · exact .refl _

theorem addFree_grows (h : Headers) (free : FreeFunction) : h.Grows (addFree h free) := by
  unfold addFree
  split
  · exact .refl _
  · exact Headers.grows_seat _ _ rfl

theorem buildHeaders_grows (h : Headers) : h.Grows (buildHeaders h) := by
  have contracts : h.Grows (h.index.contracts.foldl (fun h c => addContext h c.id) h) :=
    foldl_keeps (.refl h) fun t c _ ht => ht.trans (addContext_grows t c.id)
  exact foldl_keeps contracts fun t free _ ht => ht.trans (addFree_grows t free)

/-! ## Every function is seated -/

/-- The contract is the one of its number. -/
def Headers.Holds (h : Headers) (c : Contract) : Prop :=
  (h.unit.contract? c.id).map (·.name) = some c.name

theorem Headers.Grows.holds {h h' : Headers} (grows : h.Grows h') {c : Contract} (hc : h.Holds c) :
    h'.Holds c :=
  (grows.name_eq c.id).trans hc

theorem addInstance_seated {context base : Contract} {file : String} {s : ContextHeaders} {d : Int}
    (held : s.headers.Holds context) (seated : s.headers.Seated) :
    (addInstance context base file s d).headers.Seated := by
  obtain ⟨heq, -⟩ | ⟨n, f, u, hn, hid, hcontext, added, outlines, heq⟩ :=
    addInstance_cases context base file s d
  · rw [heq]
    exact seated
  · rw [heq]
    exact seated.seat outlines added hn hid (hcontext.trans held.symm)

theorem addBase_seated {context : Contract} {s : ContextHeaders} {base : ContractId}
    (held : s.headers.Holds context) (seated : s.headers.Seated) :
    (addBase context s base).headers.Seated := by
  unfold addBase
  split
  · refine (foldl_keeps (P := fun t : ContextHeaders => t.headers.Holds context ∧ t.headers.Seated)
      ⟨held, seated⟩ ?_).2
    rintro t d - ⟨ht, hseated⟩
    exact ⟨(addInstance_grows _ _ _ t d).holds ht, addInstance_seated ht hseated⟩
  · exact seated

/-- Contracts are numbered by their positions. -/
def Headers.Numbered (h : Headers) : Prop := ∀ id c, h.unit.contract? id = some c → c.id = id

theorem Headers.Grows.numbered {h h' : Headers} (grows : h.Grows h') (numbered : h.Numbered) :
    h'.Numbered := by
  intro id c hc
  obtain ⟨c', hc', heq⟩ := grows.contract_from hc
  rw [show c.id = c'.id from congrArg (·.1) heq]
  exact numbered id c' hc'

theorem Headers.Numbered.holds {h : Headers} (numbered : h.Numbered) {id : ContractId} {c : Contract}
    (hc : h.unit.contract? id = some c) : h.Holds c := by
  unfold Headers.Holds
  rw [numbered id c hc, hc]
  rfl

theorem addContext_seated {h : Headers} {id : ContractId} (numbered : h.Numbered)
    (seated : h.Seated) : (addContext h id).Seated := by
  unfold addContext
  split
  · next context hcontext =>
      refine (foldl_keeps
        (P := fun t : ContextHeaders => t.headers.Holds context ∧ t.headers.Seated)
        ⟨numbered.holds hcontext, seated⟩ ?_).2
      rintro t base - ⟨ht, hseated⟩
      exact ⟨(addBase_grows _ t base).holds ht, addBase_seated ht hseated⟩
  · exact seated

theorem addFree_seated {h : Headers} {free : FreeFunction} (seated : h.Seated) :
    (addFree h free).Seated := by
  unfold addFree
  split
  · exact seated
  · next n hn => exact seated.seat rfl rfl hn rfl rfl

theorem buildHeaders_seated {h : Headers} (numbered : h.Numbered) (seated : h.Seated) :
    (buildHeaders h).Seated := by
  have contracts :
      (h.index.contracts.foldl (fun h c => addContext h c.id) h).Numbered ∧
        (h.index.contracts.foldl (fun h c => addContext h c.id) h).Seated := by
    refine foldl_keeps (P := fun t : Headers => t.Numbered ∧ t.Seated) ⟨numbered, seated⟩ ?_
    rintro t c - ⟨ht, hseated⟩
    exact ⟨(addContext_grows t c.id).numbered ht, addContext_seated ht hseated⟩
  exact foldl_keeps contracts.2 fun t free _ ht => addFree_seated ht

/-! ## Every definition has an instance -/

/-- `d` is the definition of a function of contract `base`, and no constructor. -/
def Headers.Declares (h : Headers) (base : ContractId) (d : Int) : Prop :=
  (∃ definition, h.index.contract? base = some definition ∧ d ∈ definition.definitions) ∧
    ∃ n name, h.index.definitions.get? d = some n ∧
      (h.unit.contract? base).map (·.name) = some name ∧ functionKind n (some name) ≠ .constructor

theorem Headers.Grows.declares_iff {h h' : Headers} (grows : h.Grows h') {base : ContractId}
    {d : Int} : h'.Declares base d ↔ h.Declares base d := by
  simp only [Headers.Declares, Index.contract?, grows.contracts, grows.definitions, grows.name_eq]

theorem addInstance_seats {context base : Contract} {file : String} {s : ContextHeaders} {d : Int}
    {n : Node} (hn : s.headers.index.definitions.get? d = some n)
    (hkind : functionKind n (some base.name) ≠ .constructor) :
    ((addInstance context base file s d).headers.index.instance? (some context.id) d).isSome := by
  obtain ⟨-, hnone⟩ | ⟨m, f, u, -, -, -, -, -, heq⟩ := addInstance_cases context base file s d
  · exact absurd (hnone n hn) hkind
  · rw [heq]
    simp [Index.instance?, Index.setInstance]

theorem addBase_seats {context : Contract} {s : ContextHeaders} {base : ContractId} {d : Int}
    (declares : s.headers.Declares base d) :
    ((addBase context s base).headers.index.instance? (some context.id) d).isSome := by
  obtain ⟨⟨definition, hdefinition, hd⟩, n, name, hn, hname, hkind⟩ := declares
  obtain ⟨c, hc, rfl⟩ := Option.map_eq_some_iff.1 hname
  unfold addBase
  rw [hdefinition, hc]
  refine foldl_reaches (P := fun t : ContextHeaders => t.headers.index.definitions.get? d = some n)
    (Q := fun t : ContextHeaders => (t.headers.index.instance? (some context.id) d).isSome)
    hd hn ?_ ?_ ?_
  · intro t e ht
    rwa [(addInstance_grows _ _ _ t e).definitions]
  · intro t ht
    exact addInstance_seats ht hkind
  · intro t e ht
    exact (addInstance_grows _ _ _ t e).seats _ ht

theorem addContext_seats {h : Headers} {id base : ContractId} {context : Contract} {d : Int}
    (numbered : h.Numbered) (hcontext : h.unit.contract? id = some context)
    (hbase : base ∈ context.linearization) (declares : h.Declares base d) :
    ((addContext h id).index.instance? (some id) d).isSome := by
  unfold addContext
  rw [hcontext]
  refine foldl_reaches (P := fun t : ContextHeaders => t.headers.Declares base d)
    (Q := fun t : ContextHeaders => (t.headers.index.instance? (some id) d).isSome)
    hbase declares ?_ ?_ ?_
  · intro t other ht
    exact (addBase_grows _ t other).declares_iff.2 ht
  · intro t ht
    rw [← numbered id context hcontext]
    exact addBase_seats ht
  · intro t other ht
    exact (addBase_grows _ t other).seats _ ht

/-- Every definition of the linearization of a contract, constructors apart, has an instance in the
contract. -/
theorem buildHeaders_seats {h : Headers} {id base : ContractId} {context : Contract} {d : Int}
    (numbered : h.Numbered) (listed : ∃ c ∈ h.index.contracts, c.id = id)
    (hcontext : h.unit.contract? id = some context) (hbase : base ∈ context.linearization)
    (declares : h.Declares base d) :
    ((buildHeaders h).index.instance? (some id) d).isSome := by
  obtain ⟨c, hc, rfl⟩ := listed
  have contracts : ((h.index.contracts.foldl (fun h c => addContext h c.id) h).index.instance?
      (some c.id) d).isSome := by
    refine foldl_reaches (P := h.Grows) (Q := fun t => (t.index.instance? (some c.id) d).isSome) hc
      (.refl h) ?_ ?_ ?_
    · intro t other ht
      exact ht.trans (addContext_grows t other.id)
    · intro t ht
      obtain ⟨context', hcontext', heq⟩ := ht.contract_of hcontext
      have hlinear : context'.linearization = context.linearization := congrArg (·.2.2) heq
      exact addContext_seats (ht.numbered numbered) hcontext' (hlinear ▸ hbase)
        (ht.declares_iff.2 declares)
    · intro t other ht
      exact (addContext_grows t other.id).seats _ ht
  exact foldl_keeps (P := fun t : Headers => (t.index.instance? (some c.id) d).isSome) contracts
    fun t free _ ht => (addFree_grows t free).seats _ ht

/-! ## Resolved loaders -/

theorem resolveVariables_ids (index : Index) (u : Compilation) :
    (resolveVariables index u).contracts.map (·.id) = u.contracts.map (·.id) := by
  have contracts : (index.contracts.foldl (resolveContract index) u).contracts.map (·.id) =
      u.contracts.map (·.id) := by
    refine foldl_keeps (P := fun t : Compilation => t.contracts.map (·.id) = u.contracts.map (·.id))
      rfl ?_
    intro t d _ ht
    rw [← ht]
    apply Compilation.map_modifyContract
    exact fun _ => rfl
  exact foldl_keeps (P := fun t : Compilation => t.contracts.map (·.id) = u.contracts.map (·.id))
    contracts fun t entry _ ht => ht

theorem resolveHeaderCalls_contracts (index : Index) (u : Compilation) :
    (resolveHeaderCalls index u).contracts = u.contracts := by
  refine foldl_keeps (P := fun t : Compilation => t.contracts = u.contracts) rfl ?_
  intro t entry _ ht
  unfold resolveInstance
  split
  · exact ht
  · exact ht

/-- The header calls of a function say nothing about where it is from. -/
theorem resolveHeaderCalls_origin (index : Index) (u : Compilation) :
    (resolveHeaderCalls index u).functions.map (fun f => (f.context, f.astId)) =
      u.functions.map (fun f => (f.context, f.astId)) := by
  refine foldl_keeps
    (P := fun t : Compilation => t.functions.map (fun f => (f.context, f.astId)) =
      u.functions.map (fun f => (f.context, f.astId))) rfl ?_
  intro t entry _ ht
  unfold resolveInstance
  split
  · exact ht
  · rw [← ht]
    apply Compilation.map_modifyFunction
    exact fun _ => rfl

theorem resolveHeaderCalls_grows (h : Headers) :
    h.Grows ⟨resolveHeaderCalls h.index h.unit, h.index⟩ where
  definitions := rfl
  contracts := rfl
  outlines := by rw [resolveHeaderCalls_contracts]
  seats _ hseat := hseat

theorem Headers.Seated.resolveHeaderCalls {h : Headers} (seated : h.Seated) :
    Seated ⟨Solidity.resolveHeaderCalls h.index h.unit, h.index⟩ where
  apart := seated.apart
  function seat id hid := by
    obtain ⟨f, n, hf, hn, hast, hcontext⟩ := seated.function seat id hid
    have origin := congrArg (·[id.index]?) (resolveHeaderCalls_origin h.index h.unit)
    simp only [Array.getElem?_map] at origin
    rw [show h.unit.functions[id.index]? = some f from hf, Option.map_some,
      Option.map_eq_some_iff] at origin
    obtain ⟨f', hf', heq⟩ := origin
    refine ⟨f', n, hf', hn, (congrArg (·.2) heq).trans hast, ?_⟩
    rw [(resolveHeaderCalls_grows h).context_eq]
    exact (congrArg (·.1) heq).trans hcontext

namespace Loader

/-- The registered part of a loader, as headers. -/
def headers (l : Loader) : Headers := ⟨l.unit, l.index⟩

/-- What resolving gives: every definition that a contract sees has an instance there, of its own. -/
structure IsResolved (l : Loader) : Prop where
  seated : l.headers.Seated
  placed : ∀ d n, l.index.definitions.get? d = some n → n.id? = some d
  seats : ∀ id c base d, l.unit.contract? id = some c → base ∈ c.linearization →
    l.headers.Declares base d → (l.index.instance? (some id) d).isSome

/-- The headers before there are functions. -/
def bareHeaders (l : Loader) : Headers := ⟨resolveVariables l.index l.unit, l.index⟩

/-- Building the functions of bare headers. -/
theorem leads_buildFunctions {t : Loader} (registered : t.IsRegistered) :
    Leads buildFunctions t (fun _ r => t.headers.Grows r.headers ∧ r.IsResolved) fun _ => True := by
  obtain ⟨count, ht⟩ := registered
  refine leads_bind (leads_modify (leads_modify ?_))
  have grows := (buildHeaders_grows t.headers).trans (resolveHeaderCalls_grows _)
  have numbered : t.headers.Numbered := fun _ _ hc => ht.contract_id hc
  refine ⟨grows, ?seated, ?placed, ?seats⟩
  case seated =>
    exact (buildHeaders_seated numbered (Headers.seated_of_bare ht.bare)).resolveHeaderCalls
  case placed =>
    intro d n hn
    exact ht.placed d n (grows.definitions ▸ hn)
  case seats =>
    intro id c base d hc hbase declares
    obtain ⟨c', hc', heq⟩ := grows.contract_from hc
    have hlinear : c.linearization = c'.linearization := congrArg (·.2.2) heq
    exact buildHeaders_seats numbered (ht.contract_listed hc') hc' (hlinear ▸ hbase)
      (grows.declares_iff.1 declares)

theorem leads_resolve {l : Loader} (h : l.IsRegistered) :
    Leads resolve l (fun _ r => l.bareHeaders.Grows r.headers ∧ r.IsResolved) fun _ => True := by
  obtain ⟨count, h⟩ := h
  have start := h.ofUnit (resolveVariables_ids l.index l.unit)
  refine leads_bind (leads_get (leads_bind (leads_modify ?_)))
  refine (leads_forM (fun _ t => l.bareHeaders.unit.contracts = t.unit.contracts ∧
    l.index = t.index) ⟨rfl, rfl⟩ ?_).bind ?_
  · rintro position _ t _ ⟨hcontracts, hindex⟩
    refine (leads_readDeclaration t position).mono ?_
    rintro _ r ⟨hr, hr'⟩
    exact ⟨hcontracts.trans hr.symm, hindex.trans hr'.symm⟩
  · rintro _ t ⟨hcontracts, hindex⟩
    have registered : Registered count count ⟨t.unit, t.index⟩ := by
      rw [← hindex]
      exact start.ofUnit (congrArg _ hcontracts.symm)
    have grows : l.bareHeaders.Grows ⟨t.unit, t.index⟩ := by
      rw [← hindex]
      exact ⟨rfl, rfl, congrArg _ hcontracts.symm, fun _ => id⟩
    exact (leads_buildFunctions ⟨count, registered⟩).mono fun _ _ hr => ⟨grows.trans hr.1, hr.2⟩

theorem resolved_of_run {target : String} {sources : List SourceUnit} {policy : FailurePolicy}
    {parsed l : Loader} (hparse : parse.run (.new target sources policy) = (.ok (), parsed))
    (hresolve : resolve.run parsed = (.ok (), l)) :
    parsed.bareHeaders.Grows l.headers ∧ l.IsResolved := by
  have registered := (leads_parse target sources policy).of_run hparse
  exact (leads_resolve registered).of_run hresolve

end Loader

end Solidity

end ContractCalls
