/-
# Parsing half-way

Registration goes through the nodes of the source units in order.  Where it
fails, what was registered before stays: the contracts of an initial part of
the nodes, the last of them perhaps without all of its members.

A contract gets the next number and is listed once its members are registered,
so that a contract whose members failed has a number and is never listed.
-/
import ContractCalls.Proofs.Attempt
import ContractCalls.Proofs.Solidity.Copies

namespace ContractCalls

/-- Steps over a list, each of which adds its part or, where it fails, the beginning of it. -/
theorem ends_forM_part {ε σ γ δ : Type} {f : γ → Step ε σ PUnit} {g : γ → List δ}
    (P : List δ → σ → Prop) {xs : List γ} {all : List δ} (hall : xs.flatMap g = all) {s : σ}
    {start : List δ} (hs : P start s)
    (hf : ∀ x ∈ xs, ∀ done t, P done t → Ends (f x) t (fun _ => P (done ++ g x))
      fun _ t => ∃ part, part <+: g x ∧ P (done ++ part) t) :
    Ends (xs.forM f) s (fun _ => P (start ++ all))
      fun _ t => ∃ part, part <+: all ∧ P (start ++ part) t := by
  subst hall
  induction xs generalizing start s with
  | nil => exact ends_pure (by simpa using hs)
  | cons x rest ih =>
      show Ends (f x >>= fun _ => rest.forM f) s _ _
      refine ends_bind ((hf x List.mem_cons_self start s hs).imp (fun _ t ht => ?_) ?_)
      · refine (ih ht fun y hy => hf y (List.mem_cons_of_mem x hy)).imp ?_ ?_
        · intro _ t' ht'
          rwa [List.flatMap_cons, ← List.append_assoc]
        · rintro _ t' ⟨part, hpart, ht'⟩
          refine ⟨g x ++ part, ?_, by rwa [← List.append_assoc]⟩
          rw [List.flatMap_cons]
          exact List.prefix_append_right_inj _ |>.2 hpart
      · rintro _ t ⟨part, hpart, ht⟩
        rw [List.flatMap_cons]
        exact ⟨part, hpart.trans (List.prefix_append _ _), ht⟩

/-- What a registered contract is before anything is analysed. -/
def Contract.entry (c : Contract) :
    ContractId × (String × Option Int) × List ContractId × List FunctionId :=
  (c.id, c.label, c.linearization, c.functions)

namespace Solidity

/-- What a contract definition says of its contract. -/
def Node.contractLabel (n : Node) : String × Option Int := ((n.text? "name").getD "", n.id?)

/-- The contracts among the nodes of source units. -/
def contractNodes (nodes : List Node) : List Node := nodes.filter (·.is "ContractDefinition")

/-- The free functions among the nodes of source units. -/
def functionNodes (nodes : List Node) : List Node := nodes.filter (·.is "FunctionDefinition")

/-- The contracts of definitions before anything is analysed. -/
def bareEntries (nodes : List Node) :
    List (ContractId × (String × Option Int) × List ContractId × List FunctionId) :=
  nodes.mapIdx fun i n => (⟨i⟩, n.contractLabel, [⟨i⟩], [])

theorem map_bareEntries (nodes : List Node) :
    (bareEntries nodes).map (fun entry => entry.2.1) = nodes.map Node.contractLabel := by
  apply List.ext_getElem?
  intro i
  simp [bareEntries, Function.comp_def]

/-! ## Registration -/

/-- What the index says once the nodes of source units were registered: every contract is listed
once, the free functions are known, and a definition is found under its own id. -/
structure Index.Registers (nodes : List Node) (i : Index) : Prop where
  listed : (i.contracts.map (·.id)).Nodup
  free : (i.freeFunctions.map (·.definition)).map some = (functionNodes nodes).map (·.id?)
  defined : ∀ f ∈ i.freeFunctions, (i.definitions.get? f.definition).isSome
  placed : i.Placed

/-- A registry that the nodes of source units were registered in, and nothing else was done to. -/
structure Gathered (nodes : List Node) (r : Registry) : Prop
    extends Index.Registers nodes r.index where
  contracts : (r.unit.contracts.map Contract.entry).toList = bareEntries (contractNodes nodes)
  functions : r.unit.functions = #[]
  isParsed : r.unit.isParsed = false
  isAnalyzed : r.unit.isAnalyzed = false
  held : ∀ c ∈ r.index.contracts, c.id.index < r.unit.contracts.size

/-- The second registry has more declarations and definitions at most. -/
structure Registry.Declares (r r' : Registry) : Prop where
  contracts : r'.unit.contracts.map Contract.entry = r.unit.contracts.map Contract.entry
  functions : r'.unit.functions = r.unit.functions
  isParsed : r'.unit.isParsed = r.unit.isParsed
  isAnalyzed : r'.unit.isAnalyzed = r.unit.isAnalyzed
  listed : r'.index.contracts = r.index.contracts
  free : r'.index.freeFunctions = r.index.freeFunctions
  defined : ∀ d, (r.index.definitions.get? d).isSome → (r'.index.definitions.get? d).isSome
  placed : r.index.Placed → r'.index.Placed

namespace Registry.Declares

variable {r r' r'' : Registry}

theorem refl (r : Registry) : r.Declares r := ⟨rfl, rfl, rfl, rfl, rfl, rfl, fun _ => id, id⟩

theorem trans (first : r.Declares r') (next : r'.Declares r'') : r.Declares r'' where
  contracts := next.contracts.trans first.contracts
  functions := next.functions.trans first.functions
  isParsed := next.isParsed.trans first.isParsed
  isAnalyzed := next.isAnalyzed.trans first.isAnalyzed
  listed := next.listed.trans first.listed
  free := next.free.trans first.free
  defined d hd := next.defined d (first.defined d hd)
  placed h := next.placed (first.placed h)

theorem size_eq (h : r.Declares r') : r'.unit.contracts.size = r.unit.contracts.size := by
  simpa using congrArg Array.size h.contracts

end Registry.Declares

namespace Gathered

variable {nodes : List Node} {r r' : Registry}

theorem declares (h : Gathered nodes r) (h' : r.Declares r') : Gathered nodes r' where
  contracts := by rw [h'.contracts]; exact h.contracts
  functions := h'.functions.trans h.functions
  isParsed := h'.isParsed.trans h.isParsed
  isAnalyzed := h'.isAnalyzed.trans h.isAnalyzed
  listed := by rw [h'.listed]; exact h.listed
  held := by rw [h'.listed, h'.size_eq]; exact h.held
  free := by rw [h'.free]; exact h.free
  defined f hf := h'.defined _ (h.defined f (h'.free ▸ hf))
  placed := h'.placed h.placed

/-- Nodes that are neither contracts nor functions. -/
theorem append (h : Gathered nodes r) {n : Node} (hcontract : n.is "ContractDefinition" = false)
    (hfunction : n.is "FunctionDefinition" = false) : Gathered (nodes ++ [n]) r := by
  have hcontracts : contractNodes (nodes ++ [n]) = contractNodes nodes := by
    simp [contractNodes, hcontract]
  have hfunctions : functionNodes (nodes ++ [n]) = functionNodes nodes := by
    simp [functionNodes, hfunction]
  exact { h with contracts := by rw [hcontracts]; exact h.contracts
                 free := by rw [hfunctions]; exact h.free }

theorem size_eq (h : Gathered nodes r) : r.unit.contracts.size = (contractNodes nodes).length := by
  simpa [bareEntries] using congrArg List.length h.contracts

/-- A contract among gathered nodes has its number and nothing else. -/
theorem entry_eq (h : Gathered nodes r) {id : ContractId} {c : Contract}
    (hc : r.unit.contract? id = some c) : c.id = id ∧ c.linearization = [id] ∧ c.functions = [] := by
  have hentry : (r.unit.contracts.map Contract.entry).toList[id.index]? = some c.entry := by
    simp [show r.unit.contracts[id.index]? = some c from hc]
  rw [h.contracts, bareEntries, List.getElem?_mapIdx, Option.map_eq_some_iff] at hentry
  obtain ⟨n, -, hentry⟩ := hentry
  exact ⟨(congrArg (·.1) hentry).symm, (congrArg (·.2.2.1) hentry).symm,
    (congrArg (·.2.2.2) hentry).symm⟩

end Gathered

theorem Registry.declares_setDeclaration (r : Registry) (id : Int) (ref : DeclRef) :
    r.Declares ⟨r.unit, r.index.setDeclaration id ref⟩ :=
  ⟨rfl, rfl, rfl, rfl, rfl, rfl, fun _ hd => hd, fun h => h⟩

theorem Index.placed_setDefinition {i : Index} (h : i.Placed) {id : Int} {n : Node}
    (hn : n.id? = some id) : (i.setDefinition id n).Placed := by
  intro d m hm
  simp only [Index.setDefinition, Table.get?_insert] at hm
  split at hm
  · next heq =>
      cases hm
      rw [← heq]
      exact hn
  · exact h d m hm

theorem Index.defined_setDefinition (i : Index) (id : Int) (n : Node) {d : Int}
    (hd : (i.definitions.get? d).isSome) : ((i.setDefinition id n).definitions.get? d).isSome := by
  simp only [Index.setDefinition, Table.get?_insert]
  split
  · rfl
  · exact hd

theorem Registry.declares_setDefinition (r : Registry) {id : Int} {n : Node} (hn : n.id? = some id) :
    r.Declares ⟨r.unit, r.index.setDefinition id n⟩ :=
  ⟨rfl, rfl, rfl, rfl, rfl, rfl, fun _ hd => r.index.defined_setDefinition id n hd,
    fun h => Index.placed_setDefinition h hn⟩

namespace Register

variable {nodes : List Node} {r : Registry}

theorem ends_requiredId (n : Node) :
    Ends (requiredId n) r (fun id t => n.id? = some id ∧ r = t) fun _ t => r = t := by
  unfold requiredId
  split
  · next hid => exact ends_pure ⟨hid, rfl⟩
  · exact ends_throw rfl

theorem leaves_declaration (r : Registry) (scope : ScopeId) (owner : Option String) (n : Node) :
    Leaves (declaration scope owner n) r r.Declares := by
  unfold declaration
  split
  · next kind name _ _ =>
      have added : r.Declares ⟨(r.unit.addDeclaration scope owner name kind [n.json]).2, r.index⟩ := by
        refine ⟨Compilation.map_addDeclaration (fun _ _ => rfl) .., ?_, ?_, ?_, rfl, rfl,
          fun _ hd => hd, fun h => h⟩
        all_goals
          unfold Compilation.addDeclaration
          dsimp only
          split <;> rfl
      refine ends_bind (ends_modify ?_)
      split
      · exact ends_modify (added.trans (Registry.declares_setDeclaration _ _ _))
      · exact ends_pure added
  · exact ends_pure (.refl r)

/-- A member of a contract declares something at most. -/
theorem ends_member (r : Registry) (scope : ScopeId) (owner : String)
    (gathered : ContractDefinition) (n : Node) :
    Ends (member scope owner gathered n) r (fun d t => d.id = gathered.id ∧ r.Declares t)
      fun _ => r.Declares := by
  have hdefinition : Ends (definition gathered n) r
      (fun d t => d.id = gathered.id ∧ r.Declares t) fun _ => r.Declares := by
    refine ends_bind ((ends_requiredId n).imp ?_ ?_)
    · rintro id _ ⟨hid, rfl⟩
      refine ends_bind (ends_modify (ends_pure ⟨rfl, ?_⟩))
      exact (Registry.declares_setDeclaration _ id _).trans (Registry.declares_setDefinition _ hid)
    · rintro _ _ rfl
      exact .refl _
  unfold member
  split
  · exact ends_pure ⟨rfl, .refl r⟩
  · unfold stateVariable
    split
    · exact ends_bind (ends_modify (ends_pure ⟨rfl, Registry.declares_setDeclaration _ _ _⟩))
    · exact ends_pure ⟨rfl, .refl r⟩
  · exact hdefinition
  · exact hdefinition
  · exact (leaves_declaration r scope (some owner) n).bind fun _ _ ht => ends_pure ⟨rfl, ht⟩

theorem ends_members (r : Registry) (scope : ScopeId) (owner : String)
    (bare : ContractDefinition) (members : List Node) :
    Ends (members.foldlM (member scope owner) bare) r
      (fun d t => d.id = bare.id ∧ r.Declares t) fun _ => r.Declares := by
  refine ends_foldlM (fun (d : ContractDefinition) t => d.id = bare.id ∧ r.Declares t)
    ⟨rfl, .refl r⟩ ?_
  rintro d n t ⟨hd, ht⟩
  refine (ends_member t scope owner d n).imp ?_ fun _ _ hfail => ht.trans hfail
  rintro d' t' ⟨hd', ht'⟩
  exact ⟨hd'.trans hd, ht.trans ht'⟩

theorem modify_push {α : Type} (xs : Array α) (x : α) (f : α → α) :
    (xs.push x).modify xs.size f = xs.push (f x) := by
  apply Array.ext_getElem?
  intro i
  rw [Array.getElem?_modify, Array.getElem?_push, Array.getElem?_push]
  split
  · next hi => simp [← hi]
  · next hi => simp [Ne.symm hi]

/-- A contract that has been added, without its members. -/
theorem gathered_contract (h : Gathered nodes r) {n : Node} (hn : n.is "ContractDefinition")
    {name : String} (hname : n.text? "name" = some name) (kind : ContractKind) (scope : ScopeId)
    {f : Contract → Contract}
    (hf : ∀ c, (f c).entry = (c.id, (c.name, n.id?), c.linearization, c.functions)) :
    Gathered (nodes ++ [n])
      ⟨(r.unit.addContract name kind scope).2.modifyContract ⟨r.unit.contracts.size⟩ f, r.index⟩ := by
  have hcontracts : contractNodes (nodes ++ [n]) = contractNodes nodes ++ [n] := by
    simp [contractNodes, hn]
  have hfunctions : functionNodes (nodes ++ [n]) = functionNodes nodes := by
    have hother : n.is "FunctionDefinition" = false := by
      simp only [Node.is, beq_iff_eq] at hn
      simp [Node.is, hn]
    simp [functionNodes, hother]
  have pushed : ((r.unit.addContract name kind scope).2.modifyContract
      ⟨r.unit.contracts.size⟩ f).contracts =
        r.unit.contracts.push (f (.new ⟨r.unit.contracts.size⟩ name kind scope)) :=
    modify_push _ _ _
  refine { h with free := ?_, contracts := ?_, held := ?_ }
  · rw [hfunctions]
    exact h.free
  · rw [pushed, Array.map_push, Array.toList_push, h.contracts, hcontracts, bareEntries,
      bareEntries, List.mapIdx_concat, hf, h.size_eq, Node.contractLabel, hname]
    rfl
  · intro d hd
    rw [pushed, Array.size_push]
    exact Nat.lt_succ_of_lt (h.held d hd)

/-- The members of a contract, and its place in the list behind those that were there before. -/
theorem ends_listContract {t : Registry} (h : Gathered nodes t) {n : Node} {before : Nat}
    (hbefore : ∀ c ∈ t.index.contracts, c.id.index < before) (hsize : before < t.unit.contracts.size)
    (scope : ScopeId) (owner : String) {bare : ContractDefinition} (hid : bare.id = ⟨before⟩) :
    Ends (do
        let complete ← n.members.foldlM (member scope owner) bare
        modifyIndex fun i => { i with contracts := i.contracts ++ [complete] }) t
      (fun _ => Gathered nodes) fun _ => Gathered nodes := by
  refine ends_bind ((ends_members t scope owner bare n.members).imp ?_ fun _ _ ht => h.declares ht)
  rintro d t' ⟨hd, ht⟩
  have after := h.declares ht
  refine ends_modify { after with listed := ?_, held := ?_ }
  · rw [List.map_append, List.nodup_append]
    refine ⟨after.listed, by simp, ?_⟩
    rintro id hmem _ hlast rfl
    obtain ⟨c, hc, rfl⟩ := List.mem_map.1 hmem
    rw [List.map_singleton, List.mem_singleton, hd, hid] at hlast
    have hlt := hbefore c (ht.listed ▸ hc)
    rw [hlast] at hlt
    exact Nat.lt_irrefl _ hlt
  · intro c hc
    rcases List.mem_append.1 hc with hc | hc
    · exact after.held c hc
    · rw [List.mem_singleton.1 hc, hd, hid, ht.size_eq]
      exact hsize

/-- A contract is registered with its members, or without some of them, or not at all. -/
theorem ends_contract (h : Gathered nodes r) (scope : ScopeId) (file : String) {n : Node}
    (hn : n.is "ContractDefinition") :
    Ends (contract scope file n) r (fun _ => Gathered (nodes ++ [n]))
      fun _ t => Gathered nodes t ∨ Gathered (nodes ++ [n]) t := by
  unfold contract
  split
  · exact ends_throw (Or.inl h)
  · next name hname =>
      refine ends_bind (ends_get (ends_bind (ends_modify ?_)))
      have added {f : Contract → Contract} := gathered_contract (f := f) h hn hname
        (((n.text? "contractKind").map ContractKind.parse).getD .contract) scope
      have grown {t : Registry} (ht : Gathered (nodes ++ [n]) t) :
          r.unit.contracts.size < t.unit.contracts.size := by
        rw [ht.size_eq, h.size_eq, contractNodes, contractNodes, List.filter_append]
        simp [hn]
      refine Ends.imp
        (?_ : Ends _ _ (fun _ => Gathered (nodes ++ [n])) fun _ => Gathered (nodes ++ [n]))
        (fun _ _ hok => hok) fun _ _ herr => Or.inr herr
      cases hid : n.id? with
      | none =>
          refine ends_listContract ?bare ?before (grown ?bare) scope name ?id
          case bare => exact added fun _ => by simp [Contract.entry, Contract.label, hid]
          case before => exact h.held
          case id => rfl
      | some astId =>
          refine ends_bind (ends_modify ?_)
          refine ends_listContract ?declared ?listed (grown ?declared) scope name ?number
          case declared =>
            refine Gathered.declares ?_ (Registry.declares_setDeclaration _ astId _)
            exact added fun _ => by simp [Contract.entry, Contract.label, hid]
          case listed => exact h.held
          case number => rfl

theorem ends_freeFunction (h : Gathered nodes r) (scope : ScopeId) (file : String) {n : Node}
    (hn : n.is "FunctionDefinition") :
    Ends (freeFunction scope file n) r (fun _ => Gathered (nodes ++ [n])) fun _ => Gathered nodes := by
  refine ends_bind ((ends_requiredId n).imp ?_ ?_)
  · rintro id _ ⟨hid, rfl⟩
    have declared := (Registry.declares_setDeclaration r id (.function none)).trans
      (Registry.declares_setDefinition _ hid)
    have after := h.declares declared
    have hcontracts : contractNodes (nodes ++ [n]) = contractNodes nodes := by
      have hother : n.is "ContractDefinition" = false := by
        simp only [Node.is, beq_iff_eq] at hn
        simp [Node.is, hn]
      simp [contractNodes, hother]
    have hfunctions : functionNodes (nodes ++ [n]) = functionNodes nodes ++ [n] := by
      simp [functionNodes, hn]
    refine ends_modify { after with free := ?_, defined := ?_, contracts := ?_ }
    · rw [hfunctions, List.map_append, List.map_append, List.map_append, h.free]
      simp [hid]
    · intro f hf
      rcases List.mem_append.1 hf with hf | hf
      · exact after.defined f hf
      · rw [List.mem_singleton.1 hf]
        simp [Index.setDefinition]
    · rw [hcontracts]
      exact h.contracts
  · rintro _ _ rfl
    exact h

theorem ends_fileConstant (h : Gathered nodes r) (scope : ScopeId) (n : Node) :
    Leaves (fileConstant scope n) r (Gathered nodes) := by
  refine ends_bind ((ends_requiredId n).imp ?_ ?_)
  · rintro id _ ⟨-, rfl⟩
    have declared := Registry.declares_setDeclaration r id (.fileConstant (n.name?.getD "") n.ty)
    exact ends_modify { h.declares declared with }
  · rintro _ _ rfl
    exact h

/-- A node of a source unit is registered, or it is not and the registration fails. -/
theorem ends_topLevel (h : Gathered nodes r) (scope : ScopeId) (file : String) (n : Node) :
    Ends (topLevel scope file n) r (fun _ => Gathered (nodes ++ [n]))
      fun _ t => ∃ part, part <+: [n] ∧ Gathered (nodes ++ part) t := by
  have none {t : Registry} (ht : Gathered nodes t) :
      ∃ part, part <+: [n] ∧ Gathered (nodes ++ part) t :=
    ⟨[], List.nil_prefix, by simpa using ht⟩
  unfold topLevel
  split
  · next hn =>
      refine (ends_contract h scope file (by simp [Node.is, hn])).imp (fun _ _ ht => ht) ?_
      rintro _ t (ht | ht)
      · exact none ht
      · exact ⟨[n], List.prefix_rfl, ht⟩
  · next hn =>
      exact (ends_freeFunction h scope file (by simp [Node.is, hn])).imp (fun _ _ ht => ht)
        fun _ _ ht => none ht
  · next hn =>
      exact (ends_fileConstant h scope n).imp
        (fun _ _ ht => ht.append (by simp [Node.is, hn]) (by simp [Node.is, hn]))
        fun _ _ ht => none ht
  · next hcontract hfunction _ =>
      refine (leaves_declaration r scope Option.none n).imp (fun _ _ ht => ?_)
        fun _ _ ht => none (h.declares ht)
      exact (h.declares ht).append (by simpa [Node.is] using hcontract)
        (by simpa [Node.is] using hfunction)

end Register

/-! ## Attempts to parse -/

namespace Loader

/-- The nodes of all source units, in order. -/
def nodes (l : Loader) : List Node := l.sources.flatMap fun s => (Node.mk l.dialect s.ast).members

/-- A loader that nodes were registered in, and that reads the same sources as the first one. -/
structure Gathering (start : Loader) (nodes : List Node) (l : Loader) : Prop where
  gathered : Gathered nodes l.registry
  dialect : l.dialect = start.dialect
  sources : l.sources = start.sources

variable {start l : Loader} {nodes : List Node}

theorem ends_registering {α : Type} {x : Register α} {ok : α → Loader → Prop}
    {err : FrontEndError → Loader → Prop}
    (h : Ends x l.registry (fun a r => ok a { l with unit := r.unit, index := r.index })
      fun e r => err e { l with unit := r.unit, index := r.index }) :
    Ends (registering x) l ok err :=
  ends_zoom registry (fun l r => { l with unit := r.unit, index := r.index }) h

theorem ends_onUnit {α : Type} {x : OnCompilation α} {ok : α → Loader → Prop}
    {err : FrontEndError → Loader → Prop}
    (h : Ends x l.unit (fun a unit => ok a { l with unit }) fun e unit => err e { l with unit }) :
    Ends (onUnit x) l ok err :=
  ends_zoom Loader.unit (fun l unit => { l with unit }) h

theorem gathered_addScope {r : Registry} (h : Gathered nodes r) (file : String) :
    Gathered nodes ⟨(r.unit.addScope file).2, r.index⟩ := by
  refine h.declares ⟨?_, ?_, ?_, ?_, rfl, rfl, fun _ hd => hd, fun hp => hp⟩
  all_goals
    unfold Compilation.addScope
    split <;> rfl

theorem ends_registerSource (h : Gathering start nodes l) (source : SourceUnit) :
    Ends (registerSource source) l
      (fun _ => Gathering start (nodes ++ (Node.mk start.dialect source.ast).members))
      fun _ t => ∃ part, part <+: (Node.mk start.dialect source.ast).members ∧
        Gathering start (nodes ++ part) t := by
  unfold registerSource
  refine ends_bind (ends_get ?_)
  dsimp only
  split
  · exact ends_bind (ends_throw ⟨[], List.nil_prefix, by simpa using h⟩)
  · refine ends_bind (ends_get (ends_bind (ends_modify ?_)))
    rw [← h.dialect]
    refine ends_forM_part (Gathering start) (List.flatMap_singleton' _) ?_ ?_
    · exact ⟨gathered_addScope h.gathered source.path, h.dialect, h.sources⟩
    intro n _ done t ht
    refine ends_registering ((Register.ends_topLevel ht.gathered _ _ n).imp ?_ ?_)
    · exact fun _ _ hr => ⟨hr, ht.dialect, ht.sources⟩
    · rintro _ _ ⟨part, hpart, hr⟩
      exact ⟨part, hpart, hr, ht.dialect, ht.sources⟩

/-- An attempt to parse registers all nodes, or the first of them. -/
theorem ends_parse (h : Gathering start nodes l) :
    Ends parse l
      (fun _ t => ∃ r, Gathering start (nodes ++ start.nodes) r ∧
        t = { r with unit := r.unit.markParsed })
      fun _ t => ∃ part, part <+: start.nodes ∧ Gathering start (nodes ++ part) t := by
  unfold parse
  refine ends_bind (ends_get ?_)
  rw [show l.unit.isParsed = false from h.gathered.isParsed]
  refine ends_bind (ends_modify (ends_bind (ends_get ?_)))
  have hnodes : (l.sources.flatMap fun s => (Node.mk start.dialect s.ast).members) =
      start.nodes := by
    rw [Loader.nodes, h.sources]
  refine ends_bind ((ends_forM_part (Gathering start) hnodes ?_
    fun source _ done t ht => ends_registerSource ht source).imp ?_ fun _ _ ht => ht)
  · exact ⟨{ h.gathered with }, h.dialect, h.sources⟩
  · intro _ r hr
    exact ends_modify ⟨r, hr, rfl⟩

end Loader

end Solidity

end ContractCalls
