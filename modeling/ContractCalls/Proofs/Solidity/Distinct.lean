/-
# Declarations with distinct ids

The ids of one compiler run are distinct.  Then no registration touches what an
earlier one has put under its id: every definition that a contract lists is
still found under its id when all sources are registered, and the id refers to
a function or modifier of that contract.

`Index.Spares` says of a step under which ids it may have changed anything.
The steps on the members of a contract are composed by adding these ids up.
-/
import ContractCalls.Proofs.Solidity.Gathering

namespace ContractCalls

namespace Solidity

/-- What the id of a definition of a contract refers to. -/
def definitionRef (contract : ContractId) (n : Node) : DeclRef :=
  if n.is "ModifierDefinition" then .modifier contract else .function (some contract)

namespace Index

/-- The id leads to a definition and refers to it as one of the contract. -/
def Defines (i : Index) (contract : ContractId) (d : Int) : Prop :=
  ∃ n, i.definitions.get? d = some n ∧ i.declarations.get? d = some (definitionRef contract n)

/-- All ids that contracts list lead to definitions of these contracts. -/
def DefinesListed (i : Index) : Prop := ∀ c ∈ i.contracts, ∀ d ∈ c.definitions, i.Defines c.id d

/-- The same, where all of these ids are among `ids`. -/
def DefinesAll (ids : List Int) (i : Index) : Prop :=
  ∀ c ∈ i.contracts, ∀ d ∈ c.definitions, d ∈ ids ∧ i.Defines c.id d

/-- The second index has the same contracts, and differs from the first under the given ids at
most. -/
structure Spares (ids : List Int) (i i' : Index) : Prop where
  contracts : i'.contracts = i.contracts
  declarations : ∀ d, d ∉ ids → i'.declarations.get? d = i.declarations.get? d
  definitions : ∀ d, d ∉ ids → i'.definitions.get? d = i.definitions.get? d

variable {i i' i'' : Index} {ids ids' : List Int}

theorem Spares.refl (ids : List Int) (i : Index) : i.Spares ids i :=
  ⟨rfl, fun _ _ => rfl, fun _ _ => rfl⟩

theorem Spares.trans (first : i.Spares ids i') (next : i'.Spares ids' i'') :
    i.Spares (ids ++ ids') i'' := by
  refine ⟨next.contracts.trans first.contracts, fun d hd => ?_, fun d hd => ?_⟩
  all_goals
    rw [List.mem_append, not_or] at hd
  · rw [next.declarations d hd.2, first.declarations d hd.1]
  · rw [next.definitions d hd.2, first.definitions d hd.1]

theorem Spares.defines (spares : i.Spares ids i') {contract : ContractId} {d : Int} (hd : d ∉ ids)
    (defines : i.Defines contract d) : i'.Defines contract d := by
  obtain ⟨n, hn, href⟩ := defines
  exact ⟨n, (spares.definitions d hd).trans hn, (spares.declarations d hd).trans href⟩

theorem Spares.definesAll {taken : List Int} (spares : i.Spares ids i')
    (hapart : ∀ d ∈ taken, d ∉ ids) (defines : i.DefinesAll taken) : i'.DefinesAll taken := by
  intro c hc d hd
  rw [spares.contracts] at hc
  obtain ⟨htaken, hd⟩ := defines c hc d hd
  exact ⟨htaken, spares.defines (hapart d htaken) hd⟩

theorem DefinesAll.mono (defines : i.DefinesAll ids) (h : ids ⊆ ids') : i.DefinesAll ids' :=
  fun c hc d hd => ⟨h (defines c hc d hd).1, (defines c hc d hd).2⟩

theorem spares_setDeclaration (i : Index) {id : Int} (ref : DeclRef) (hid : id ∈ ids) :
    i.Spares ids (i.setDeclaration id ref) := by
  refine ⟨rfl, fun d hd => ?_, fun _ _ => rfl⟩
  have hne : id ≠ d := ne_of_mem_of_not_mem hid hd
  rw [setDeclaration, Table.get?_insert, if_neg hne]

theorem spares_setDefinition (i : Index) {id : Int} (n : Node) (hid : id ∈ ids) :
    i.Spares ids (i.setDefinition id n) := by
  refine ⟨rfl, fun _ _ => rfl, fun d hd => ?_⟩
  have hne : id ≠ d := ne_of_mem_of_not_mem hid hd
  rw [setDefinition, Table.get?_insert, if_neg hne]

end Index

/-! ## Registration -/

/-- The id of a node, if it has one. -/
def Node.ids (n : Node) : List Int := n.id?.toList

theorem Node.mem_ids {n : Node} {id : Int} (hid : n.id? = some id) : id ∈ n.ids := by
  simp [Node.ids, hid]

/-- The ids that a node of a source unit declares: its own, and those of its members if it is a
contract. -/
def Node.declaredIds (n : Node) : List Int :=
  n.ids ++ if n.is "ContractDefinition" then n.members.flatMap Node.ids else []

namespace Register

variable {r : Registry}

/-- A step that changes the index under the given ids at most, if it does not fail. -/
abbrev Touches (ids : List Int) (x : Register Unit) (r : Registry) : Prop :=
  Leads x r (fun _ t => r.index.Spares ids t.index) fun _ => True

theorem touches_declaration (r : Registry) (scope : ScopeId) (owner : Option String) (n : Node) :
    Touches n.ids (declaration scope owner n) r := by
  unfold declaration
  split
  · refine leads_bind (leads_modify ?_)
    split
    · next hid _ => exact leads_modify (r.index.spares_setDeclaration _ (n.mem_ids hid))
    · exact leads_pure (.refl _ _)
  · exact leads_pure (.refl _ _)

theorem touches_freeFunction (r : Registry) (scope : ScopeId) (file : String) (n : Node) :
    Touches n.ids (freeFunction scope file n) r := by
  refine (leads_requiredId n).bind ?_
  rintro id t ⟨hid, rfl⟩
  have declared := t.index.spares_setDeclaration (.function none) (n.mem_ids hid)
  have defined :=
    (t.index.setDeclaration id (.function none)).spares_setDefinition n (n.mem_ids hid)
  refine leads_modify ⟨rfl, fun d hd => ?_, fun d hd => ?_⟩
  · exact (defined.declarations d hd).trans (declared.declarations d hd)
  · exact (defined.definitions d hd).trans (declared.definitions d hd)

theorem touches_fileConstant (r : Registry) (scope : ScopeId) (n : Node) :
    Touches n.ids (fileConstant scope n) r := by
  refine (leads_requiredId n).bind ?_
  rintro id t ⟨hid, rfl⟩
  have declared := t.index.spares_setDeclaration (.fileConstant (n.name?.getD "") n.ty)
    (n.mem_ids hid)
  exact leads_modify ⟨rfl, declared.declarations, declared.definitions⟩

/-- A contract with members, all definitions of which lead to it. -/
structure Holds (before : ContractDefinition) (ids : List Int) (i : Index)
    (after : ContractDefinition) (i' : Index) : Prop where
  id : after.id = before.id
  spares : i.Spares ids i'
  definitions : ∀ d ∈ after.definitions,
    d ∈ before.definitions ∨ d ∈ ids ∧ i'.Defines before.id d

/-- A member is at most a definition of its contract. -/
theorem leads_member_holds (r : Registry) (scope : ScopeId) (owner : String)
    (gathered : ContractDefinition) (n : Node) :
    Leads (member scope owner gathered n) r
      (fun complete t => Holds gathered n.ids r.index complete t.index) fun _ => True := by
  have kept {i : Index} (spares : r.index.Spares n.ids i) {complete : ContractDefinition}
      (hid : complete.id = gathered.id)
      (hdefinitions : complete.definitions = gathered.definitions) :
      Holds gathered n.ids r.index complete i :=
    ⟨hid, spares, fun d hd => Or.inl (hdefinitions ▸ hd)⟩
  have hdefinition : Leads (definition gathered n) r
      (fun complete t => Holds gathered n.ids r.index complete t.index) fun _ => True := by
    refine (leads_requiredId n).bind ?_
    rintro id t ⟨hid, rfl⟩
    refine leads_bind (leads_modify (leads_pure ⟨rfl, ?_, fun d hd => ?_⟩))
    · exact ⟨rfl, (t.index.spares_setDeclaration _ (n.mem_ids hid)).declarations,
        (Index.spares_setDefinition _ n (n.mem_ids hid)).definitions⟩
    · rcases List.mem_append.1 hd with hold | hnew
      · exact Or.inl hold
      · rw [List.mem_singleton] at hnew
        subst hnew
        refine Or.inr ⟨n.mem_ids hid, n, ?_, ?_⟩
        · simp [Index.setDefinition]
        · simp [Index.setDefinition, Index.setDeclaration, definitionRef]
  unfold member
  split
  · exact leads_pure (kept (.refl _ _) rfl rfl)
  · unfold stateVariable
    split
    · next hid =>
        exact leads_bind (leads_modify (leads_pure
          (kept (r.index.spares_setDeclaration _ (n.mem_ids hid)) rfl rfl)))
    · exact leads_pure (kept (.refl _ _) rfl rfl)
  · exact hdefinition
  · exact hdefinition
  · exact (touches_declaration r scope (some owner) n).bind fun _ _ ht =>
      leads_pure (kept ht rfl rfl)

/-- The members of a contract one after another: none touches the definitions before it. -/
theorem leads_members_holds {scope : ScopeId} {owner : String} {members : List Node}
    (hnodup : (members.flatMap Node.ids).Nodup) (r : Registry) (gathered : ContractDefinition) :
    Leads (members.foldlM (member scope owner) gathered) r
      (fun complete t =>
        Holds gathered (members.flatMap Node.ids) r.index complete t.index) fun _ => True := by
  induction members generalizing r gathered with
  | nil => exact leads_pure ⟨rfl, .refl _ _, fun _ => Or.inl⟩
  | cons n rest ih =>
      rw [List.flatMap_cons, List.nodup_append] at hnodup
      obtain ⟨-, hrest, hapart⟩ := hnodup
      rw [List.foldlM_cons, List.flatMap_cons]
      refine (leads_member_holds r scope owner gathered n).bind fun complete t first => ?_
      refine (ih hrest t complete).mono fun final t' next => ?_
      refine ⟨next.id.trans first.id, first.spares.trans next.spares, fun d hd => ?_⟩
      rcases next.definitions d hd with hbefore | ⟨hmem, hdefines⟩
      · refine (first.definitions d hbefore).imp_right ?_
        rintro ⟨hmem, hdefines⟩
        exact ⟨List.mem_append_left _ hmem,
          next.spares.defines (fun hd => hapart d hmem d hd rfl) hdefines⟩
      · exact Or.inr ⟨List.mem_append_right _ hmem, first.id ▸ hdefines⟩

/-- A contract is listed with definitions that lead to it. -/
theorem leads_contract_defines {taken : List Int} (defines : r.index.DefinesAll taken)
    (scope : ScopeId) (file : String) {n : Node}
    (hnodup : (taken ++ (n.ids ++ n.members.flatMap Node.ids)).Nodup) :
    Leads (contract scope file n) r
      (fun _ t => t.index.DefinesAll (taken ++ (n.ids ++ n.members.flatMap Node.ids)))
      fun _ => True := by
  rw [List.nodup_append] at hnodup
  obtain ⟨-, hids, hapart⟩ := hnodup
  have hmembers := (List.nodup_append.1 hids).2.1
  -- What comes after the declaration of the contract itself.
  have listed {bare : ContractDefinition} (hbare : bare.definitions = []) {owner : String}
      {t : Registry} (spares : r.index.Spares n.ids t.index) :
      Leads (do
          let complete ← n.members.foldlM (member scope owner) bare
          modifyIndex fun i => { i with contracts := i.contracts ++ [complete] }) t
        (fun _ t => t.index.DefinesAll (taken ++ (n.ids ++ n.members.flatMap Node.ids)))
        fun _ => True := by
    refine (leads_members_holds hmembers t bare).bind fun complete t' holds => ?_
    have kept := (spares.trans holds.spares).definesAll
      (fun d htaken hd => hapart d htaken d hd rfl) defines
    refine leads_modify fun c hc d hd => ?_
    rcases List.mem_append.1 hc with hold | hnew
    · exact kept.mono (List.subset_append_left _ _) c hold d hd
    · rw [List.mem_singleton] at hnew
      subst hnew
      rcases holds.definitions d hd with hbefore | ⟨hmem, hdefines⟩
      · rw [hbare] at hbefore
        cases hbefore
      · exact ⟨List.mem_append_right _ (List.mem_append_right _ hmem), holds.id ▸ hdefines⟩
  unfold contract
  split
  · exact leads_throw trivial
  · refine leads_bind (leads_get (leads_bind (leads_modify ?_)))
    cases hid : n.id? with
    | none => exact listed rfl (.refl _ _)
    | some astId =>
        refine leads_bind (leads_modify (listed rfl ?_))
        exact Index.spares_setDeclaration _ _ (n.mem_ids hid)

/-- A node of a source unit with ids that were not taken. -/
theorem leads_topLevel_defines {taken : List Int} (defines : r.index.DefinesAll taken)
    (scope : ScopeId) (file : String) {n : Node} (hnodup : (taken ++ n.declaredIds).Nodup) :
    Leads (topLevel scope file n) r (fun _ t => t.index.DefinesAll (taken ++ n.declaredIds))
      fun _ => True := by
  have kept {t : Registry} (spares : r.index.Spares n.ids t.index) :
      t.index.DefinesAll (taken ++ n.declaredIds) := by
    refine (spares.definesAll (fun d htaken hd => ?_) defines).mono (List.subset_append_left _ _)
    exact (List.nodup_append.1 hnodup).2.2 d htaken d (List.mem_append_left _ hd) rfl
  unfold topLevel
  split
  · next hn =>
      have hids : n.declaredIds = n.ids ++ n.members.flatMap Node.ids := by
        simp [Node.declaredIds, Node.is, hn]
      rw [hids] at hnodup ⊢
      exact leads_contract_defines defines scope file hnodup
  · exact (touches_freeFunction r scope file n).mono fun _ _ => kept
  · exact (touches_fileConstant r scope n).mono fun _ _ => kept
  · exact (touches_declaration r scope none n).mono fun _ _ => kept

end Register

/-! ## Parsing -/

namespace Loader

/-- The ids that the sources declare. -/
def declaredIds (l : Loader) : List Int := l.nodes.flatMap Node.declaredIds

/-- What is registered so far, when the nodes to come declare `ids`. -/
structure Awaits (dialect : Dialect) (ids : List Int) (l : Loader) : Prop where
  dialect : l.dialect = dialect
  defines : ∃ taken, l.index.DefinesAll taken ∧ (taken ++ ids).Nodup

theorem leads_registerSource_awaits {l : Loader} {dialect : Dialect} {ids : List Int}
    {source : SourceUnit}
    (awaits : Awaits dialect
      ((Node.mk dialect source.ast).members.flatMap Node.declaredIds ++ ids) l) :
    Leads (registerSource source) l (fun _ => Awaits dialect ids) fun _ => True := by
  unfold registerSource
  refine leads_bind (leads_get ?_)
  dsimp only
  split
  · exact leads_bind (leads_throw trivial)
  · refine leads_bind (leads_get (leads_bind (leads_modify ?_)))
    rw [awaits.dialect]
    refine leads_forM (fun rest => Awaits dialect (rest.flatMap Node.declaredIds ++ ids))
      ⟨rfl, awaits.defines⟩ ?_
    rintro n rest t - ⟨hdialect, taken, defines, hnodup⟩
    rw [List.flatMap_cons, List.append_assoc, ← List.append_assoc] at hnodup
    refine leads_registering ((Register.leads_topLevel_defines defines _ _
      (List.nodup_append.1 hnodup).1).mono ?_)
    exact fun _ _ hdefines => ⟨hdialect, _, hdefines, hnodup⟩

/-- Where the sources declare distinct ids, every definition of a contract is found as one. -/
theorem leads_parse_defines {target : String} {sources : List SourceUnit} {policy : FailurePolicy}
    (hnodup : (Loader.new target sources policy).declaredIds.Nodup) :
    Leads parse (.new target sources policy)
      (fun _ t => t.index.DefinesListed) fun _ => True := by
  let dialect := (Loader.new target sources policy).dialect
  let Awaiting (rest : List SourceUnit) : Loader → Prop :=
    Awaits dialect ((rest.flatMap fun s => (Node.mk dialect s.ast).members).flatMap Node.declaredIds)
  unfold parse
  refine leads_bind (leads_get (leads_bind (leads_modify (leads_bind (leads_get ?_)))))
  refine (leads_forM Awaiting ?_ ?_).bind ?_
  · exact ⟨rfl, [], fun _ hc => absurd hc List.not_mem_nil, hnodup⟩
  · intro source rest t _ ht
    have awaits : Awaits dialect
        ((Node.mk dialect source.ast).members.flatMap Node.declaredIds ++
          (rest.flatMap fun s => (Node.mk dialect s.ast).members).flatMap Node.declaredIds) t := by
      rw [← List.flatMap_append]
      exact ht
    exact leads_registerSource_awaits awaits
  · rintro _ t ⟨-, taken, defines, -⟩
    exact leads_modify fun c hc d hd => (defines c hc d hd).2

end Loader

end Solidity

end ContractCalls
