/-
# What registration leaves behind

Contracts are numbered by their positions and listed in the same order, a
definition is found under its own id, and no function has an instance yet.
Every step of a registration keeps this; only the registration of a contract
adds to the numbers, first to those of the compilation and, when its members
are done, to those of the index.
-/
import ContractCalls.Proofs.Compilation
import ContractCalls.Proofs.Outcome
import ContractCalls.Solidity.Loader
import Mathlib

namespace ContractCalls

namespace Solidity

/-- The ids of the first contracts. -/
def firstContracts (count : Nat) : List ContractId := (List.range count).map ContractId.mk

theorem firstContracts_succ (count : Nat) :
    firstContracts (count + 1) = firstContracts count ++ [⟨count⟩] := by
  simp [firstContracts, List.range_succ]

/-- A registry that holds `held` contracts, `listed` of them with their members. -/
structure Registered (held listed : Nat) (r : Registry) : Prop where
  numbered : (r.unit.contracts.map (·.id)).toList = firstContracts held
  listed : r.index.contracts.map (·.id) = firstContracts listed
  placed : ∀ d n, r.index.definitions.get? d = some n → n.id? = some d
  bare : ∀ seat, r.index.instances.get? seat = none

namespace Registered

variable {held listed : Nat} {r : Registry}

theorem size_eq (h : Registered held listed r) : r.unit.contracts.size = held := by
  have hlength := congrArg List.length h.numbered
  simpa [firstContracts] using hlength

theorem contract_id (h : Registered held listed r) {id : ContractId} {c : Contract}
    (hc : r.unit.contract? id = some c) : c.id = id := by
  have hid : (r.unit.contracts.map (·.id)).toList[id.index]? = some c.id := by
    simp [show r.unit.contracts[id.index]? = some c from hc]
  rw [h.numbered, firstContracts, List.getElem?_map, Option.map_eq_some_iff] at hid
  obtain ⟨i, hi, hci⟩ := hid
  obtain ⟨_, rfl⟩ := List.getElem?_eq_some_iff.1 hi
  simpa using hci.symm

/-- Once its members are registered, a contract is listed. -/
theorem contract_listed {count : Nat} (h : Registered count count r) {id : ContractId} {c : Contract}
    (hc : r.unit.contract? id = some c) : ∃ d ∈ r.index.contracts, d.id = id := by
  have hlt : id.index < count := by
    rw [← h.size_eq]
    exact (Array.getElem?_eq_some_iff.1 hc).1
  have hmem : id ∈ r.index.contracts.map (·.id) := by
    rw [h.listed]
    exact List.mem_map.2 ⟨id.index, List.mem_range.2 hlt, rfl⟩
  exact List.mem_map.1 hmem

/-- A change that keeps the numbers of the contracts. -/
theorem ofUnit (h : Registered held listed r) {u : Compilation}
    (hu : u.contracts.map (·.id) = r.unit.contracts.map (·.id)) :
    Registered held listed ⟨u, r.index⟩ :=
  { h with numbered := by rw [hu]; exact h.numbered }

/-- A contract of the compilation that is not listed yet. -/
theorem addContract (h : Registered held listed r) (name : String) (kind : ContractKind)
    (scope : ScopeId) :
    (r.unit.addContract name kind scope).1 = ⟨held⟩ ∧
      Registered (held + 1) listed ⟨(r.unit.addContract name kind scope).2, r.index⟩ := by
  refine ⟨congrArg ContractId.mk h.size_eq, { h with numbered := ?_ }⟩
  simp only [Compilation.addContract, Compilation.modifyScope, Array.map_push, Array.toList_push,
    h.numbered, firstContracts_succ, Contract.new, h.size_eq]

theorem list (h : Registered held listed r) {d : ContractDefinition} (hd : d.id = ⟨listed⟩) :
    Registered held (listed + 1) ⟨r.unit, { r.index with contracts := r.index.contracts ++ [d] }⟩ :=
  { h with listed := by simp [h.listed, firstContracts_succ, hd] }

theorem setDeclaration (h : Registered held listed r) (id : Int) (ref : DeclRef) :
    Registered held listed ⟨r.unit, r.index.setDeclaration id ref⟩ :=
  { h with }

theorem setDefinition (h : Registered held listed r) {id : Int} {n : Node} (hn : n.id? = some id) :
    Registered held listed ⟨r.unit, r.index.setDefinition id n⟩ :=
  { h with
    placed := by
      intro d m hm
      simp only [Index.setDefinition, Table.get?_insert] at hm
      split at hm
      · next heq => cases hm; rw [← heq]; exact hn
      · exact h.placed d m hm }

end Registered

namespace Register

variable {held listed : Nat} {r : Registry}

/-- A step that keeps the numbers, however it ends. -/
abbrev Keeps (held listed : Nat) {α : Type} (x : Register α) (r : Registry) : Prop :=
  Leads x r (fun _ => Registered held listed) fun _ => True

theorem leads_requiredId (n : Node) :
    Leads (requiredId n) r (fun id t => n.id? = some id ∧ t = r) fun _ => True := by
  unfold requiredId
  split
  · next hid => exact leads_pure ⟨hid, rfl⟩
  · exact leads_throw trivial

theorem keeps_declaration (h : Registered held listed r) (scope : ScopeId) (owner : Option String)
    (n : Node) : Keeps held listed (declaration scope owner n) r := by
  unfold declaration
  split
  · refine leads_bind (leads_modify ?_)
    have added := h.ofUnit (Compilation.map_addDeclaration (fun _ _ => rfl) r.unit scope owner
      ‹String› ‹DeclKind› [n.json])
    split
    · exact leads_modify (added.setDeclaration _ _)
    · exact leads_pure added
  · exact leads_pure h

theorem keeps_freeFunction (h : Registered held listed r) (scope : ScopeId) (file : String)
    (n : Node) : Keeps held listed (freeFunction scope file n) r := by
  refine (leads_requiredId n).bind ?_
  rintro id _ ⟨hid, rfl⟩
  exact leads_modify { (h.setDeclaration id _).setDefinition hid with }

theorem keeps_fileConstant (h : Registered held listed r) (scope : ScopeId) (n : Node) :
    Keeps held listed (fileConstant scope n) r := by
  refine (leads_requiredId n).bind ?_
  rintro id _ ⟨-, rfl⟩
  exact leads_modify ⟨h.numbered, h.listed, h.placed, h.bare⟩

/-- The members of a contract are gathered under its number. -/
theorem leads_member (h : Registered held listed r) (scope : ScopeId) (owner : String)
    (gathered : ContractDefinition) (n : Node) :
    Leads (member scope owner gathered n) r
      (fun d t => d.id = gathered.id ∧ Registered held listed t) fun _ => True := by
  have hdefinition : Leads (definition gathered n) r
      (fun d t => d.id = gathered.id ∧ Registered held listed t) fun _ => True := by
    refine (leads_requiredId n).bind ?_
    rintro id _ ⟨hid, rfl⟩
    exact leads_bind (leads_modify (leads_pure ⟨rfl, (h.setDeclaration id _).setDefinition hid⟩))
  unfold member
  split
  · exact leads_pure ⟨rfl, h⟩
  · unfold stateVariable
    split
    · exact leads_bind (leads_modify (leads_pure ⟨rfl, h.setDeclaration _ _⟩))
    · exact leads_pure ⟨rfl, h⟩
  · exact hdefinition
  · exact hdefinition
  · exact (keeps_declaration h scope (some owner) n).bind fun _ _ ht => leads_pure ⟨rfl, ht⟩

/-- A contract whose members are registered is listed. -/
theorem keeps_members {t : Registry} (h : Registered held listed t) (scope : ScopeId) (owner : String)
    {gathered : ContractDefinition} (hid : gathered.id = ⟨listed⟩) (members : List Node) :
    Keeps held (listed + 1)
      (do
        let complete ← members.foldlM (member scope owner) gathered
        modifyIndex fun i => { i with contracts := i.contracts ++ [complete] }) t := by
  refine (leads_foldlM (fun d t => d.id = ⟨listed⟩ ∧ Registered held listed t) ⟨hid, h⟩ ?_).bind ?_
  · rintro d n t ⟨hd, ht⟩
    exact (leads_member ht scope owner d n).mono fun _ _ after => ⟨after.1.trans hd, after.2⟩
  · rintro d t ⟨hd, ht⟩
    exact leads_modify (ht.list hd)

/-- A contract gets the next number, in the compilation and in the index. -/
theorem keeps_contract {count : Nat} (h : Registered count count r) (scope : ScopeId) (file : String)
    (n : Node) : Keeps (count + 1) (count + 1) (contract scope file n) r := by
  unfold contract
  split
  · exact leads_throw trivial
  · next name _ =>
      refine leads_bind (leads_get (leads_bind (leads_modify ?_)))
      obtain ⟨hid, added⟩ := h.addContract name
        (((n.text? "contractKind").map ContractKind.parse).getD .contract) scope
      have described (f : Contract → Contract) (hf : ∀ c, (f c).id = c.id) :=
        added.ofUnit (Compilation.map_modifyContract hf _ ⟨r.unit.contracts.size⟩)
      cases n.id? with
      | none =>
          refine keeps_members ?_ scope name ?_ _
          · exact described _ fun _ => rfl
          · exact hid
      | some astId =>
          refine leads_bind (leads_modify (keeps_members ?_ scope name ?_ _))
          · refine Registered.setDeclaration (r := ⟨_, r.index⟩) ?_ _ _
            exact described _ fun _ => rfl
          · exact hid

/-- Registering a member of a source unit adds at most one contract. -/
theorem leads_topLevel {count : Nat} (h : Registered count count r) (scope : ScopeId)
    (file : String) (n : Node) :
    Leads (topLevel scope file n) r (fun _ t => ∃ count, Registered count count t)
      fun _ => True := by
  unfold topLevel
  split
  · exact (keeps_contract h scope file n).mono fun _ _ ht => ⟨_, ht⟩
  · exact (keeps_freeFunction h scope file n).mono fun _ _ ht => ⟨_, ht⟩
  · exact (keeps_fileConstant h scope n).mono fun _ _ ht => ⟨_, ht⟩
  · exact (keeps_declaration h scope none n).mono fun _ _ ht => ⟨_, ht⟩

end Register

namespace Loader

/-- The registered part of a loader. -/
def registry (l : Loader) : Registry := ⟨l.unit, l.index⟩

/-- The loader holds all it has registered. -/
def IsRegistered (l : Loader) : Prop := ∃ count, Registered count count l.registry

theorem leads_registering {α : Type} {x : Register α} {l : Loader} {ok : α → Loader → Prop}
    {err : FrontEndError → Prop}
    (h : Leads x l.registry (fun a r => ok a { l with unit := r.unit, index := r.index }) err) :
    Leads (registering x) l ok err :=
  leads_zoom registry (fun l r => { l with unit := r.unit, index := r.index }) h

theorem leads_onUnit {α : Type} {x : OnCompilation α} {l : Loader} {ok : α → Loader → Prop}
    {err : FrontEndError → Prop} (h : Leads x l.unit (fun a unit => ok a { l with unit }) err) :
    Leads (onUnit x) l ok err :=
  leads_zoom Loader.unit (fun l unit => { l with unit }) h

theorem leads_registerSource {l : Loader} (h : l.IsRegistered) (source : SourceUnit) :
    Leads (registerSource source) l (fun _ => IsRegistered) fun _ => True := by
  unfold registerSource
  refine leads_bind (leads_get ?_)
  dsimp only
  split
  · exact leads_bind (leads_throw trivial)
  · refine leads_bind (leads_get (leads_bind (leads_modify ?_)))
    obtain ⟨count, hcount⟩ := h
    have hscope : (l.unit.addScope source.path).2.contracts = l.unit.contracts := by
      unfold Compilation.addScope
      split <;> rfl
    refine leads_forM (fun _ => IsRegistered) ⟨count, hcount.ofUnit (by rw [hscope]; rfl)⟩ ?_
    rintro n rest t - ⟨count, ht⟩
    exact leads_registering (Register.leads_topLevel ht _ _ n)

/-- A parse that succeeds has registered what there is. -/
theorem leads_parse (target : String) (sources : List SourceUnit) (policy : FailurePolicy) :
    Leads parse (.new target sources policy) (fun _ => IsRegistered) fun _ => True := by
  have start : IsRegistered { Loader.new target sources policy with
      unit := { (Loader.new target sources policy).unit with
        sourceList := SourceUnit.fileNames sources } } :=
    ⟨0, by simp [registry, new, Compilation.new, firstContracts], rfl, fun _ _ h => (nomatch h),
      fun _ => rfl⟩
  refine leads_bind (leads_get (leads_bind (leads_modify (leads_bind (leads_get ?_)))))
  refine (leads_forM (fun _ => IsRegistered) start ?_).bind ?_
  · intro source _ _ _ ht
    exact leads_registerSource ht source
  · rintro _ _ ⟨count, ht⟩
    exact leads_modify ⟨count, { ht with }⟩

/-- Reading a declaration leaves what is registered as it is. -/
theorem leads_readDeclaration (l : Loader) (position : Nat) :
    Leads (readDeclaration position) l
      (fun _ t => t.unit.contracts = l.unit.contracts ∧ t.index = l.index) fun _ => True := by
  refine leads_bind (leads_get ?_)
  split
  · exact leads_pure ⟨rfl, rfl⟩
  · refine leads_bind (leads_modify ?_)
    split
    · exact leads_pure ⟨rfl, rfl⟩
    · refine leads_onUnit ?_
      unfold Compilation.recover
      split
      · exact leads_modify ⟨rfl, rfl⟩
      · exact leads_throw trivial

end Loader

end Solidity

end ContractCalls
