/-
# What a report lists

The report on a compilation lists the functions of each contract that its query
asks for, each once, under their visibilities.  Grouping selects functions and
keeps their ids; the record of a function is looked up again by its id.  So the
functions have to carry the ids that they are found under (`IdsHold`), which
`addFunction` gives them and which every loaded compilation has
(`Loaded.idsHold`).  Without that there may be no report at all.
-/
import ContractCalls.Output.Report
import ContractCalls.Proofs.Compilation
import ContractCalls.Proofs.Ordered

namespace ContractCalls

/-- The order of the records of a group: by display name and uid. -/
def FunctionNode.order : Ordered.Comparison FunctionNode :=
  Ordered.lexically (Ordered.comparing FunctionNode.display) (Ordered.comparing FunctionNode.id)

namespace Compilation

variable {u : Compilation} {query : VisibilityQuery} {options : ReportOptions} {c : Contract}
  {v : Visibility}

/-! ## The functions a report has to list -/

/-- A contract, seen by a query, offers a function under an id: it lists the id among all its
functions, or those it declares where inherited ones are left out; the function is implemented and no
modifier, its visibility is asked for, and it is not shadowed, unless it is a fallback or shadowed
ones are asked for. -/
structure Offers (u : Compilation) (query : VisibilityQuery) (c : Contract) (id : FunctionId)
    (f : Function) : Prop where
  listed : id ∈ if query.includeInherited then c.functions else c.functionsDeclared
  found : u.function? id = some f
  implemented : f.isImplemented = true
  modifier : f.isModifier = false
  wanted : ∀ visibilities, query.visibilities = some visibilities → f.visibility ∈ visibilities
  shadowed : f.isShadowed = false ∨ f.isFallback = true ∨ query.includeShadowed = true

theorem wants_iff : query.wants v = true ↔
    ∀ visibilities, query.visibilities = some visibilities → v ∈ visibilities := by
  unfold VisibilityQuery.wants
  cases query.visibilities <;> simp

/-- A selected candidate is offered, and the other way round. -/
theorem offers_iff {id : FunctionId} {f : Function} : u.Offers query c id f ↔
    (id ∈ if query.includeInherited then c.functions else c.functionsDeclared) ∧
      u.function? id = some f ∧ query.selects f = true := by
  have hselects : query.selects f = true ↔ f.isImplemented = true ∧ f.isModifier = false ∧
      query.wants f.visibility = true ∧
        (f.isShadowed = false ∨ f.isFallback = true ∨ query.includeShadowed = true) := by
    simp only [VisibilityQuery.selects, Bool.and_eq_true, Bool.or_eq_true, Bool.not_eq_true']
    tauto
  rw [hselects, wants_iff]
  constructor
  · rintro ⟨listed, found, implemented, modifier, wanted, shadowed⟩
    exact ⟨listed, found, implemented, modifier, wanted, shadowed⟩
  · rintro ⟨listed, found, implemented, modifier, wanted, shadowed⟩
    exact ⟨listed, found, implemented, modifier, wanted, shadowed⟩

instance transCmp_groupOrder : Std.TransCmp groupOrder :=
  inferInstanceAs (Std.TransCmp (Ordered.lexically _ _))

instance transCmp_contractOrder : Std.TransCmp contractOrder :=
  inferInstanceAs (Std.TransCmp (Ordered.lexically _ _))

/-- The selected functions of a visibility, sorted. -/
def group (u : Compilation) (query : VisibilityQuery) (c : Contract) (v : Visibility) :
    List Function :=
  Ordered.sort groupOrder (((u.candidates c query).filter query.selects).filter (·.visibility == v))

theorem mem_group (hids : u.IdsHold) {f : Function} :
    f ∈ u.group query c v ↔ u.Offers query c f.id f ∧ f.visibility = v := by
  rw [group, Ordered.mem_sort, List.mem_filter, List.mem_filter, candidates, List.mem_filterMap,
    beq_iff_eq, offers_iff]
  constructor
  · rintro ⟨⟨⟨id, hlisted, hf⟩, hselects⟩, hv⟩
    obtain rfl := hids id f hf
    exact ⟨⟨hlisted, hf, hselects⟩, hv⟩
  · rintro ⟨⟨hlisted, hf, hselects⟩, hv⟩
    exact ⟨⟨⟨f.id, hlisted, hf⟩, hselects⟩, hv⟩

/-- The candidates are the functions of the ids that are in use. -/
theorem map_id_candidates (hids : u.IdsHold) : (u.candidates c query).map (·.id) =
    (if query.includeInherited then c.functions else c.functionsDeclared).filter
      fun id => (u.function? id).isSome := by
  have hguard : (fun id => (u.function? id).map (·.id)) =
      Option.guard fun id => (u.function? id).isSome := by
    funext id
    cases hf : u.function? id with
    | none => simp [Option.guard, hf]
    | some f => simp [Option.guard, hf, hids id f hf]
  rw [candidates, List.map_filterMap, hguard, List.filterMap_eq_filter]

theorem nodup_group (hids : u.IdsHold) (hlists : c.functions.Nodup ∧ c.functionsDeclared.Nodup) :
    ((u.group query c v).map (·.id)).Nodup := by
  have hcandidates : ((u.candidates c query).map (·.id)).Nodup := by
    rw [map_id_candidates hids]
    refine List.Nodup.filter _ ?_
    split
    · exact hlists.1
    · exact hlists.2
  have hsorted := List.mergeSort_perm
    (((u.candidates c query).filter query.selects).filter (·.visibility == v))
    (fun a b => (groupOrder a b).isLE)
  have hsublist := (List.filter_sublist (p := fun f : Function => f.visibility == v)).trans
    (List.filter_sublist (p := query.selects) (l := u.candidates c query))
  exact (hsorted.map _).nodup_iff.mpr (hcandidates.sublist (hsublist.map _))

/-- The order of a group, ids left out. -/
theorem pairwise_group : (u.group query c v).Pairwise fun f g =>
    (Ordered.lexically (Ordered.comparing Function.displayName) (Ordered.comparing Function.uid)
      f g).isLE := by
  have hsorted : (u.group query c v).Pairwise fun f g => (groupOrder f g).isLE :=
    Ordered.pairwise_sort _
  refine hsorted.imp fun {f g} h => ?_
  unfold groupOrder Ordered.lexically at h
  unfold Ordered.lexically
  cases hname : Ordered.comparing Function.displayName f g <;>
    cases huid : Ordered.comparing Function.uid f g <;> simp_all

/-! ## The report on a contract -/

/-- The record of a function that the compilation has. -/
theorem callEdges_of_function? {id : FunctionId} {f : Function} (hf : u.function? id = some f)
    (filters : CallFilters) :
    u.callEdges id filters = .ok (.ofFunction f (u.callEntries filters f)) := by
  unfold callEdges
  rw [hf]

theorem mapM_eq_ok_map {ε α β : Type} {f : α → Except ε β} {g : α → β} {xs : List α}
    (h : ∀ x ∈ xs, f x = .ok (g x)) : xs.mapM f = .ok (xs.map g) := by
  induction xs with
  | nil => rfl
  | cons x xs ih =>
      rw [List.mapM_cons, h x List.mem_cons_self, ih fun y hy => h y (List.mem_cons_of_mem _ hy)]
      rfl

/-- The entry of a contract. -/
def entry (u : Compilation) (options : ReportOptions) (c : Contract) : ContractReport where
  name := c.name
  functions := Visibility.all.map fun v =>
    (v, (u.group options.query c v).map fun f => .ofFunction f (u.callEntries options.filters f))

theorem contractReport_eq (hids : u.IdsHold) (options : ReportOptions) (c : Contract) :
    u.contractReport options c = .ok (u.entry options c) := by
  have hrecords : ∀ v, ((u.group options.query c v).map Function.id).mapM
      (fun id => u.callEdges id options.filters) =
        .ok ((u.group options.query c v).map fun f =>
          .ofFunction f (u.callEntries options.filters f)) := by
    intro v
    rw [List.mapM_map]
    exact mapM_eq_ok_map fun f hf =>
      callEdges_of_function? ((mem_group hids).mp hf).1.found options.filters
  rw [contractReport, groups, List.mapM_map, mapM_eq_ok_map (g := fun v =>
    (v, (u.group options.query c v).map fun f => .ofFunction f (u.callEntries options.filters f)))]
  · rfl
  · intro v _
    show (do
      let nodes ← ((u.group options.query c v).map Function.id).mapM fun id =>
        u.callEdges id options.filters
      return (v, nodes)) = _
    rw [hrecords]
    rfl

/-- The records of a group: one of each function that is offered with the visibility, in order. -/
structure ListsGroup (u : Compilation) (options : ReportOptions) (c : Contract) (v : Visibility)
    (ids : List FunctionId) (nodes : List FunctionNode) : Prop where
  nodup : ids.Nodup
  mem_iff : ∀ id, id ∈ ids ↔ ∃ f, u.Offers options.query c id f ∧ f.visibility = v
  records : List.Forall₂ (fun id node => u.callEdges id options.filters = .ok node ∧
    ∃ f, u.function? id = some f ∧ node.id = f.uid ∧ node.display = f.displayName) ids nodes
  sorted : nodes.Pairwise fun a b => (FunctionNode.order a b).isLE

/-- The entry of a contract: a group for each visibility. -/
structure ListsOffered (u : Compilation) (options : ReportOptions) (c : Contract)
    (entry : ContractReport) : Prop where
  name : entry.name = c.name
  visibilities : entry.functions.map Prod.fst = [.external, .pub, .internal, .priv]
  groups : ∀ v nodes, (v, nodes) ∈ entry.functions → ∃ ids, u.ListsGroup options c v ids nodes

theorem listsOffered_entry (hids : u.IdsHold) (options : ReportOptions)
    (hlists : c.functions.Nodup ∧ c.functionsDeclared.Nodup) :
    u.ListsOffered options c (u.entry options c) where
  name := rfl
  visibilities := rfl
  groups := by
    intro v nodes hmem
    obtain ⟨v', -, heq⟩ := List.mem_map.mp hmem
    obtain ⟨rfl, rfl⟩ := Prod.mk.inj heq
    refine ⟨(u.group options.query c v').map (·.id), nodup_group hids hlists, fun id => ?_, ?_, ?_⟩
    · rw [List.mem_map]
      constructor
      · rintro ⟨f, hf, rfl⟩
        exact ⟨f, (mem_group hids).mp hf⟩
      · rintro ⟨f, hoffers, hv⟩
        have hid := hids id f hoffers.found
        exact ⟨f, (mem_group hids).mpr ⟨hid.symm ▸ hoffers, hv⟩, hid⟩
    · rw [List.forall₂_map_left_iff, List.forall₂_map_right_iff, List.forall₂_same]
      intro f hf
      have hfound := ((mem_group hids).mp hf).1.found
      exact ⟨callEdges_of_function? hfound options.filters, f, hfound, rfl, rfl⟩
    · exact List.pairwise_map.mpr pairwise_group

/-- An entry is empty where the contract offers nothing. -/
theorem isEmpty_entry_iff (hids : u.IdsHold) :
    (u.entry options c).isEmpty = true ↔ ∀ id f, ¬ u.Offers options.query c id f := by
  rw [ContractReport.isEmpty, List.all_eq_true]
  constructor
  · intro hempty id f hoffers
    have hvisibility : f.visibility ∈ Visibility.all := by cases f.visibility <;> decide
    have hgroup := hempty _ (List.mem_map_of_mem hvisibility)
    rw [List.isEmpty_iff, List.map_eq_nil_iff] at hgroup
    have hmem : f ∈ u.group options.query c f.visibility :=
      (mem_group hids).mpr ⟨(hids id f hoffers.found).symm ▸ hoffers, rfl⟩
    rw [hgroup] at hmem
    exact List.not_mem_nil hmem
  · intro hnone entry hentry
    obtain ⟨v, -, rfl⟩ := List.mem_map.mp hentry
    rw [List.isEmpty_iff, List.map_eq_nil_iff]
    refine List.eq_nil_iff_forall_not_mem.mpr fun f hf => ?_
    exact hnone f.id f ((mem_group hids).mp hf).1

/-! ## The report on a compilation -/

/-- The entries of contracts.  A contract has one, unless it offers nothing and the compilation is
more than one module. -/
inductive ListsContracts (u : Compilation) (options : ReportOptions) :
    List Contract → List ContractReport → Prop where
  | nil : ListsContracts u options [] []
  | entry {c : Contract} {contracts : List Contract} {entry : ContractReport}
      {entries : List ContractReport} :
      u.language = .vyper ∨ (∃ id f, u.Offers options.query c id f) →
      u.ListsOffered options c entry → ListsContracts u options contracts entries →
      ListsContracts u options (c :: contracts) (entry :: entries)
  | omitted {c : Contract} {contracts : List Contract} {entries : List ContractReport} :
      u.language ≠ .vyper → (∀ id f, ¬ u.Offers options.query c id f) →
      ListsContracts u options contracts entries →
      ListsContracts u options (c :: contracts) entries

theorem listsContracts_filter (hids : u.IdsHold) {contracts : List Contract}
    (hlists : ∀ c ∈ contracts, c.functions.Nodup ∧ c.functionsDeclared.Nodup) :
    u.ListsContracts options contracts
      ((contracts.map (u.entry options)).filter fun entry =>
        !entry.isEmpty || u.language == .vyper) := by
  induction contracts with
  | nil => exact .nil
  | cons c contracts ih =>
      obtain ⟨hc, hrest⟩ := List.forall_mem_cons.mp hlists
      have hempty : (u.entry options c).isEmpty = true ↔
          ∀ id f, ¬ u.Offers options.query c id f := isEmpty_entry_iff hids
      rw [List.map_cons, List.filter_cons]
      split
      · next hkept =>
          refine .entry ?_ (listsOffered_entry hids options hc) (ih hrest)
          by_cases hlanguage : u.language = .vyper
          · exact Or.inl hlanguage
          · have hfull : ¬ (u.entry options c).isEmpty = true := by simpa [hlanguage] using hkept
            rw [hempty] at hfull
            exact Or.inr (by_contra fun hnone => hfull fun id f hoffers => hnone ⟨id, f, hoffers⟩)
      · next hdropped =>
          simp only [Bool.or_eq_true, not_or, Bool.not_eq_true', Bool.not_eq_false,
            beq_iff_eq] at hdropped
          exact .omitted hdropped.2 (hempty.mp hdropped.1) (ih hrest)

/-- The report lists the contracts by name and by the file that their recorded text is in; where none
is recorded, that counts as an empty name. -/
structure IsReport (u : Compilation) (target : String) (options : ReportOptions)
    (r : CompilationReport) : Prop where
  target : r.target = target
  contracts : ∃ contracts, contracts.Perm u.contracts.toList ∧
    (contracts.Pairwise fun a b => (Ordered.lexically (Ordered.comparing Contract.name)
      (Ordered.comparing fun c => (c.source.map (·.file)).getD "") a b).isLE) ∧
    u.ListsContracts options contracts r.contracts

/-- Every function that a contract offers is in the report once, under its visibility.  There is a
report whenever functions carry their ids and no contract lists one twice. -/
theorem report_lists_offered (u : Compilation) (target : String) (options : ReportOptions)
    (hids : u.IdsHold)
    (hlists : ∀ c ∈ u.contracts.toList, c.functions.Nodup ∧ c.functionsDeclared.Nodup) :
    ∃ r, u.report target options = .ok r ∧ u.IsReport target options r := by
  have hreport : u.report target options =
      .ok ⟨target, ((Ordered.sort contractOrder u.contracts.toList).map (u.entry options)).filter
        fun entry => !entry.isEmpty || u.language == .vyper⟩ := by
    rw [report, mapM_eq_ok_map fun c _ => contractReport_eq hids options c]
    rfl
  refine ⟨_, hreport, rfl, _, List.mergeSort_perm _ _, Ordered.pairwise_sort _, ?_⟩
  exact listsContracts_filter hids fun c hc => hlists c (Ordered.mem_sort.mp hc)

/-- A contract that sees a function, one that it shadows, and a fallback that is shadowed as well; an
interface without functions; and a contract whose name comes first. -/
def wallet : Compilation :=
  let pay : Function := { Function.new "pay" .function with isImplemented := true }
  let base : Compilation := .new "wallet.sol" .solidity
  let u := (base.addFunction pay).2
  let u := (u.addFunction { pay with isShadowed := true }).2
  let u := (u.addFunction
    { Function.new "fallback" .fallback with
      visibility := .external, isImplemented := true, isShadowed := true }).2
  let u := (u.addFunction { Function.new "add" .function with isImplemented := true }).2
  let (scope, u) := u.addScope "wallet.sol"
  let (contract, u) := u.addContract "Wallet" .contract scope
  let (_, u) := u.addContract "Marker" .interface scope
  let (list, u) := u.addContract "List" .contract scope
  let u := u.modifyContract contract fun c =>
    { c with functions := [⟨0⟩, ⟨1⟩, ⟨2⟩, ⟨3⟩], functionsDeclared := [⟨0⟩] }
  u.modifyContract list fun c => { c with functions := [⟨3⟩], functionsDeclared := [⟨3⟩] }

theorem idsHold_wallet : wallet.IdsHold :=
  ((((idsHold_new "wallet.sol" .solidity).addFunction _).addFunction _).addFunction _).addFunction _

theorem report_lists_wallet :
    wallet.contracts.toList.map (·.functions) = [[⟨0⟩, ⟨1⟩, ⟨2⟩, ⟨3⟩], [], [⟨3⟩]] ∧
    wallet.functions.toList.map (·.isShadowed) = [false, true, true, false] ∧ wallet.IdsHold ∧
    (∀ c ∈ wallet.contracts.toList, c.functions.Nodup ∧ c.functionsDeclared.Nodup) ∧
    ∃ r, wallet.report "wallet.sol" ⟨.default, .default⟩ = .ok r ∧
      wallet.IsReport "wallet.sol" ⟨.default, .default⟩ r ∧
      r.contracts.map (fun entry => (entry.name, entry.nodes.map fun (v, f) => (v, f.display))) =
        [("List", [(.pub, "add()")]),
          ("Wallet", [(.external, "fallback()"), (.pub, "add()"), (.pub, "pay()")])] := by
  have hlists : ∀ c ∈ wallet.contracts.toList, c.functions.Nodup ∧ c.functionsDeclared.Nodup := by
    decide
  have hlisted : (wallet.report "wallet.sol" ⟨.default, .default⟩).map (·.contracts.map fun entry =>
      (entry.name, entry.nodes.map fun (v, f) => (v, f.display))) =
        .ok [("List", [(.pub, "add()")]),
          ("Wallet", [(.external, "fallback()"), (.pub, "add()"), (.pub, "pay()")])] := by
    unfold report contractReport groups
    simp only [Ordered.sort_eq_insertionSort]
    decide +kernel
  obtain ⟨r, hr, hreport⟩ :=
    report_lists_offered wallet "wallet.sol" ⟨.default, .default⟩ idsHold_wallet hlists
  rw [hr] at hlisted
  exact ⟨rfl, rfl, idsHold_wallet, hlists, r, hr, hreport, Except.ok.inj hlisted⟩

/-- A contract that lists a function under an id which the function does not carry. -/
def stray : Compilation :=
  let (scope, u) := (Compilation.new "wallet.sol" .solidity).addScope "wallet.sol"
  let (contract, u) := u.addContract "Wallet" .contract scope
  let u := u.modifyContract contract fun c =>
    { c with functions := [⟨0⟩], functionsDeclared := [⟨0⟩] }
  { u with functions := #[{ Function.new "pay" .function with id := ⟨7⟩, isImplemented := true }] }

/-- Two contracts of one name in files that are not in order; where their texts stand is not
recorded. -/
def unplaced : Compilation :=
  let base : Compilation := .new "unit" .solidity
  let u := (base.addFunction { Function.new "f" .function with isImplemented := true }).2
  let u := (u.addFunction { Function.new "g" .function with isImplemented := true }).2
  let (last, u) := u.addScope "b.sol"
  let (first, u) := u.addScope "a.sol"
  let (c, u) := u.addContract "C" .contract last
  let (d, u) := u.addContract "C" .contract first
  let u := u.modifyContract c fun c => { c with functions := [⟨0⟩], functionsDeclared := [⟨0⟩] }
  u.modifyContract d fun c => { c with functions := [⟨1⟩], functionsDeclared := [⟨1⟩] }

/-- A function without the id that it is listed under is looked up in vain, so there is no report;
and contracts of one name are in the order of their files only where their texts are recorded. -/
theorem report_stray_unplaced :
    (∀ c ∈ stray.contracts.toList, c.functions.Nodup ∧ c.functionsDeclared.Nodup) ∧
    stray.report "wallet.sol" ⟨.default, .default⟩ =
      .error (.resolution "no function with id fn7") ∧
    (∀ c ∈ unplaced.contracts.toList, c.functions.Nodup ∧ c.functionsDeclared.Nodup) ∧
    (unplaced.contracts.toList.map fun c =>
      (c.name, (unplaced.scope? c.scope).map (·.filename), c.functions)) =
        [("C", some "b.sol", [⟨0⟩]), ("C", some "a.sol", [⟨1⟩])] ∧
    (unplaced.report "unit" ⟨.default, .default⟩).map (·.contracts.map fun entry =>
      (entry.name, entry.nodes.map fun (_, f) => f.display)) =
        .ok [("C", ["f()"]), ("C", ["g()"])] := by
  unfold report contractReport groups
  simp only [Ordered.sort_eq_insertionSort]
  decide +kernel

end Compilation

end ContractCalls
