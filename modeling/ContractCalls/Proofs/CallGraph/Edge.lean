/-
# Bundles and call-graph records agree

A bundle is found by one walk over the call graph; a call-graph record lists
the calls of one function.  Both classify the kept call targets of a function
on their own: the walk into steps and leaves, the record into entries, of which
it keeps the first of every key.

An entry is determined by its key as far as bundles are concerned, so what is
reported can be read off the keys of the targets (`exists_mem_callEntries`).
Target by target, a step has the key of a function entry and a leaf that of an
entry without a function (`ofTarget?_of_step`, `ofTarget?_of_leaf`).  From there
the two agree by induction along calls.
-/
import ContractCalls.CallGraph.Edge
import ContractCalls.Proofs.CallGraph.Bundle

namespace ContractCalls

namespace CallEntry

/-! ## Keys -/

/-- What tells an entry apart. -/
def key (e : CallEntry) : Key := ⟨e.edge, e.kind, e.id?.getD e.label⟩

theorem key_of_ofTarget? {u : Compilation} {target : CallTarget} {k : Key} {e : CallEntry}
    (h : ofTarget? u target = some (k, e)) : e.key = k := by
  unfold ofTarget? at h
  split at h
  · split at h
    · cases h
    · split at h <;> (cases h; rfl)
  all_goals
    cases h
    rfl

/-- The first entry of every key that was not seen before is kept. -/
theorem exists_mem_dedup {k : Key} : ∀ {entries : List (Key × CallEntry)} {seen : List Key},
    (∀ x ∈ entries, x.2.key = x.1) →
      ((∃ e ∈ dedup seen entries, e.key = k) ↔ k ∉ seen ∧ ∃ e, (k, e) ∈ entries) := by
  intro entries
  induction entries with
  | nil => simp [dedup]
  | cons x entries ih =>
      obtain ⟨k', e'⟩ := x
      intro seen hkeys
      have hkey : e'.key = k' := hkeys (k', e') List.mem_cons_self
      have hrest : ∀ x ∈ entries, x.2.key = x.1 := fun x hx => hkeys x (List.mem_cons_of_mem _ hx)
      unfold dedup
      by_cases hseen : k' ∈ seen
      · rw [if_pos (List.contains_iff_mem.mpr hseen), ih hrest]
        refine and_congr_right fun hk => exists_congr fun e => ?_
        have hne : k ≠ k' := fun he => hk (he ▸ hseen)
        simp [hne]
      · rw [if_neg fun hc => hseen (List.contains_iff_mem.mp hc)]
        by_cases hk : k = k'
        · subst hk
          exact ⟨fun _ => ⟨hseen, e', List.mem_cons_self⟩,
            fun _ => ⟨e', List.mem_cons_self, hkey⟩⟩
        · have hhead : e'.key ≠ k := fun he => hk (he ▸ hkey)
          simp only [List.mem_cons, exists_eq_or_imp, hhead, false_or, ih hrest, hk, Prod.mk.injEq,
            false_and]

/-- The keys of the calls of a function are the keys of its kept targets. -/
theorem exists_mem_callEntries {u : Compilation} {filters : CallFilters} {f : Function} {k : Key} :
    (∃ e ∈ u.callEntries filters f, e.key = k) ↔
      ∃ target ∈ u.keptTargets filters f, ∃ e, ofTarget? u target = some (k, e) := by
  have hkeys : ∀ x ∈ (u.keptTargets filters f).filterMap (ofTarget? u), x.2.key = x.1 := by
    rintro ⟨k, e⟩ hx
    obtain ⟨target, -, h⟩ := List.mem_filterMap.mp hx
    exact key_of_ofTarget? h
  simp only [Compilation.callEntries, Ordered.mem_sort, exists_mem_dedup hkeys, List.not_mem_nil,
    not_false_eq_true, true_and, List.mem_filterMap]
  exact ⟨fun ⟨e, target, ht, h⟩ => ⟨target, ht, e, h⟩, fun ⟨target, ht, e, h⟩ => ⟨e, target, ht, h⟩⟩

end CallEntry

namespace Bundle

open CallEntry

/-! ## Targets -/

/-- The kind of entry that a leaf is reported as: a function without a body is unknown. -/
def reportedAs : LeafKind → TargetKind
  | .abstract | .unknown => .unknown
  | .solidity => .solidity
  | .stateVar => .stateVar

/-- A target of a variable or a builtin refers to one. -/
structure RefersByKind (target : CallTarget) : Prop where
  stateVar : target.kind = .stateVar → ∃ name, target.target = .getter name
  solidity : target.kind = .solidity → target.target = .builtin target.label

theorem RefersByKind.of_stateVar {target : CallTarget} (hkind : target.kind = .stateVar)
    (href : ∃ name, target.target = .getter name) : RefersByKind target :=
  ⟨fun _ => href, fun h => absurd (hkind.symm.trans h) (by decide)⟩

theorem RefersByKind.of_solidity {target : CallTarget} (hkind : target.kind = .solidity)
    (href : target.target = .builtin target.label) : RefersByKind target :=
  ⟨fun h => absurd (hkind.symm.trans h) (by decide), fun _ => href⟩

theorem RefersByKind.of_unknown {target : CallTarget} (hkind : target.kind = .unknown) :
    RefersByKind target :=
  ⟨fun h => absurd (hkind.symm.trans h) (by decide), fun h => absurd (hkind.symm.trans h) (by decide)⟩

theorem refersByKind_function (u : Compilation) (id : FunctionId) (edge : EdgeKind) :
    RefersByKind (CallTarget.function u id edge) := by
  unfold CallTarget.function
  split <;> constructor <;> intro h <;> cases h

theorem refersByKind_of_mem {u : Compilation} {f : Function} {target : CallTarget}
    (h : target ∈ u.callTargets f) : RefersByKind target := by
  simp only [Compilation.callTargets, List.mem_append, List.mem_map, List.mem_filterMap] at h
  rcases h with (((⟨id, -, rfl⟩ | ⟨id, -, rfl⟩) | ⟨callee, -, h⟩) | ⟨callee, -, h⟩) |
    ⟨callee, -, h⟩
  · exact refersByKind_function u id _
  · exact refersByKind_function u id _
  · unfold CallTarget.ofInternal? at h
    split at h
    · exact Option.some.inj h ▸ refersByKind_function u _ _
    · cases Option.some.inj h
      exact .of_solidity rfl rfl
    · cases Option.some.inj h
      exact .of_unknown rfl
    · cases h
  · unfold CallTarget.ofLibrary? at h
    split at h
    · exact Option.some.inj h ▸ refersByKind_function u _ _
    · cases Option.some.inj h
      exact .of_unknown rfl
    · cases h
  · unfold CallTarget.ofHighLevel? at h
    split at h
    · cases Option.some.inj h
      have hf := refersByKind_function u ‹_› .external
      exact ⟨hf.stateVar, hf.solidity⟩
    · cases Option.some.inj h
      exact .of_stateVar rfl ⟨_, rfl⟩
    · cases Option.some.inj h
      exact .of_unknown rfl
    · cases h

section Target

variable {u : Compilation} {target : CallTarget}

/-- A target is a function entry exactly if it is a step, and has its uid for a key. -/
theorem ofTarget?_of_step {edge : EdgeKind} {uid : String} :
    (∃ e, ofTarget? u target = some (⟨edge, .function, uid⟩, e)) ↔
      ∃ id, classify u target = .inl ⟨edge, uid, id⟩ := by
  obtain ⟨tkind, tlabel, tedge, ref, contract⟩ := target
  cases tkind with
  | function =>
      cases ref with
      | function id =>
          cases hc : u.function? id with
          | none => simp [ofTarget?, classify, hc]
          | some callee => by_cases himpl : callee.isImplemented <;> simp [ofTarget?, classify, hc, himpl]
      | _ => simp [ofTarget?, classify]
  | _ => cases ref <;> simp [ofTarget?, classify]

/-- A target is another entry exactly if it is a leaf that is reported as such, and has its text
for a key. -/
theorem ofTarget?_of_leaf (hnames : NamesFunction u target) (hrefers : RefersByKind target)
    {edge : EdgeKind} {kind : TargetKind} (hkind : kind ≠ .function) {label : String} :
    (∃ e, ofTarget? u target = some (⟨edge, kind, label⟩, e)) ↔
      ∃ leaf, IsLeaf u target leaf ∧ leaf.edge = edge ∧ reportedAs leaf.kind = kind ∧
        leaf.label = label := by
  simp only [← classify_eq_inr hnames]
  obtain ⟨tkind, tlabel, tedge, ref, contract⟩ := target
  cases tkind with
  | function =>
      obtain ⟨id, callee, rfl, hc⟩ := hnames rfl
      by_cases himpl : callee.isImplemented
      · simp [ofTarget?, classify, hc, himpl, Ne.symm hkind]
      · simp [ofTarget?, classify, hc, himpl, reportedAs]
  | stateVar =>
      obtain ⟨name, rfl⟩ := hrefers.stateVar rfl
      simp [ofTarget?, classify, reportedAs]
  | solidity =>
      obtain rfl : ref = .builtin tlabel := hrefers.solidity rfl
      simp [ofTarget?, classify, reportedAs]
  | unknown => simp [ofTarget?, classify, reportedAs]

end Target

/-! ## Functions -/

/-- The call-graph record of the function has the entry. -/
def Reports (u : Compilation) (filters : CallFilters) (a : FunctionId) (e : CallEntry) : Prop :=
  ∃ node, u.callEdges a filters = .ok node ∧ e ∈ node.calls

/-- The call-graph record of the first function has an entry with the uid of the second. -/
def ReportsFunction (u : Compilation) (filters : CallFilters) (a c : FunctionId) : Prop :=
  ∃ e f, Reports u filters a e ∧ u.function? c = some f ∧ e.id? = some f.uid

/-- The call-graph record of the function has an entry of the kind, over the edge and with the
text. -/
def ReportsText (u : Compilation) (filters : CallFilters) (kind : TargetKind) (edge : EdgeKind)
    (label : String) (a : FunctionId) : Prop :=
  ∃ e, Reports u filters a e ∧ e.kind = kind ∧ e.edge = edge ∧ e.label = label

section Function

variable {u : Compilation} {filters : CallFilters} {a c : FunctionId}

theorem reports_iff {f : Function} (hf : u.function? a = some f) {e : CallEntry} :
    Reports u filters a e ↔ e ∈ u.callEntries filters f := by
  simp [Reports, Compilation.callEdges, hf, FunctionNode.ofFunction]

theorem id?_eq_some_iff {e : CallEntry} {uid : String} :
    e.id? = some uid ↔ ∃ edge, e.key = ⟨edge, .function, uid⟩ := by
  cases e <;> simp [id?, key, CallEntry.kind]

theorem key_eq_of_kind_ne {e : CallEntry} {kind : TargetKind} (hkind : kind ≠ .function)
    {edge : EdgeKind} {label : String} :
    e.key = ⟨edge, kind, label⟩ ↔ e.kind = kind ∧ e.edge = edge ∧ e.label = label := by
  cases e with
  | function => simp [key, CallEntry.kind, Ne.symm hkind]
  | _ => simp [key, CallEntry.kind, CallEntry.edge, CallEntry.label, id?, and_left_comm]

/-- A record names the functions that the walk goes on to. -/
theorem reportsFunction_iff (hu : DistinctUids u) :
    ReportsFunction u filters a c ↔ CallsImplemented u filters a c := by
  cases hf : u.function? a with
  | none =>
      have hrecord : ∀ e, ¬ Reports u filters a e := by
        rintro e ⟨node, hnode, -⟩
        simp [Compilation.callEdges, hf] at hnode
      have hcalls : ∀ edge, ¬ Calls u filters edge a c := by
        rintro edge ⟨target, ⟨f, hf', -⟩, -⟩
        simp [hf] at hf'
      constructor
      · rintro ⟨e, f, he, -⟩
        exact absurd he (hrecord e)
      · rintro ⟨-, edge, h⟩
        exact absurd h (hcalls edge)
  | some f =>
      simp only [ReportsFunction, reports_iff hf, id?_eq_some_iff]
      constructor
      · rintro ⟨e, g, he, hg, edge, hkey⟩
        obtain ⟨target, ht, hentry⟩ := exists_mem_callEntries.mp ⟨e, he, hkey⟩
        obtain ⟨id, hstep⟩ := ofTarget?_of_step.mp hentry
        obtain ⟨hk, href, hedge, g', hg', himpl, huid⟩ := classify_eq_inl.mp hstep
        obtain rfl : id = c := hu.eq_of_uid hg' hg huid
        exact ⟨⟨g', hg', himpl⟩, edge, target, (mem_keptTargets hf).mp ht, hk, href, hedge⟩
      · rintro ⟨⟨g, hg, himpl⟩, edge, target, ht, hk, href, hedge⟩
        have hstep : classify u target = .inl ⟨edge, g.uid, c⟩ :=
          classify_eq_inl.mpr ⟨hk, href, hedge, g, hg, himpl, rfl⟩
        obtain ⟨e, he, hkey⟩ := exists_mem_callEntries.mpr
          ⟨target, (mem_keptTargets hf).mpr ht, ofTarget?_of_step.mpr ⟨c, hstep⟩⟩
        exact ⟨e, g, he, hg, edge, hkey⟩

/-- A record has the texts of the leaves of its function. -/
theorem reportsText_iff {kind : TargetKind} (hkind : kind ≠ .function) {edge : EdgeKind}
    {label : String} :
    ReportsText u filters kind edge label a ↔
      ∃ leaf, HasLeaf u filters a leaf ∧ leaf.edge = edge ∧ reportedAs leaf.kind = kind ∧
        leaf.label = label := by
  cases hf : u.function? a with
  | none =>
      constructor
      · rintro ⟨e, ⟨node, hnode, -⟩, -⟩
        simp [Compilation.callEdges, hf] at hnode
      · rintro ⟨leaf, ⟨target, ⟨f, hf', -⟩, -⟩, -⟩
        simp [hf] at hf'
  | some f =>
      have hleaf {target : CallTarget} (ht : target ∈ u.keptTargets filters f) :
          (∃ e, ofTarget? u target = some (⟨edge, kind, label⟩, e)) ↔
            ∃ leaf, IsLeaf u target leaf ∧ leaf.edge = edge ∧ reportedAs leaf.kind = kind ∧
              leaf.label = label := by
        have hmem : target ∈ u.callTargets f := (List.mem_filter.mp ht).1
        exact ofTarget?_of_leaf (namesFunction_of_mem hmem) (refersByKind_of_mem hmem) hkind
      simp only [ReportsText, reports_iff hf, ← key_eq_of_kind_ne hkind, exists_mem_callEntries]
      constructor
      · rintro ⟨target, ht, h⟩
        obtain ⟨leaf, hl, hrest⟩ := (hleaf ht).mp h
        exact ⟨leaf, ⟨target, (mem_keptTargets hf).mp ht, hl⟩, hrest⟩
      · rintro ⟨leaf, ⟨target, ht, hl⟩, hrest⟩
        have ht' := (mem_keptTargets hf).mpr ht
        exact ⟨target, ht', (hleaf ht').mpr ⟨leaf, hl, hrest⟩⟩

end Function

/-! ## The walk and the records -/

/-- The bundle holds what the call-graph records of its functions report. -/
structure AgreesWithRecords (u : Compilation) (filters : CallFilters) (bundle : Bundle) : Prop where
  /-- The functions are those that function entries lead to. -/
  functions : ∀ id, id ∈ bundle.entry :: bundle.reachable.map Prod.snd ↔
    Relation.ReflTransGen (ReportsFunction u filters) bundle.entry id
  stateVar : ∀ edge label, ⟨edge, .stateVar, label⟩ ∈ bundle.leaves ↔
    ∃ a ∈ bundle.entry :: bundle.reachable.map Prod.snd,
      ReportsText u filters .stateVar edge label a
  solidity : ∀ edge label, ⟨edge, .solidity, label⟩ ∈ bundle.leaves ↔
    ∃ a ∈ bundle.entry :: bundle.reachable.map Prod.snd,
      ReportsText u filters .solidity edge label a
  /-- Functions without a body and unknown targets are told apart in bundles only. -/
  unknown : ∀ edge label,
    ⟨edge, .abstract, label⟩ ∈ bundle.leaves ∨ ⟨edge, .unknown, label⟩ ∈ bundle.leaves ↔
      ∃ a ∈ bundle.entry :: bundle.reachable.map Prod.snd,
        ReportsText u filters .unknown edge label a

namespace Exact

variable {u : Compilation} {filters : CallFilters} {entry : FunctionId} {bundle : Bundle}

/-- The entry and the functions listed are those that calls of implemented functions lead to. -/
theorem mem_found (h : Exact u filters entry bundle) {id : FunctionId} :
    id ∈ entry :: bundle.reachable.map Prod.snd ↔
      Relation.ReflTransGen (CallsImplemented u filters) entry id := by
  rw [List.mem_cons, h.reachable]
  constructor
  · rintro (rfl | ⟨-, -, hreach⟩)
    · exact .refl
    · exact hreach.to_reflTransGen
  · intro hreach
    rcases Relation.reflTransGen_iff_eq_or_transGen.mp hreach with rfl | htrans
    · exact Or.inl rfl
    · obtain ⟨b, -, himpl, -⟩ := Relation.TransGen.tail'_iff.mp htrans
      exact or_iff_not_imp_left.mpr fun hne => ⟨hne, himpl, htrans⟩

/-- What is reported of a kind are the texts of the leaves that are reported as that kind. -/
theorem reportsText_iff_leaf (h : Exact u filters entry bundle) {kind : TargetKind}
    (hkind : kind ≠ .function) {edge : EdgeKind} {label : String} :
    (∃ a ∈ entry :: bundle.reachable.map Prod.snd, ReportsText u filters kind edge label a) ↔
      ∃ leafKind, reportedAs leafKind = kind ∧ ⟨edge, leafKind, label⟩ ∈ bundle.leaves := by
  simp only [reportsText_iff hkind, h.leaves]
  constructor
  · rintro ⟨a, ha, ⟨edge, leafKind, label⟩, hleaf, rfl, hreported, rfl⟩
    exact ⟨leafKind, hreported, a, ha, hleaf⟩
  · rintro ⟨leafKind, hreported, a, ha, hleaf⟩
    exact ⟨a, ha, _, hleaf, rfl, hreported, rfl⟩

theorem agreesWithRecords (hu : DistinctUids u) (h : Exact u filters entry bundle) :
    AgreesWithRecords u filters bundle := by
  have hcalls : ReportsFunction u filters = CallsImplemented u filters := by
    funext a c
    exact propext (reportsFunction_iff hu)
  refine ⟨fun id => ?_, fun edge label => ?_, fun edge label => ?_, fun edge label => ?_⟩
  · rw [h.entry_eq, hcalls, h.mem_found]
  all_goals
    rw [h.entry_eq, h.reportsText_iff_leaf (by decide)]
    constructor
  · exact fun hl => ⟨.stateVar, rfl, hl⟩
  · rintro ⟨leafKind, hreported, hl⟩
    cases leafKind <;> first | exact hl | cases hreported
  · exact fun hl => ⟨.solidity, rfl, hl⟩
  · rintro ⟨leafKind, hreported, hl⟩
    cases leafKind <;> first | exact hl | cases hreported
  · rintro (hl | hl)
    · exact ⟨.abstract, rfl, hl⟩
    · exact ⟨.unknown, rfl, hl⟩
  · rintro ⟨leafKind, hreported, hl⟩
    cases leafKind with
    | abstract => exact Or.inl hl
    | unknown => exact Or.inr hl
    | solidity => cases hreported
    | stateVar => cases hreported

end Exact

end Bundle

namespace Compilation

/-- Bundles and call-graph records agree: both fail in the same way for a function that is not
there, and otherwise the bundle holds what the records of its functions report. -/
theorem bundle_agrees_callEdges {u : Compilation} (hu : Bundle.DistinctUids u)
    (entry : FunctionId) (filters : CallFilters) :
    (u.function? entry = none → ∃ e, u.bundle entry filters = .error e ∧
      u.callEdges entry filters = .error e) ∧
    (u.function? entry ≠ none → ∃ bundle, u.bundle entry filters = .ok bundle ∧
      bundle.entry = entry ∧ Bundle.AgreesWithRecords u filters bundle) := by
  constructor
  · intro hnone
    exact ⟨_, by rw [bundle, hnone], by rw [callEdges, hnone]⟩
  · intro hentry
    obtain ⟨root, hroot⟩ := Option.ne_none_iff_exists'.mp hentry
    have hstart : Bundle.Walk.Inv u filters entry [] ⟨[root.uid], [], [], [entry]⟩ :=
      Bundle.Walk.inv_start hu hroot
    have hfuel : 1 + u.functions.size ≤ u.functions.size + 1 + 1 := by omega
    obtain ⟨h, hpending⟩ := hstart.run hu (u.functions.size + 1) hfuel
    exact ⟨_, by rw [bundle, hroot], rfl, (h.exact hpending).agreesWithRecords hu⟩

end Compilation

namespace Bundle

/-- An entry that reads a variable of another contract and calls a function without a body, over a
function that calls itself. -/
def mixed : Compilation :=
  let entry : Function := { Function.new "entry" .free with
    isImplemented := true
    calls := { CallSites.none with
      internal := [.internal ⟨1⟩, .internal ⟨1⟩]
      highLevel := [.highLevel (some "Token") (.getter "supply")] } }
  let loop : Function := { Function.new "loop" .free with
    id := ⟨1⟩
    isImplemented := true
    calls := { CallSites.none with
      internal := [.internal ⟨1⟩, .internal ⟨2⟩, .unresolved .internal "hook", .builtin "gasleft()"] } }
  let abstract : Function := { Function.new "later" .free with id := ⟨2⟩ }
  { Compilation.new "mixed.sol" .solidity with functions := #[entry, loop, abstract] }

end Bundle

/-- With all edges kept, the bundle of the entry holds what the two records report; a fourth
function has neither bundle nor record. -/
theorem mixed_bundle_agrees :
    let all : CallFilters := ⟨true, true, true, true, true⟩
    (∃ e, Bundle.mixed.bundle ⟨3⟩ all = .error e ∧ Bundle.mixed.callEdges ⟨3⟩ all = .error e) ∧
    ∃ bundle, Bundle.mixed.bundle ⟨0⟩ all = .ok bundle ∧ bundle.entry = ⟨0⟩ ∧
      Bundle.AgreesWithRecords Bundle.mixed all bundle ∧
      bundle.reachable = [(.internal, ⟨1⟩)] ∧
      bundle.leaves = [⟨.external, .stateVar, "Token.supply"⟩, ⟨.internal, .abstract, "later()"⟩,
        ⟨.internal, .unknown, "hook"⟩, ⟨.solidity, .solidity, "gasleft()"⟩] := by
  intro all
  have hdistinct : Bundle.DistinctUids Bundle.mixed := by decide
  obtain ⟨bundle, hbundle, hentry, hagrees⟩ :=
    (Compilation.bundle_agrees_callEdges hdistinct ⟨0⟩ all).2
      (by simp [Bundle.mixed, Compilation.function?])
  have hvalue : Bundle.mixed.bundle ⟨0⟩ all = .ok ⟨⟨0⟩, [(.internal, ⟨1⟩)],
      [⟨.external, .stateVar, "Token.supply"⟩, ⟨.internal, .abstract, "later()"⟩,
        ⟨.internal, .unknown, "hook"⟩, ⟨.solidity, .solidity, "gasleft()"⟩]⟩ := by
    cbv
  obtain rfl := Except.ok.inj (hbundle.symm.trans hvalue)
  exact ⟨(Compilation.bundle_agrees_callEdges hdistinct ⟨3⟩ all).1 rfl, _, hbundle, hentry,
    hagrees, rfl, rfl⟩

end ContractCalls
