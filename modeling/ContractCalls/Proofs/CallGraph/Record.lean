/-
# What a call-graph record lists

A record is made in three steps: every kept target of the function becomes an
entry, of the entries with one key the first is kept, and what is kept is
sorted.  `IsEntryOf` says which entry a target becomes, and `RecordsCalls` what
is in the record then.

A filter drops whole edges, and the edge is part of the key.  So a target that
is dropped stands in the way of no target that is kept, and selecting commutes
with keeping the first of every key; it commutes with sorting as well, also
among entries that tie.  Hence a filtered record is the full record with the
dropped edges left out.
-/
import ContractCalls.Proofs.CallGraph.Edge

namespace ContractCalls

instance transOrd_targetKind : Std.TransOrd TargetKind where
  eq_swap {a b} := by cases a <;> cases b <;> rfl
  isLE_trans {a b c} := by cases a <;> cases b <;> cases c <;> decide

namespace CallEntry

instance transCmp_order : Std.TransCmp CallEntry.order :=
  inferInstanceAs (Std.TransCmp (Ordered.lexically _ _))

/-! ## The first entry of every key -/

section Dedup

variable {seen : List Key} {entries : List (Key × CallEntry)}

/-- The entries come with their own keys. -/
def Keyed (entries : List (Key × CallEntry)) : Prop := ∀ x ∈ entries, x.2.key = x.1

theorem Keyed.tail {x : Key × CallEntry} (h : Keyed (x :: entries)) : Keyed entries :=
  fun y hy => h y (List.mem_cons_of_mem x hy)

/-- No key is kept twice, and none that was seen before. -/
theorem nodup_dedup (h : Keyed entries) :
    ((dedup seen entries).map key).Nodup ∧ ∀ e ∈ dedup seen entries, e.key ∉ seen := by
  induction entries generalizing seen with
  | nil => simp [dedup]
  | cons x entries ih =>
      obtain ⟨k, e⟩ := x
      have hkey : e.key = k := h (k, e) List.mem_cons_self
      unfold dedup
      by_cases hseen : k ∈ seen
      · rw [if_pos (List.contains_iff_mem.2 hseen)]
        exact ih h.tail
      · rw [if_neg fun hc => hseen (List.contains_iff_mem.1 hc)]
        obtain ⟨hnodup, hnew⟩ := @ih (k :: seen) h.tail
        rw [List.map_cons, List.nodup_cons, hkey]
        refine ⟨⟨fun hmem => ?_, hnodup⟩, fun e' he' => ?_⟩
        · obtain ⟨e', he', heq⟩ := List.mem_map.1 hmem
          exact hnew e' he' (heq ▸ List.mem_cons_self)
        · rcases List.mem_cons.1 he' with rfl | he'
          · exact hkey ▸ hseen
          · exact fun hmem => hnew e' he' (List.mem_cons_of_mem k hmem)

/-- What is kept is the first of its key. -/
theorem first_of_mem_dedup (h : Keyed entries) {e : CallEntry} (he : e ∈ dedup seen entries) :
    ∃ before after, entries = before ++ (e.key, e) :: after ∧ ∀ x ∈ before, x.1 ≠ e.key := by
  induction entries generalizing seen with
  | nil => cases he
  | cons x entries ih =>
      obtain ⟨k, e'⟩ := x
      have hnew : e.key ∉ seen := (nodup_dedup h).2 e he
      unfold dedup at he
      split at he
      · next hseen =>
          obtain ⟨before, after, rfl, hbefore⟩ := ih h.tail he
          refine ⟨(k, e') :: before, after, rfl, ?_⟩
          rintro y (_ | ⟨_, hy⟩)
          · exact fun heq => hnew (heq ▸ List.contains_iff_mem.1 hseen)
          · exact hbefore y hy
      · rcases List.mem_cons.1 he with rfl | he
        · have hkey : e.key = k := h (k, e) List.mem_cons_self
          exact ⟨[], entries, by rw [hkey, List.nil_append], fun x hx => absurd hx List.not_mem_nil⟩
        · have hlater : e.key ∉ k :: seen := (nodup_dedup h.tail).2 e he
          obtain ⟨before, after, rfl, hbefore⟩ := ih h.tail he
          refine ⟨(k, e') :: before, after, rfl, ?_⟩
          rintro y (_ | ⟨_, hy⟩)
          · exact fun heq => hlater (heq ▸ List.mem_cons_self)
          · exact hbefore y hy

/-- Selecting by the key commutes with keeping the first of every key; which of the other keys were
seen does not matter. -/
theorem dedup_filter (p : Key → Bool) (h : Keyed entries) {seen' : List Key}
    (hseen : ∀ k, p k = true → (k ∈ seen' ↔ k ∈ seen)) :
    dedup seen' (entries.filter fun x => p x.1) =
      (dedup seen entries).filter fun e => p e.key := by
  induction entries generalizing seen seen' with
  | nil => rfl
  | cons x entries ih =>
      obtain ⟨k, e⟩ := x
      have hkey : e.key = k := h (k, e) List.mem_cons_self
      rw [List.filter_cons]
      by_cases hp : p k = true
      · rw [if_pos hp]
        unfold dedup
        by_cases hk : k ∈ seen
        · rw [if_pos (List.contains_iff_mem.2 ((hseen k hp).2 hk)),
            if_pos (List.contains_iff_mem.2 hk), ih h.tail hseen]
        · rw [if_neg fun hc => hk ((hseen k hp).1 (List.contains_iff_mem.1 hc)),
            if_neg fun hc => hk (List.contains_iff_mem.1 hc), List.filter_cons_of_pos (hkey ▸ hp)]
          refine congrArg (e :: ·) (ih h.tail fun k' hk' => ?_)
          rw [List.mem_cons, List.mem_cons, hseen k' hk']
      · rw [if_neg hp]
        conv_rhs => unfold dedup
        split
        · exact ih h.tail hseen
        · rw [List.filter_cons_of_neg (hkey ▸ hp)]
          refine ih h.tail fun k' hk' => ?_
          have hne : k' ≠ k := fun heq => hp (heq ▸ hk')
          rw [List.mem_cons, or_iff_right hne, hseen k' hk']

end Dedup

/-! ## The entry of a target -/

/-- The entry that a target becomes.  A function without a body is an unknown target under its
display name. -/
inductive IsEntryOf (u : Compilation) (target : CallTarget) : CallEntry → Prop
  | function {id : FunctionId} {callee : Function} : target.kind = .function →
      target.target = .function id → u.function? id = some callee → callee.isImplemented = true →
      IsEntryOf u target (.function target.edge callee.uid callee.fullName callee.displayName
        (some callee.visibility) callee.context callee.declarer)
  | abstract {id : FunctionId} {callee : Function} : target.kind = .function →
      target.target = .function id → u.function? id = some callee → callee.isImplemented = false →
      IsEntryOf u target (.unknown target.edge callee.displayName)
  | stateVar {name : String} : target.kind = .stateVar → target.target = .getter name →
      IsEntryOf u target (.getter target.edge name target.label target.contract)
  | solidity : target.kind = .solidity → IsEntryOf u target (.solidity target.edge target.label)
  | unknown : target.kind = .unknown → IsEntryOf u target (.unknown target.edge target.label)

/-- The entry has the edge, kind and identity of the entry that the target becomes. -/
def Represents (u : Compilation) (e : CallEntry) (target : CallTarget) : Prop :=
  ∃ own, IsEntryOf u target own ∧ own.key = e.key

section Target

variable {u : Compilation} {target : CallTarget} {e : CallEntry}

/-- A call target of a function becomes one entry. -/
theorem ofTarget?_eq_some_iff (hnames : Bundle.NamesFunction u target)
    (hrefers : Bundle.RefersByKind target) {k : Key} :
    ofTarget? u target = some (k, e) ↔ IsEntryOf u target e ∧ e.key = k := by
  constructor
  · intro h
    refine ⟨?_, key_of_ofTarget? h⟩
    unfold ofTarget? at h
    split at h
    · next id hkind href =>
        split at h
        · cases h
        · next callee hcallee =>
            split at h
            · next himpl => cases h; exact .function hkind href hcallee himpl
            · next himpl => cases h; exact .abstract hkind href hcallee (by simpa using himpl)
    · next name hkind href => cases h; exact .stateVar hkind href
    · next name hkind href =>
        obtain rfl : name = target.label := by simpa [href] using hrefers.solidity hkind
        cases h
        exact .solidity hkind
    · next hfunction hgetter hbuiltin =>
        cases h
        refine .unknown ?_
        cases hkind : target.kind with
        | function =>
            obtain ⟨id, callee, href, -⟩ := hnames hkind
            exact (hfunction id hkind href).elim
        | stateVar =>
            obtain ⟨name, href⟩ := hrefers.stateVar hkind
            exact (hgetter name hkind href).elim
        | solidity => exact (hbuiltin target.label hkind (hrefers.solidity hkind)).elim
        | unknown => rfl
  · rintro ⟨h, rfl⟩
    obtain ⟨kind, label, edge, ref, contract⟩ := target
    cases h with
    | function hkind href hcallee himpl =>
        cases hkind
        cases href
        simp [ofTarget?, hcallee, himpl, ofFunction, key, CallEntry.edge, CallEntry.kind, id?]
    | abstract hkind href hcallee himpl =>
        cases hkind
        cases href
        simp [ofTarget?, hcallee, himpl, key, CallEntry.edge, CallEntry.kind, id?, CallEntry.label]
    | stateVar hkind href =>
        cases hkind
        cases href
        rfl
    | solidity hkind =>
        cases hkind
        obtain rfl : ref = .builtin label := hrefers.solidity rfl
        rfl
    | unknown hkind =>
        cases hkind
        rfl

end Target

/-! ## Records -/

section Record

variable {u : Compilation} {filters : CallFilters} {f : Function}

theorem ofTarget?_of_mem {target : CallTarget} (h : target ∈ u.keptTargets filters f) {k : Key}
    {e : CallEntry} : ofTarget? u target = some (k, e) ↔ IsEntryOf u target e ∧ e.key = k :=
  have hmem : target ∈ u.callTargets f := (List.mem_filter.1 h).1
  ofTarget?_eq_some_iff (Bundle.namesFunction_of_mem hmem) (Bundle.refersByKind_of_mem hmem)

/-- Every kept target becomes an entry. -/
theorem exists_isEntryOf {target : CallTarget} (h : target ∈ u.keptTargets filters f) :
    ∃ e, IsEntryOf u target e := by
  have hmem : target ∈ u.callTargets f := (List.mem_filter.1 h).1
  cases hkind : target.kind with
  | function =>
      obtain ⟨id, callee, href, hcallee⟩ := Bundle.namesFunction_of_mem hmem hkind
      cases himpl : callee.isImplemented with
      | true => exact ⟨_, .function hkind href hcallee himpl⟩
      | false => exact ⟨_, .abstract hkind href hcallee himpl⟩
  | stateVar =>
      obtain ⟨name, href⟩ := (Bundle.refersByKind_of_mem hmem).stateVar hkind
      exact ⟨_, .stateVar hkind href⟩
  | solidity => exact ⟨_, .solidity hkind⟩
  | unknown => exact ⟨_, .unknown hkind⟩

/-- The entries of targets with their keys. -/
theorem keyed_filterMap (u : Compilation) (targets : List CallTarget) :
    Keyed (targets.filterMap (ofTarget? u)) := by
  rintro ⟨k, e⟩ hx
  obtain ⟨target, -, h⟩ := List.mem_filterMap.1 hx
  exact key_of_ofTarget? h

/-- The entry of a target has its edge. -/
theorem edge_of_ofTarget? {target : CallTarget} {x : Key × CallEntry}
    (h : ofTarget? u target = some x) : x.1.edge = target.edge := by
  unfold ofTarget? at h
  split at h
  · split at h
    · cases h
    · split at h <;> (cases h; rfl)
  all_goals
    cases h
    rfl

/-- Dropping targets by the edge drops their entries. -/
theorem filterMap_filter_edge (p : EdgeKind → Bool) (targets : List CallTarget) :
    (targets.filter fun t => p t.edge).filterMap (ofTarget? u) =
      (targets.filterMap (ofTarget? u)).filter fun x => p x.1.edge := by
  induction targets with
  | nil => rfl
  | cons t targets ih =>
      rw [List.filter_cons, List.filterMap_cons]
      cases ht : ofTarget? u t with
      | none =>
          split
          · rw [List.filterMap_cons, ht, ih]
          · exact ih
      | some x =>
          rw [← edge_of_ofTarget? ht, List.filter_cons]
          split
          · rw [List.filterMap_cons, ht, ih]
          · exact ih

/-- A list of calls records the kept call targets of a function. -/
structure RecordsCalls (u : Compilation) (filters : CallFilters) (f : Function)
    (calls : List CallEntry) : Prop where
  /-- The calls come in order: by edge, kind and text. -/
  sorted : calls.Pairwise fun a b => (Ordered.lexically (Ordered.comparing edge)
    (Ordered.lexically (Ordered.comparing kind) (Ordered.comparing label)) a b).isLE
  /-- Two calls differ in edge, kind or identity: the uid of a function or the text. -/
  distinct : (calls.map key).Nodup
  /-- Every kept target is represented by one call. -/
  represented : ∀ target ∈ u.callTargets f, filters.keeps target.edge = true →
    ∃! e, e ∈ calls ∧ Represents u e target
  /-- Every call is the entry of a kept target, the first that it represents. -/
  first : ∀ e ∈ calls, ∃ before target after, u.callTargets f = before ++ target :: after ∧
    filters.keeps target.edge = true ∧ IsEntryOf u target e ∧
      ∀ t ∈ before, filters.keeps t.edge = true → ¬ Represents u e t

/-- Every call is the entry of the first kept target that it represents. -/
theorem first_keptTargets {e : CallEntry} (he : e ∈ u.callEntries filters f) :
    ∃ before target after, u.keptTargets filters f = before ++ target :: after ∧
      IsEntryOf u target e ∧ ∀ t ∈ before, ¬ Represents u e t := by
  obtain ⟨before, after, hsplit, hbefore⟩ :=
    first_of_mem_dedup (keyed_filterMap u _) (Ordered.mem_sort.1 he)
  obtain ⟨targets, rest, hkept, rfl, hrest⟩ := List.filterMap_eq_append_iff.1 hsplit
  obtain ⟨skipped, target, later, rfl, hskipped, htarget, -⟩ := List.filterMap_eq_cons_iff.1 hrest
  have hmem : target ∈ u.keptTargets filters f := by simp [hkept]
  refine ⟨targets ++ skipped, target, later, by simp [hkept],
    ((ofTarget?_of_mem hmem).1 htarget).1, ?_⟩
  rintro t ht ⟨own, hown, hkey⟩
  have htmem : t ∈ u.keptTargets filters f := by
    rw [hkept, ← List.append_assoc]
    exact List.mem_append_left _ ht
  have hentry := (ofTarget?_of_mem htmem).2 ⟨hown, hkey⟩
  rcases List.mem_append.1 ht with ht | ht
  · exact hbefore _ (List.mem_filterMap.2 ⟨t, ht, hentry⟩) rfl
  · rw [hskipped t ht] at hentry
    cases hentry

/-- A place in the selected elements of a list is one in the list. -/
theorem split_of_filter {α : Type} {p : α → Bool} {xs before after : List α} {x : α}
    (h : xs.filter p = before ++ x :: after) :
    ∃ front rear, xs = front ++ x :: rear ∧ p x = true ∧
      ∀ y ∈ front, p y = true → y ∈ before := by
  obtain ⟨left, right, rfl, rfl, hright⟩ := List.filter_eq_append_iff.1 h
  obtain ⟨dropped, rear, rfl, hdropped, hx, -⟩ := List.filter_eq_cons_iff.1 hright
  refine ⟨left ++ dropped, rear, by simp, hx, fun y hy hp => ?_⟩
  rcases List.mem_append.1 hy with hy | hy
  · exact List.mem_filter.2 ⟨hy, hp⟩
  · exact absurd hp (hdropped y hy)

theorem nodup_key_callEntries : ((u.callEntries filters f).map key).Nodup :=
  ((List.mergeSort_perm _ _).map key).nodup_iff.2 (nodup_dedup (keyed_filterMap u _)).1

theorem recordsCalls_callEntries (u : Compilation) (filters : CallFilters) (f : Function) :
    RecordsCalls u filters f (u.callEntries filters f) where
  sorted := Ordered.pairwise_sort _
  distinct := nodup_key_callEntries
  represented target hmem hkept := by
    have ht : target ∈ u.keptTargets filters f := List.mem_filter.2 ⟨hmem, hkept⟩
    obtain ⟨own, hown⟩ := exists_isEntryOf ht
    obtain ⟨e, he, hkey⟩ :=
      exists_mem_callEntries.2 ⟨target, ht, own, (ofTarget?_of_mem ht).2 ⟨hown, rfl⟩⟩
    refine ⟨e, ⟨he, own, hown, hkey.symm⟩, ?_⟩
    rintro e' ⟨he', own', hown', hkey'⟩
    have hsame := ((ofTarget?_of_mem ht).2 ⟨hown, rfl⟩).symm.trans
      ((ofTarget?_of_mem ht).2 ⟨hown', rfl⟩)
    obtain rfl : own = own' := congrArg Prod.snd (Option.some.inj hsame)
    exact List.inj_on_of_nodup_map nodup_key_callEntries he' he (hkey'.symm.trans hkey.symm)
  first e he := by
    obtain ⟨before, target, after, hkept, hentry, hbefore⟩ := first_keptTargets he
    obtain ⟨front, rear, hall, hkeeps, hfront⟩ := split_of_filter hkept
    exact ⟨front, target, rear, hall, hkeeps, hentry,
      fun t ht htkept => hbefore t (hfront t ht htkept)⟩

end Record

end CallEntry

/-- Every edge is kept. -/
def CallFilters.everything : CallFilters := ⟨true, true, true, true, true⟩

theorem CallFilters.keeps_everything (edge : EdgeKind) : everything.keeps edge = true := by
  cases edge <;> rfl

namespace Compilation

/-- The calls over the kept edges are those of all calls that are over a kept edge. -/
theorem callEntries_eq_filter (u : Compilation) (filters : CallFilters) (f : Function) :
    u.callEntries filters f =
      (u.callEntries .everything f).filter fun e => filters.keeps e.edge := by
  have hall : u.keptTargets .everything f = u.callTargets f :=
    List.filter_eq_self.2 fun target _ => CallFilters.keeps_everything target.edge
  unfold callEntries
  rw [← Ordered.sort_filter, hall, keptTargets, CallEntry.filterMap_filter_edge filters.keeps,
    CallEntry.dedup_filter (fun k => filters.keeps k.edge) (CallEntry.keyed_filterMap u _)
      fun _ _ => Iff.rfl]
  rfl

/-- The record of a function lists its kept call targets, each once and in order, and a filter
leaves out of the full record the edges that it drops. -/
theorem callEdges_recordsCalls {u : Compilation} {root : FunctionId} {f : Function}
    (hf : u.function? root = some f) (filters : CallFilters) :
    ∃ node all, u.callEdges root filters = .ok node ∧ u.callEdges root .everything = .ok all ∧
      CallEntry.RecordsCalls u filters f node.calls ∧
      node.calls = all.calls.filter fun e => filters.keeps e.edge := by
  refine ⟨_, _, by rw [callEdges, hf], by rw [callEdges, hf], ?_, ?_⟩
  · exact CallEntry.recordsCalls_callEntries u filters f
  · exact callEntries_eq_filter u filters f

end Compilation

/-- The function that calls itself, with the calls of builtins left out. -/
theorem mixed_callEdges_recordsCalls :
    let filters : CallFilters := ⟨true, true, false, true, true⟩
    ∃ f node all, Bundle.mixed.function? ⟨1⟩ = some f ∧
      Bundle.mixed.callEdges ⟨1⟩ filters = .ok node ∧
      Bundle.mixed.callEdges ⟨1⟩ .everything = .ok all ∧
      CallEntry.RecordsCalls Bundle.mixed filters f node.calls ∧
      node.calls = (all.calls.filter fun e => filters.keeps e.edge) ∧
      node.calls = [.function .internal "loop()" "loop()" "loop()" (some .pub) none none,
        .unknown .internal "hook", .unknown .internal "later()"] := by
  intro filters
  have hloop : Bundle.mixed.function? ⟨1⟩ = some _ := rfl
  obtain ⟨node, all, hnode, hall, hrecords, hfilter⟩ :=
    Compilation.callEdges_recordsCalls hloop filters
  have hcalls : (Bundle.mixed.callEdges ⟨1⟩ filters).map (·.calls) =
      .ok [.function .internal "loop()" "loop()" "loop()" (some .pub) none none,
        .unknown .internal "hook", .unknown .internal "later()"] := by
    unfold Compilation.callEdges Compilation.callEntries
    simp only [Ordered.sort_eq_insertionSort]
    decide +kernel
  rw [hnode] at hcalls
  exact ⟨_, node, all, hloop, hnode, hall, hrecords, hfilter, Except.ok.inj hcalls⟩

end ContractCalls
