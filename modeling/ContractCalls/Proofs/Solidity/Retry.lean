/-
# Parsing and analysing again

A loader is parsed and analysed by its caller, who may call either step as
often as he likes and go on after a failure.  A step that has succeeded is done
and does nothing when it is called again.  A step that has failed half-way
leaves what it has added, and the next attempt adds it once more.

So the state after any calls is described by two accounts: for each attempt to
parse the part of the syntax trees it got through, and the number of builds of
the function headers.
-/
import ContractCalls.Proofs.Pipeline
import ContractCalls.Proofs.Solidity.Gathering

namespace ContractCalls

namespace Solidity

namespace Loader

variable {start l : Loader} {nodes : List Node} {builds : Nat} {analyzed : Bool}

/-! ## Attempts to analyse -/

/-- A loader whose nodes were all registered and whose headers were built some times. -/
structure Analyzing (nodes : List Node) (builds : Nat) (analyzed : Bool) (l : Loader) : Prop
    extends Index.Registers nodes l.index where
  labels : (l.unit.contracts.map Contract.label).toList =
    (contractNodes nodes).map Node.contractLabel
  numbered : l.headers.Numbered
  linearized : ∀ id c definition, l.unit.contract? id = some c →
    l.index.contract? id = some definition →
    c.linearization = [id] ∨ c.linearization = l.index.linearizationOf definition
  lists : l.headers.Lists (fun id => (List.replicate builds (l.headers.seen id)).flatten)
    (List.replicate builds l.headers.free).flatten
  isParsed : l.unit.isParsed = true
  isAnalyzed : l.unit.isAnalyzed = analyzed

theorem Gathering.analyzing (h : Gathering start nodes l) :
    Analyzing nodes 0 false { l with unit := l.unit.markParsed } where
  toRegisters := h.gathered.toRegisters
  labels := by
    have hlabels := congrArg (List.map fun entry => entry.2.1) h.gathered.contracts
    rw [Array.toList_map, List.map_map, map_bareEntries] at hlabels
    rw [Array.toList_map]
    exact hlabels
  numbered _ _ hc := (h.gathered.entry_eq hc).1
  linearized _ _ _ hc _ := Or.inl (h.gathered.entry_eq hc).2.1
  lists :=
    { contract := by
        intro id c hc
        rw [(h.gathered.entry_eq hc).2.2]
        rfl
      free := by
        show (List.filter _ l.unit.functions.toList).map _ = _
        rw [show l.unit.functions = #[] from h.gathered.functions]
        rfl }
  isParsed := rfl
  isAnalyzed := h.gathered.isAnalyzed

/-- Resolving variables changes linearizations and state variables of contracts at most. -/
theorem map_resolveVariables {β : Type} {g : Contract → β}
    (hg : ∀ c linearization stateVariables, g { c with linearization, stateVariables } = g c)
    (index : Index) (u : Compilation) :
    (resolveVariables index u).contracts.map g = u.contracts.map g := by
  have contracts : (index.contracts.foldl (resolveContract index) u).contracts.map g =
      u.contracts.map g :=
    foldl_keeps (P := fun t : Compilation => t.contracts.map g = u.contracts.map g) rfl
      fun t _ _ ht => (Compilation.map_modifyContract (fun c => hg c _ _) t _).trans ht
  exact foldl_keeps (P := fun t : Compilation => t.contracts.map g = u.contracts.map g)
    contracts fun _ _ _ ht => ht

theorem resolveVariables_rest {β : Type} {g : Compilation → β}
    (hg : ∀ u contracts scopes, g { u with contracts, scopes } = g u) (index : Index)
    (u : Compilation) : g (resolveVariables index u) = g u := by
  have contracts : g (index.contracts.foldl (resolveContract index) u) = g u :=
    foldl_keeps (P := fun t : Compilation => g t = g u) rfl
      fun t _ _ ht => (hg t _ t.scopes).trans ht
  exact foldl_keeps (P := fun t : Compilation => g t = g u) contracts
    fun t _ _ ht => (hg t t.contracts _).trans ht

/-- Resolving one contract gives it its linearization and leaves the other ones theirs. -/
theorem resolveContract_linearization (index : Index) (u : Compilation)
    (definition : ContractDefinition) {id : ContractId} {c : Contract}
    (hc : (resolveContract index u definition).contract? id = some c) :
    ∃ c', u.contract? id = some c' ∧
      if definition.id = id then
        c'.linearization = [id] ∨ c'.linearization = index.linearizationOf definition →
          c.linearization = index.linearizationOf definition
      else c.linearization = c'.linearization := by
  rcases id with ⟨i⟩
  rcases hid : definition.id with ⟨j⟩
  unfold resolveContract Compilation.modifyContract Compilation.contract? at hc
  simp only [hid, Array.getElem?_modify] at hc
  split at hc
  · next heq =>
      subst heq
      obtain ⟨c', hc', rfl⟩ := Option.map_eq_some_iff.1 hc
      refine ⟨c', hc', ?_⟩
      unfold Index.linearizationOf
      rw [if_pos rfl, hid]
      dsimp only
      split
      · exact fun h => h.elim (fun h => h) fun h => h
      · exact fun _ => rfl
  · next hne =>
      refine ⟨c, hc, ?_⟩
      rw [if_neg fun heq => hne (congrArg ContractId.index heq)]

/-- A contract that is alone or has its own linearization has its own afterwards. -/
theorem linearized_resolveVariables {index : Index} {u : Compilation}
    (hnodup : (index.contracts.map (·.id)).Nodup)
    (h : ∀ id c definition, u.contract? id = some c → index.contract? id = some definition →
      c.linearization = [id] ∨ c.linearization = index.linearizationOf definition) :
    Headers.Linearized ⟨resolveVariables index u, index⟩ := by
  intro id c definition hc hdefinition
  have hmem : definition ∈ index.contracts := List.mem_of_find?_eq_some hdefinition
  have hid : definition.id = id := by simpa using List.find?_some hdefinition
  let Has (p : List ContractId → Prop) (t : Compilation) : Prop :=
    ∀ c, t.contract? id = some c → p c.linearization
  let Own (bases : List ContractId) : Prop := bases = index.linearizationOf definition
  let Known (bases : List ContractId) : Prop := bases = [id] ∨ Own bases
  have reaches (t : Compilation) (ht : Has Known t) :
      Has Own (resolveContract index t definition) := by
    intro c hc
    obtain ⟨c', hc', hlinear⟩ := resolveContract_linearization index t definition hc
    rw [if_pos hid] at hlinear
    exact hlinear (ht c' hc')
  -- No other definition has the number of this one.
  have keeps {p : List ContractId → Prop} (hp : p (index.linearizationOf definition))
      (hknown : ∀ bases, p bases → Known bases) (t : Compilation) (other : ContractDefinition)
      (hother : other ∈ index.contracts) (ht : Has p t) : Has p (resolveContract index t other) := by
    intro c hc
    by_cases heq : other.id = id
    · obtain rfl : other = definition :=
        List.inj_on_of_nodup_map hnodup hother hmem (heq.trans hid.symm)
      rw [reaches t (fun c hc => hknown _ (ht c hc)) c hc]
      exact hp
    · obtain ⟨c', hc', hlinear⟩ := resolveContract_linearization index t other hc
      rw [if_neg heq] at hlinear
      rw [hlinear]
      exact ht c' hc'
  have resolved : Has Own (index.contracts.foldl (resolveContract index) u) := by
    obtain ⟨before, after, hsplit⟩ := List.append_of_mem hmem
    rw [hsplit, List.foldl_append, List.foldl_cons]
    have hbefore : Has Known (before.foldl (resolveContract index) u) :=
      foldl_keeps (fun c hc => h id c definition hc hdefinition) fun t other hother =>
        keeps (Or.inr rfl) (fun _ hb => hb) t other (hsplit ▸ List.mem_append_left _ hother)
    exact foldl_keeps (reaches _ hbefore) fun t other hother =>
      keeps (p := Own) rfl (fun _ hb => Or.inr hb) t other
        (hsplit ▸ List.mem_append_right _ (List.mem_cons_of_mem _ hother))
  have constants : Has Own (index.fileConstants.foldl resolveConstant _) :=
    foldl_keeps resolved fun _ _ _ ht => ht
  exact constants c hc

/-- The second loader differs in bodies, call sites and records at most. -/
structure Resembles (l t : Loader) : Prop where
  unit : l.unit.SameOutline t.unit
  index : t.index = l.index

namespace Resembles

variable {t t' : Loader}

theorem refl (l : Loader) : l.Resembles l := ⟨.refl _, rfl⟩

theorem trans (first : l.Resembles t) (next : t.Resembles t') : l.Resembles t' :=
  ⟨first.unit.trans next.unit, next.index.trans first.index⟩

theorem ofUnit {u : Compilation} (h : l.unit.SameOutline u) : l.Resembles { l with unit := u } :=
  ⟨h, rfl⟩

end Resembles

theorem Analyzing.resembles (h : Analyzing nodes builds analyzed l) {t : Loader}
    (ht : l.Resembles t) : Analyzing nodes builds analyzed t := by
  have index := ht.index
  have hcontract := Compilation.contract?_congr ht.unit.contracts
  have hseen : t.headers.seen = l.headers.seen :=
    Headers.seen_congr (fun id => congrArg _ (congrFun hcontract id)) ⟨_, index⟩
  constructor
  case toRegisters => rw [index]; exact h.toRegisters
  case labels => rw [ht.unit.contracts]; exact h.labels
  case numbered =>
    intro id c hc
    exact h.numbered id c (hcontract ▸ hc)
  case linearized =>
    intro id c definition hc hdefinition
    rw [index] at hdefinition ⊢
    exact h.linearized id c definition (hcontract ▸ hc) hdefinition
  case lists =>
    rw [hseen, Headers.free, show t.headers.index = l.headers.index from index]
    exact h.lists.congr _ (fun id => congrArg _ (congrFun hcontract id))
      (ht.unit.map_eq fun _ => rfl)
  case isParsed => exact ht.unit.isParsed.trans h.isParsed
  case isAnalyzed => exact ht.unit.isAnalyzed.trans h.isAnalyzed

/-- Resolving variables before the headers are built. -/
theorem Analyzing.resolveVariables (h : Analyzing nodes builds analyzed l) :
    Analyzing nodes builds analyzed
        { l with unit := Solidity.resolveVariables l.index l.unit } ∧
      Headers.Linearized ⟨Solidity.resolveVariables l.index l.unit, l.index⟩ := by
  have linearized := linearized_resolveVariables h.listed h.linearized
  have hview {β : Type} {g : Contract → β}
      (hg : ∀ c linearization stateVariables, g { c with linearization, stateVariables } = g c)
      (id : ContractId) : ((Solidity.resolveVariables l.index l.unit).contract? id).map g =
        (l.unit.contract? id).map g := by
    have hid := congrArg (·[id.index]?) (map_resolveVariables hg l.index l.unit)
    simp only [Array.getElem?_map] at hid
    exact hid
  refine ⟨?_, linearized⟩
  constructor
  case toRegisters => exact h.toRegisters
  case labels =>
    rw [map_resolveVariables fun _ _ _ => rfl]
    exact h.labels
  case numbered =>
    intro id c hc
    have hid := hview (g := Contract.id) (fun _ _ _ => rfl) id
    rw [show (Solidity.resolveVariables l.index l.unit).contract? id = some c from hc] at hid
    obtain ⟨c', hc', heq⟩ := Option.map_eq_some_iff.1 hid.symm
    exact heq.symm.trans (h.numbered id c' hc')
  case linearized =>
    intro id c definition hc hdefinition
    exact Or.inr (linearized id c definition hc hdefinition)
  case lists =>
    have hseen : Headers.seen ⟨Solidity.resolveVariables l.index l.unit, l.index⟩ =
        l.headers.seen := Headers.seen_congr (hview fun _ _ _ => rfl) ⟨_, rfl⟩
    have lists := h.lists.congr ⟨Solidity.resolveVariables l.index l.unit, l.index⟩
      (hview fun _ _ _ => rfl)
      (congrArg _ (resolveVariables_rest (g := (·.functions)) (fun _ _ _ => rfl) _ _))
    rw [← hseen] at lists
    exact lists
  case isParsed => exact (resolveVariables_rest (fun _ _ _ => rfl) _ _).trans h.isParsed
  case isAnalyzed => exact (resolveVariables_rest (fun _ _ _ => rfl) _ _).trans h.isAnalyzed

theorem flatten_replicate_succ {α : Type} (n : Nat) (xs : List α) :
    (List.replicate (n + 1) xs).flatten = (List.replicate n xs).flatten ++ xs := by
  rw [List.replicate_succ', List.flatten_concat]

/-- One more build. -/
theorem Analyzing.buildHeaders (h : Analyzing nodes builds analyzed l)
    (linearized : l.headers.Linearized) :
    Analyzing nodes (builds + 1) analyzed
      { l with unit := (Solidity.buildHeaders l.headers).unit
               index := (Solidity.buildHeaders l.headers).index } := by
  obtain ⟨built, lists⟩ :=
    buildHeaders_lists h.lists h.placed h.numbered linearized h.listed h.defined
  have hfree : (Solidity.buildHeaders l.headers).free = l.headers.free :=
    congrArg (List.map FreeFunction.definition)
      (built.index_eq Index.freeFunctions fun _ _ => rfl)
  constructor
  case toRegisters =>
    obtain ⟨instances, hindex⟩ := built.index
    rw [hindex]
    exact ⟨h.listed, h.free, h.defined, h.placed⟩
  case labels =>
    rw [built.labels]
    exact h.labels
  case numbered => exact built.grows.numbered h.numbered
  case linearized =>
    intro id c definition hc hdefinition
    exact Or.inr (built.linearized linearized id c definition hc hdefinition)
  case lists =>
    rw [← built.seen_eq, ← hfree] at lists
    simp only [flatten_replicate_succ]
    exact lists
  case isParsed => exact built.isParsed.trans h.isParsed
  case isAnalyzed => exact built.isAnalyzed.trans h.isAnalyzed

theorem leaves_readDeclaration {t : Loader} (ht : l.Resembles t) (position : Nat) :
    Leaves (readDeclaration position) t l.Resembles := by
  unfold readDeclaration
  refine ends_bind (ends_get ?_)
  split
  · exact ends_pure ht
  · have stored (declarations : Array Declaration) :
        l.Resembles { t with unit := { t.unit with declarations } } :=
      ht.trans (.ofUnit ⟨rfl, rfl, rfl, rfl, rfl⟩)
    refine ends_bind (ends_modify ?_)
    split
    · exact ends_pure (stored _)
    · refine ends_onUnit ?_
      unfold Compilation.recover
      split
      · exact ends_modify ((stored _).trans (.ofUnit ⟨rfl, rfl, rfl, rfl, rfl⟩))
      · exact ends_throw (stored _)

theorem sameOutline_resolveHeaderCalls (index : Index) (u : Compilation) :
    u.SameOutline (resolveHeaderCalls index u) := by
  refine foldl_keeps (P := u.SameOutline) (.refl u) fun t entry _ ht => ?_
  unfold resolveInstance
  split
  · exact ht
  · exact ht.trans (Compilation.sameOutline_modifyFunction t _ fun _ => rfl)

/-- Resolving fails before the headers are built, or builds them once more. -/
theorem ends_resolve (h : Analyzing nodes builds analyzed l) :
    Ends resolve l (fun _ => Analyzing nodes (builds + 1) analyzed)
      fun _ => Analyzing nodes builds analyzed := by
  obtain ⟨resolved, linearized⟩ := h.resolveVariables
  refine ends_bind (ends_get (ends_bind (ends_modify ?_)))
  refine ends_bind ((ends_forM (fun _ => Resembles _) (.refl _) fun position _ _ _ ht =>
    leaves_readDeclaration ht position).imp ?_ fun _ _ ht => resolved.resembles ht)
  intro _ t ht
  have hlinearized : t.headers.Linearized := by
    intro id c definition hc hdefinition
    rw [show t.headers.index = l.index from ht.index] at hdefinition ⊢
    refine linearized id c definition ?_ hdefinition
    rw [← hc]
    exact (congrFun (Compilation.contract?_congr ht.unit.contracts) id).symm
  refine ends_bind (ends_modify (ends_modify ?_))
  exact ((resolved.resembles ht).buildHeaders hlinearized).resembles
    (.ofUnit (sameOutline_resolveHeaderCalls _ _))

theorem leaves_lowerInstance {t : Loader} (ht : l.Resembles t) (done : Lowered)
    (entry : Seat × FunctionId) : Leaves (lowerInstance done entry) t l.Resembles := by
  unfold lowerInstance
  refine ends_bind (ends_get ?_)
  split
  · have counted (counters : Counters) : l.Resembles { t with unit := { t.unit with counters } } :=
      ht.trans (.ofUnit ⟨rfl, rfl, rfl, rfl, rfl⟩)
    split
    · exact ends_pure ht
    · refine ends_bind (ends_modify ?_)
      split
      · exact ends_pure (counted _)
      · split
        · exact ends_pure (counted _)
        · exact ends_throw (counted _)
  · exact ends_pure ht

theorem leaves_lowerBodies (l : Loader) : Leaves lowerBodies l l.Resembles := by
  unfold lowerBodies
  refine ends_bind (ends_get ?_)
  refine (ends_foldlM (fun _ => l.Resembles) (.refl l)
    fun done entry _ ht => leaves_lowerInstance ht done entry).bind ?_
  intro done t ht
  refine ends_modify (ht.trans (.ofUnit ?_))
  have stored : t.unit.SameOutline (done.bodies.foldl
      (fun u entry => u.modifyFunction entry.1 fun f => { f with body := entry.2 }) t.unit) :=
    foldl_keeps (P := t.unit.SameOutline) (.refl _) fun u entry _ hu =>
      hu.trans (Compilation.sameOutline_modifyFunction u entry.1 fun _ => rfl)
  exact stored.trans (Compilation.sameOutline_recordErrors _ _)

theorem Analyzing.marked (h : Analyzing nodes builds analyzed l) :
    Analyzing nodes builds true { l with unit := { l.unit with isAnalyzed := true } } := by
  have hseen : Headers.seen ⟨{ l.unit with isAnalyzed := true }, l.index⟩ = l.headers.seen :=
    Headers.seen_congr (fun _ => rfl) ⟨_, rfl⟩
  have lists := h.lists.congr ⟨{ l.unit with isAnalyzed := true }, l.index⟩
    (fun _ => rfl) rfl
  rw [← hseen] at lists
  exact { h with lists := lists, isAnalyzed := rfl }

/-- An attempt to analyse builds the headers once more, unless it fails before. -/
theorem ends_analyze (h : Analyzing nodes builds false l) :
    Ends analyze l (fun _ => Analyzing nodes (builds + 1) true)
      fun _ t => Analyzing nodes builds false t ∨ Analyzing nodes (builds + 1) false t := by
  unfold analyze
  refine ends_bind (ends_get ?_)
  rw [h.isParsed, h.isAnalyzed]
  refine ends_bind ((ends_resolve h).imp (fun _ t ht => ?_) fun _ _ ht => Or.inl ht)
  refine ends_bind ((leaves_lowerBodies t).imp (fun _ t' ht' => ?_) fun _ _ ht' =>
    Or.inr (ht.resembles ht'))
  have lowered := ht.resembles ht'
  refine ends_bind (ends_onUnit ((Compilation.leaves_runPasses _ _ t'.unit).imp
    (fun _ u hu => ?_) fun _ _ hu => Or.inr (lowered.resembles (.ofUnit hu))))
  have passed := lowered.resembles (.ofUnit hu)
  refine ends_onUnit (ends_bind (ends_get ?_))
  unfold Compilation.markAnalyzed
  rw [if_pos (show u.isParsed = true from passed.isParsed)]
  exact ends_set passed.marked

end Loader

/-! ## Calls -/

/-- A call that a caller makes. -/
inductive Call where
  | parse
  | analyze
deriving DecidableEq, Repr

namespace Call

/-- What the call runs. -/
def step : Call → Load Unit
  | .parse => Loader.parse
  | .analyze => Loader.analyze

/-- The loader after the call, whatever it returns. -/
def after (call : Call) (l : Loader) : Loader := (call.step.run l).2

/-- The call has been made with success before. -/
def isDone (call : Call) (u : Compilation) : Bool :=
  match call with
  | .parse => u.isParsed
  | .analyze => u.isAnalyzed

/-- The call is allowed and not done yet. -/
def isOpen (call : Call) (u : Compilation) : Bool :=
  match call with
  | .parse => !u.isParsed
  | .analyze => u.isParsed && !u.isAnalyzed

/-- The loader after calls. -/
def afterAll (calls : List Call) (l : Loader) : Loader := calls.foldl (fun l call => call.after l) l

/-- How many of the calls are of one kind and find it open. -/
def attempts (call : Call) : List Call → Loader → Nat
  | [], _ => 0
  | next :: calls, l =>
      (if next = call ∧ next.isOpen l.unit then 1 else 0) + attempts call calls (next.after l)

end Call

namespace Loader

variable {parts : List (List Node)}

/-- The states that calls lead to: the part of the nodes that each attempt to parse got through, and
the number of builds. -/
inductive Reached (start : Loader) : List (List Node) → Nat → Loader → Prop where
  | gathering {parts : List (List Node)} {l : Loader} :
      Gathering start parts.flatten l → Reached start parts 0 l
  | analyzing {parts : List (List Node)} {builds : Nat} {analyzed : Bool} {l : Loader} :
      parts.getLast? = some start.nodes → (analyzed = true → 0 < builds) →
      Analyzing parts.flatten builds analyzed l → Reached start parts builds l

/-- A call that is done changes nothing, and neither does an analysis before a parse. -/
theorem after_of_closed {call : Call} (h : call.isOpen l.unit = false) : call.after l = l := by
  have leaves : Leaves call.step l (· = l) := by
    cases call with
    | parse =>
        have hparsed : l.unit.isParsed = true := by simpa [Call.isOpen] using h
        refine ends_bind (ends_get ?_)
        rw [hparsed]
        exact ends_pure rfl
    | analyze =>
        refine ends_bind (ends_get ?_)
        cases hparsed : l.unit.isParsed with
        | false => exact ends_bind (ends_throw rfl)
        | true =>
            have hanalyzed : l.unit.isAnalyzed = true := by simpa [Call.isOpen, hparsed] using h
            rw [hanalyzed]
            exact ends_pure rfl
  exact leaves.state

theorem Reached.flags (h : Reached start parts builds l) :
    l.unit.isAnalyzed = true → l.unit.isParsed = true := by
  cases h with
  | gathering h =>
      intro hanalyzed
      rw [show l.unit.isAnalyzed = false from h.gathered.isAnalyzed] at hanalyzed
      cases hanalyzed
  | analyzing _ _ h => exact fun _ => h.isParsed

theorem leaves_parse (h : Gathering start parts.flatten l) :
    Leaves parse l fun t => ∃ part, Reached start (parts ++ [part]) 0 t ∧ part <+: start.nodes := by
  refine (ends_parse h).imp ?_ ?_
  · rintro _ _ ⟨r, hr, rfl⟩
    have parsed := hr.analyzing
    rw [← List.flatten_concat] at parsed
    exact ⟨start.nodes, .analyzing List.getLast?_concat Bool.false_ne_true.elim parsed,
      List.prefix_rfl⟩
  · rintro _ t ⟨part, hpart, ht⟩
    rw [← List.flatten_concat] at ht
    exact ⟨part, .gathering ht, hpart⟩

theorem leaves_analyze (hlast : parts.getLast? = some start.nodes)
    (h : Analyzing parts.flatten builds false l) :
    Leaves analyze l fun t => ∃ builds', Reached start parts builds' t ∧ builds' ≤ builds + 1 := by
  have failed {builds' : Nat} {t : Loader} (ht : Analyzing parts.flatten builds' false t) :
      Reached start parts builds' t :=
    .analyzing hlast Bool.false_ne_true.elim ht
  refine (ends_analyze h).imp ?_ ?_
  · exact fun _ _ ht => ⟨_, .analyzing hlast (fun _ => Nat.succ_pos _) ht, Nat.le_refl _⟩
  · rintro _ t (ht | ht)
    · exact ⟨_, failed ht, Nat.le_succ _⟩
    · exact ⟨_, failed ht, Nat.le_refl _⟩

/-- What a call adds. -/
theorem Reached.after (h : Reached start parts builds l) (call : Call) :
    ∃ more builds', Reached start (parts ++ more) builds' (call.after l) ∧
      (∀ part ∈ more, part <+: start.nodes) ∧
      more.length = (if call = .parse ∧ call.isOpen l.unit then 1 else 0) ∧
      builds' ≤ builds + (if call = .analyze ∧ call.isOpen l.unit then 1 else 0) := by
  cases hopen : call.isOpen l.unit with
  | false =>
      rw [after_of_closed hopen]
      exact ⟨[], builds, by simpa using h, by simp, by simp, by simp⟩
  | true =>
      cases call with
      | parse =>
          cases h with
          | gathering h =>
              obtain ⟨part, hreached, hpart⟩ := (leaves_parse h).state
              exact ⟨[part], 0, hreached, by simpa using hpart, by simp, by simp⟩
          | analyzing _ _ h => simp [Call.isOpen, h.isParsed] at hopen
      | analyze =>
          cases h with
          | gathering h =>
              have hparsed : l.unit.isParsed = false := h.gathered.isParsed
              simp [Call.isOpen, hparsed] at hopen
          | analyzing hlast _ h =>
              have hanalyzed : l.unit.isAnalyzed = false := by
                simpa [Call.isOpen, h.isParsed] using hopen
              obtain rfl := h.isAnalyzed.symm.trans hanalyzed
              obtain ⟨builds', hreached, hle⟩ := (leaves_analyze hlast h).state
              refine ⟨[], builds', ?_, by simp, by simp, by simpa using hle⟩
              rw [List.append_nil]
              exact hreached

/-- What calls add. -/
theorem Reached.afterAll (h : Reached start parts builds l) (calls : List Call) :
    ∃ more builds', Reached start (parts ++ more) builds' (Call.afterAll calls l) ∧
      (∀ part ∈ more, part <+: start.nodes) ∧
      more.length = Call.attempts .parse calls l ∧
      builds' ≤ builds + Call.attempts .analyze calls l := by
  induction calls generalizing parts builds l with
  | nil => exact ⟨[], builds, by simpa [Call.afterAll] using h, by simp, rfl, Nat.le_refl _⟩
  | cons call calls ih =>
      obtain ⟨first, builds', hreached, hfirst, hlength, hbuilds⟩ := h.after call
      obtain ⟨more, builds'', hreached', hmore, hlength', hbuilds'⟩ := ih hreached
      refine ⟨first ++ more, builds'', ?_, ?_, ?_, ?_⟩
      · rw [← List.append_assoc]
        exact hreached'
      · intro part hpart
        exact (List.mem_append.1 hpart).elim (hfirst part) (hmore part)
      · rw [List.length_append, hlength, hlength', Call.attempts]
      · rw [Call.attempts]
        omega

theorem reached_new (target : String) (sources : List SourceUnit) (policy : FailurePolicy) :
    Reached (.new target sources policy) [] 0 (.new target sources policy) := by
  refine .gathering ⟨?_, rfl, rfl⟩
  exact
    { listed := List.nodup_nil, free := rfl, defined := nofun, placed := nofun
      contracts := by simp [registry, new, Compilation.new, bareEntries, contractNodes]
      functions := rfl, isParsed := rfl, isAnalyzed := rfl, held := nofun }

theorem Reached.labels (h : Reached start parts builds l) :
    (l.unit.contracts.map Contract.label).toList =
      (contractNodes parts.flatten).map Node.contractLabel := by
  cases h with
  | gathering h => exact h.analyzing.labels
  | analyzing _ _ h => exact h.labels

theorem Reached.last (h : Reached start parts builds l) (hparsed : l.unit.isParsed = true) :
    parts.getLast? = some start.nodes := by
  cases h with
  | gathering h =>
      rw [show l.unit.isParsed = false from h.gathered.isParsed] at hparsed
      cases hparsed
  | analyzing hlast _ _ => exact hlast

theorem Reached.built (h : Reached start parts builds l) (hanalyzed : l.unit.isAnalyzed = true) :
    0 < builds := by
  cases h with
  | gathering h =>
      rw [show l.unit.isAnalyzed = false from h.gathered.isAnalyzed] at hanalyzed
      cases hanalyzed
  | analyzing _ hbuilt h => exact hbuilt (h.isAnalyzed.symm.trans hanalyzed)

/-- No call takes a flag back. -/
theorem Reached.isDone_after (h : Reached start parts builds l) {call : Call}
    (hdone : call.isDone l.unit = true) (next : Call) : call.isDone (next.after l).unit = true := by
  cases hopen : next.isOpen l.unit with
  | false =>
      rw [after_of_closed hopen]
      exact hdone
  | true =>
      have hparsed : l.unit.isParsed = true := by
        cases call with
        | parse => exact hdone
        | analyze => exact h.flags hdone
      -- What is open in a parsed compilation is the analysis.
      cases next with
      | parse => simp [Call.isOpen, hparsed] at hopen
      | analyze =>
          have hanalyzed : l.unit.isAnalyzed = false := by
            simpa [Call.isOpen, hparsed] using hopen
          cases call with
          | analyze => simp [Call.isDone, hanalyzed] at hdone
          | parse =>
              cases h with
              | gathering h => simp [show l.unit.isParsed = false from h.gathered.isParsed] at hparsed
              | analyzing _ _ h =>
                  obtain rfl := h.isAnalyzed.symm.trans hanalyzed
                  have leaves : Leaves analyze l fun t => t.unit.isParsed = true :=
                    (ends_analyze h).imp (fun _ _ ht => ht.isParsed) fun _ _ ht =>
                      ht.elim (·.isParsed) (·.isParsed)
                  exact leaves.state

/-- The account of the functions, also where nothing has been built. -/
theorem Reached.lists (h : Reached start parts builds l) :
    l.headers.Lists (fun id => (List.replicate builds (l.headers.seen id)).flatten)
      (List.replicate builds l.headers.free).flatten ∧
    l.headers.free.map some = (functionNodes parts.flatten).map (·.id?) := by
  cases h with
  | gathering h =>
      refine ⟨?_, h.gathered.free⟩
      have lists := h.analyzing.lists
      exact lists.congr _ (fun _ => rfl) rfl
  | analyzing _ _ h => exact ⟨h.lists, h.free⟩

/-- Whatever a caller calls, an analysed compilation is parsed, no flag is ever taken back, and a
call that is done changes nothing.  Every attempt to parse adds a contract for each definition of
an initial part of the source units, all of them if it succeeds.  The functions of a contract are
what the contract sees, once for each build of the headers, and the free functions are those of the
source units; an attempt to analyse makes one build at most. -/
theorem calls_accounted (target : String) (sources : List SourceUnit) (policy : FailurePolicy)
    (calls : List Call) :
    let start := Loader.new target sources policy
    let l := Call.afterAll calls start
    (l.unit.isAnalyzed = true → l.unit.isParsed = true) ∧
    (∀ call next : Call, call.isDone l.unit = true → call.isDone (next.after l).unit = true) ∧
    (∀ call : Call, call.isDone l.unit = true → call.after l = l) ∧
    ∃ (parts : List (List Node)) (builds : Nat),
      parts.length = Call.attempts .parse calls start ∧
      (∀ part ∈ parts, part <+: start.nodes) ∧
      (l.unit.isParsed = true → parts.getLast? = some start.nodes) ∧
      (l.unit.contracts.map Contract.label).toList =
        (contractNodes parts.flatten).map Node.contractLabel ∧
      builds ≤ Call.attempts .analyze calls start ∧
      (l.unit.isAnalyzed = true → 0 < builds) ∧
      (∀ id c, l.unit.contract? id = some c →
        c.functions.map l.unit.definition? =
          (List.replicate builds (l.headers.seen id)).flatten.map some) ∧
      l.unit.freeFunctions.map (·.astId) =
        (List.replicate builds ((functionNodes parts.flatten).map (·.id?))).flatten := by
  intro start l
  obtain ⟨parts, builds, hreached, hparts, hlength, hbuilds⟩ :=
    (reached_new target sources policy).afterAll calls
  rw [List.nil_append] at hreached
  have hreached : Reached start parts builds l := hreached
  have hdone (call : Call) (h : call.isDone l.unit = true) : call.after l = l := by
    refine after_of_closed ?_
    cases call with
    | parse => simpa [Call.isOpen, Call.isDone] using h
    | analyze =>
        have hanalyzed : l.unit.isAnalyzed = true := h
        simp [Call.isOpen, hanalyzed]
  refine ⟨hreached.flags, fun _ next h => hreached.isDone_after h next, hdone, parts, builds,
    hlength, hparts, hreached.last, hreached.labels, by simpa using hbuilds, hreached.built,
    hreached.lists.1.contract, ?_⟩
  rw [show l.unit.freeFunctions.map (·.astId) = _ from hreached.lists.1.free, List.map_flatten,
    List.map_replicate, hreached.lists.2]

end Loader

/-! ## Retries that duplicate -/

/-- A source unit with some nodes. -/
def sourceOf (nodes : List Json) : SourceUnit :=
  ⟨"c.sol", none, .object [("nodeType", .string "SourceUnit"), ("nodes", .array nodes)]⟩

/-- The contract `C` with some members. -/
def contractOf (members : List Json) : Json :=
  .object [("id", .ofInt 10), ("name", .string "C"), ("nodeType", .string "ContractDefinition"),
    ("nodes", .array members)]

/-- A contract, and a free function without an id. -/
def unnumberedFunction : SourceUnit :=
  sourceOf [contractOf [],
    .object [("name", .string "g"), ("nodeType", .string "FunctionDefinition")]]

/-- A function with a statement of an unknown kind. -/
def unknownStatement : SourceUnit :=
  sourceOf [contractOf [
    .object [("body", .object [("nodeType", .string "Block"),
        ("statements", .array [.object [("nodeType", .string "Weird")]])]),
      ("id", .ofInt 11), ("name", .string "f"), ("nodeType", .string "FunctionDefinition")]]]

/-- A second attempt to parse gives a second contract of the same definition, and a second attempt
to analyse a second function of the same definition in the same contract. -/
theorem retries_duplicate :
    (let l := Call.afterAll [.parse, .parse] (.new "" [unnumberedFunction] .stopOnFirst)
     l.unit.contracts.toList.map Contract.label) = [("C", some 10), ("C", some 10)] ∧
    (let l := Call.afterAll [.parse, .analyze, .analyze] (.new "" [unknownStatement] .stopOnFirst)
     l.unit.contracts.toList.map fun c => (c.astId, c.functions.map l.unit.definition?)) =
        [(some 10, [some 11, some 11])] := by
  decide +kernel

end Solidity

end ContractCalls
