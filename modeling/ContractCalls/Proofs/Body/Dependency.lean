/-
# The dependencies of a body are a transitive closure

An operation or a phi makes what it writes depend on what it reads: `Direct`
says so of a body, without the flow that the analysis collects.  The search
for all an operand depends on keeps a stack and the operands seen.  Each edge
is put on the stack at most once, when its source is seen first, so stack and
edges of unseen operands together bound the steps that are left.

    the flow of a body has its direct dependencies      (`flow_spec`)
    the search finds their transitive closure           (`Flow.mem_reach`)
    the result lists it by name                         (`collected_dependencies`)
-/
import ContractCalls.Body.Dependency
import ContractCalls.Proofs.Operand.Chain
import ContractCalls.Proofs.Ordered

namespace ContractCalls

open Relation

instance lawfulEqCmp_operandIndex : Std.LawfulEqCmp (Ordered.comparing OperandId.index) where
  compare_self := Ordered.comparing_eq.mpr rfl
  eq_of_compare {a b} h := by
    cases a
    cases b
    exact congrArg OperandId.mk (Ordered.comparing_eq.mp h)

/-! ## The search -/

namespace Body.Flow

variable {flow : Flow}

/-- One operand directly depends on another. -/
def Edge (flow : Flow) (id source : OperandId) : Prop := (id, source) ∈ flow.edges

theorem mem_next {id source : OperandId} : source ∈ flow.next id ↔ flow.Edge id source := by
  simp only [next, Edge, List.mem_map, List.mem_filter, beq_iff_eq]
  constructor
  · rintro ⟨⟨_, _⟩, ⟨hmem, rfl⟩, rfl⟩
    exact hmem
  · exact fun hmem => ⟨(id, source), ⟨hmem, rfl⟩, rfl⟩

/-- The edges of operands that are not seen yet. -/
def unseen (flow : Flow) (seen : List OperandId) : List (OperandId × OperandId) :=
  flow.edges.filter fun edge => !seen.contains edge.1

/-- Seeing an operand takes its edges out of the unseen ones. -/
theorem length_unseen_cons (flow : Flow) {seen : List OperandId} {id : OperandId}
    (hid : id ∉ seen) :
    (flow.next id).length + (flow.unseen (id :: seen)).length = (flow.unseen seen).length := by
  have hown : flow.edges.filter (·.1 == id) = (flow.unseen seen).filter (·.1 == id) := by
    rw [unseen, List.filter_filter]
    refine List.filter_congr fun edge _ => ?_
    by_cases he : edge.1 = id
    · simp [he, hid]
    · simp [he]
  have hothers : flow.unseen (id :: seen) = (flow.unseen seen).filter fun edge => !(edge.1 == id) := by
    rw [unseen, unseen, List.filter_filter]
    exact List.filter_congr fun edge _ => by rw [List.contains_cons, Bool.not_or]
  rw [next, List.length_map, hown, hothers]
  exact (List.length_eq_length_filter_add _).symm

/-- What was seen stays, and what is on the stack is found. -/
theorem subset_explore (fuel : Nat) :
    ∀ {seen stack : List OperandId}, stack.length + (flow.unseen seen).length ≤ fuel →
      ∀ c, c ∈ seen ∨ c ∈ stack → c ∈ flow.explore fuel seen stack := by
  induction fuel with
  | zero =>
      intro seen stack hfuel c hc
      obtain rfl : stack = [] := List.length_eq_zero_iff.mp (by omega)
      exact hc.resolve_right List.not_mem_nil
  | succ fuel ih =>
      intro seen stack hfuel c hc
      cases stack with
      | nil => exact hc.resolve_right List.not_mem_nil
      | cons id stack =>
          rw [List.length_cons] at hfuel
          rw [explore]
          split
          · next hid =>
              have hid : id ∈ seen := by simpa using hid
              refine ih (by omega) c ?_
              rcases hc with hc | hc
              · exact Or.inl hc
              · rcases List.mem_cons.mp hc with rfl | hc
                · exact Or.inl hid
                · exact Or.inr hc
          · next hid =>
              have hlength := length_unseen_cons flow (show id ∉ seen by simpa using hid)
              refine ih (by rw [List.length_append]; omega) c ?_
              rcases hc with hc | hc
              · exact Or.inl (List.mem_cons_of_mem _ hc)
              · rcases List.mem_cons.mp hc with rfl | hc
                · exact Or.inl List.mem_cons_self
                · exact Or.inr (List.mem_append_right _ hc)

/-- What is found was seen or depends on nothing but the stack. -/
theorem mem_explore (fuel : Nat) :
    ∀ {seen stack : List OperandId} {c : OperandId}, c ∈ flow.explore fuel seen stack →
      c ∈ seen ∨ ∃ s ∈ stack, ReflTransGen flow.Edge s c := by
  induction fuel with
  | zero => exact fun hc => Or.inl hc
  | succ fuel ih =>
      intro seen stack c hc
      cases stack with
      | nil => exact Or.inl hc
      | cons id stack =>
          rw [explore] at hc
          split at hc
          · rcases ih hc with hc | ⟨s, hs, hsc⟩
            · exact Or.inl hc
            · exact Or.inr ⟨s, List.mem_cons_of_mem _ hs, hsc⟩
          · rcases ih hc with hc | ⟨s, hs, hsc⟩
            · rcases List.mem_cons.mp hc with rfl | hc
              · exact Or.inr ⟨c, List.mem_cons_self, .refl⟩
              · exact Or.inl hc
            · rcases List.mem_append.mp hs with hs | hs
              · exact Or.inr ⟨id, List.mem_cons_self, hsc.head (mem_next.mp hs)⟩
              · exact Or.inr ⟨s, List.mem_cons_of_mem _ hs, hsc⟩

/-- What the operands found depend on is found, if it is so for those seen up to the stack. -/
theorem explore_closed (fuel : Nat) :
    ∀ {seen stack : List OperandId}, stack.length + (flow.unseen seen).length ≤ fuel →
      (∀ a ∈ seen, ∀ c, flow.Edge a c → c ∈ seen ∨ c ∈ stack) →
      ∀ a ∈ flow.explore fuel seen stack, ∀ c, flow.Edge a c →
        c ∈ flow.explore fuel seen stack := by
  induction fuel with
  | zero =>
      intro seen stack hfuel hclosed a ha c hac
      exact subset_explore 0 hfuel c (hclosed a ha c hac)
  | succ fuel ih =>
      intro seen stack hfuel hclosed
      cases stack with
      | nil => exact fun a ha c hac => (hclosed a ha c hac).resolve_right List.not_mem_nil
      | cons id stack =>
          rw [List.length_cons] at hfuel
          rw [explore]
          split
          · next hid =>
              have hid : id ∈ seen := by simpa using hid
              refine ih (by omega) fun a ha c hac => ?_
              rcases hclosed a ha c hac with hc | hc
              · exact Or.inl hc
              · rcases List.mem_cons.mp hc with rfl | hc
                · exact Or.inl hid
                · exact Or.inr hc
          · next hid =>
              have hlength := length_unseen_cons flow (show id ∉ seen by simpa using hid)
              refine ih (by rw [List.length_append]; omega) fun a ha c hac => ?_
              rcases List.mem_cons.mp ha with rfl | ha
              · exact Or.inr (List.mem_append_left _ (mem_next.mpr hac))
              · rcases hclosed a ha c hac with hc | hc
                · exact Or.inl (List.mem_cons_of_mem _ hc)
                · rcases List.mem_cons.mp hc with rfl | hc
                  · exact Or.inl List.mem_cons_self
                  · exact Or.inr (List.mem_append_right _ hc)

/-- The search finds exactly what an operand depends on in one or more steps. -/
theorem mem_reach {id c : OperandId} : c ∈ flow.reach id ↔ TransGen flow.Edge id c := by
  have hfuel : (flow.next id).length + (flow.unseen []).length ≤ 2 * flow.edges.length + 1 := by
    have hnext : (flow.next id).length ≤ flow.edges.length := by
      rw [next, List.length_map]
      exact List.length_filter_le _ _
    have hunseen : (flow.unseen []).length ≤ flow.edges.length := List.length_filter_le _ _
    omega
  constructor
  · intro hc
    obtain ⟨s, hs, hsc⟩ := (mem_explore _ hc).resolve_left List.not_mem_nil
    exact TransGen.head'_iff.mpr ⟨s, mem_next.mp hs, hsc⟩
  · intro hc
    obtain ⟨s, hs, hsc⟩ := TransGen.head'_iff.mp hc
    induction hsc with
    | refl => exact subset_explore _ hfuel s (Or.inr (mem_next.mpr hs))
    | tail _ hac ih =>
        exact explore_closed _ hfuel (by simp) _ (ih (TransGen.head'_iff.mpr ⟨s, hs, ‹_›⟩)) _ hac

end Body.Flow

/-! ## What a body makes depend on what -/

/-- The operation writes the operand, itself or through a bound reference, unless it is an access
that only binds the reference. -/
inductive Operation.Feeds (a : Arena) (op : Operation) : OperandId → Prop
  | lvalue {l : OperandId} : op.lvalue? = some l → Feeds a op l
  | through {l target t : OperandId} : op.lvalue? = some l → a.PointsTo l target →
      Body.bindsReference op = false → a.resolve l = .ok t → Feeds a op t

namespace Operation

variable {a : Arena} {op : Operation} {l : OperandId} {o : Operand}

/-- Through a reference, an operation writes the reference and what it resolves to, which for one
that is not bound is the reference. -/
theorem feeds_iff_of_resolve {t : OperandId} (hl : op.lvalue? = some l) (ho : a.get? l = some o)
    (hbinds : Body.bindsReference op = false) (ht : a.resolve l = .ok t) (w : OperandId) :
    op.Feeds a w ↔ w = l ∨ w = t := by
  constructor
  · rintro (hw | ⟨hw, -, -, hr⟩)
    · exact Or.inl (Option.some.inj (hw.symm.trans hl))
    · obtain rfl := Option.some.inj (hw.symm.trans hl)
      exact Or.inr (Except.ok.inj (hr.symm.trans ht))
  · rintro (rfl | rfl)
    · exact .lvalue hl
    · by_cases hbound : ∃ target, a.PointsTo l target
      · obtain ⟨target, hbound⟩ := hbound
        exact .through hl hbound hbinds ht
      · have hself : a.resolve l = .ok l :=
          Arena.follow_eq_self (Arena.known_of_get? ho) (not_exists.mp hbound)
        rw [← Except.ok.inj (hself.symm.trans ht)]
        exact .lvalue hl

/-- Where it writes no reference, or only binds it, an operation writes nothing else. -/
theorem feeds_iff_of_own (hl : op.lvalue? = some l) (ho : a.get? l = some o)
    (hown : ¬ (o.isReference && !Body.bindsReference op) = true) (w : OperandId) :
    op.Feeds a w ↔ w = l := by
  constructor
  · rintro (hw | ⟨hw, ⟨p, index, hp, hk⟩, hbinds, -⟩)
    · exact Option.some.inj (hw.symm.trans hl)
    · obtain rfl := Option.some.inj (hw.symm.trans hl)
      obtain rfl := Option.some.inj (ho.symm.trans hp)
      simp [Operand.isReference, hk, hbinds] at hown
  · rintro rfl
    exact .lvalue hl

end Operation

namespace Body

/-- The node writes the operand from some reads. -/
def NodeFeeds (a : Arena) (node : Node) (target : OperandId) (reads : List OperandId) : Prop :=
  (∃ φ ∈ node.phis, φ.lvalue = target ∧ φ.incoming.map Prod.snd = reads) ∨
    ∃ op ∈ node.operations, op.Feeds a target ∧ op.reads = reads

/-- Some operation or phi of the body writes the operand from some reads. -/
def Feeds (b : Body) (target : OperandId) (reads : List OperandId) : Prop :=
  ∃ node ∈ b.nodes.toList, NodeFeeds b.arena node target reads

/-- The body writes one operand from another. -/
def Direct (b : Body) (target source : OperandId) : Prop :=
  ∃ reads, b.Feeds target reads ∧ source ∈ reads

namespace Flow

/-- The flow holds what the relation says is written, and from what. -/
structure Records (flow : Flow) (feeds : OperandId → List OperandId → Prop) : Prop where
  written : ∀ {w}, w ∈ flow.written ↔ ∃ reads, feeds w reads
  edge : ∀ {w c}, flow.Edge w c ↔ ∃ reads, feeds w reads ∧ c ∈ reads

theorem Records.congr {flow : Flow} {feeds feeds' : OperandId → List OperandId → Prop}
    (h : flow.Records feeds) (heq : ∀ w reads, feeds w reads ↔ feeds' w reads) :
    flow.Records feeds' := by
  have he : feeds = feeds' := funext fun w => funext fun reads => propext (heq w reads)
  exact he ▸ h

/-- Recording one more write. -/
theorem Records.write {flow : Flow} {feeds : OperandId → List OperandId → Prop}
    (h : flow.Records feeds) (target : OperandId) (reads : List OperandId) :
    (flow.write target reads).Records fun w rs => feeds w rs ∨ w = target ∧ rs = reads where
  written {w} := by
    simp only [Flow.write, List.mem_append, h.written, List.mem_singleton]
    constructor
    · rintro (⟨rs, hrs⟩ | rfl)
      · exact ⟨rs, Or.inl hrs⟩
      · exact ⟨reads, Or.inr ⟨rfl, rfl⟩⟩
    · rintro ⟨rs, hrs | ⟨rfl, -⟩⟩
      · exact Or.inl ⟨rs, hrs⟩
      · exact Or.inr rfl
  edge {w c} := by
    have hold : (w, c) ∈ flow.edges ↔ _ := h.edge
    simp only [Edge, Flow.write, List.mem_append, hold, List.mem_map, Prod.mk.injEq]
    constructor
    · rintro (⟨rs, hrs, hc⟩ | ⟨_, hc, rfl, rfl⟩)
      · exact ⟨rs, Or.inl hrs, hc⟩
      · exact ⟨reads, Or.inr ⟨rfl, rfl⟩, hc⟩
    · rintro ⟨rs, hrs | ⟨rfl, rfl⟩, hc⟩
      · exact Or.inl ⟨rs, hrs, hc⟩
      · exact Or.inr ⟨c, hc, rfl, rfl⟩

/-- Steps over a list record what each of them records. -/
theorem Records.foldlM {α : Type} (step : Flow → α → Except ModelError Flow)
    (part : α → OperandId → List OperandId → Prop)
    (hstep : ∀ {flow flow' feeds x}, flow.Records feeds → step flow x = .ok flow' →
      flow'.Records fun w reads => feeds w reads ∨ part x w reads) :
    ∀ {xs : List α} {flow flow' : Flow} {feeds : OperandId → List OperandId → Prop},
      flow.Records feeds → xs.foldlM step flow = .ok flow' →
      flow'.Records fun w reads => feeds w reads ∨ ∃ x ∈ xs, part x w reads := by
  intro xs
  induction xs with
  | nil =>
      intro flow flow' feeds h hrun
      cases hrun
      exact h.congr (by simp)
  | cons x xs ih =>
      intro flow flow' feeds h hrun
      rw [List.foldlM_cons] at hrun
      cases hx : step flow x with
      | error e =>
          rw [hx] at hrun
          cases hrun
      | ok flow₁ =>
          rw [hx] at hrun
          refine (ih (hstep h hx) hrun).congr fun w reads => ?_
          simp only [List.mem_cons, exists_eq_or_imp, or_assoc]

theorem records_phis {flow : Flow} {feeds : OperandId → List OperandId → Prop}
    (h : flow.Records feeds) (phis : List Phi) :
    (phis.foldl (fun flow φ => flow.write φ.lvalue (φ.incoming.map (·.2))) flow).Records
      fun w reads => feeds w reads ∨
        ∃ φ ∈ phis, φ.lvalue = w ∧ φ.incoming.map Prod.snd = reads := by
  induction phis generalizing flow feeds with
  | nil => exact h.congr (by simp)
  | cons φ phis ih =>
      refine (ih (h.write φ.lvalue _)).congr fun w reads => ?_
      simp only [List.mem_cons, exists_eq_or_imp, or_assoc, eq_comm (a := w), eq_comm (a := reads)]

theorem records_operation {a : Arena} {flow flow' : Flow}
    {feeds : OperandId → List OperandId → Prop} {op : Operation} (h : flow.Records feeds)
    (hop : flowOfOperation a flow op = .ok flow') :
    flow'.Records fun w reads => feeds w reads ∨ op.Feeds a w ∧ op.reads = reads := by
  unfold flowOfOperation at hop
  cases hl : op.lvalue? with
  | none =>
      rw [hl] at hop
      cases hop
      refine h.congr fun w reads => (or_iff_left ?_).symm
      rintro ⟨hw | hw, -⟩ <;> simp_all
  | some l =>
      simp only [hl] at hop
      have hwrite := h.write l op.reads
      obtain ⟨o, ho, hop⟩ := bind_eq_ok hop
      have ho := Arena.get?_of_get ho
      split at hop
      · next hcond =>
          simp only [Bool.and_eq_true, Bool.not_eq_true'] at hcond
          obtain ⟨t, ht, hop⟩ := bind_eq_ok hop
          obtain rfl := Except.ok.inj hop
          have hfeeds := Operation.feeds_iff_of_resolve hl ho hcond.2 ht
          split
          · next htl =>
              refine hwrite.congr fun w reads => ?_
              rw [hfeeds, htl, or_self, eq_comm (a := reads)]
          · refine (hwrite.write t op.reads).congr fun w reads => ?_
            rw [hfeeds, eq_comm (a := reads), or_assoc, ← or_and_right]
      · next hcond =>
          obtain rfl := Except.ok.inj hop
          refine hwrite.congr fun w reads => ?_
          rw [Operation.feeds_iff_of_own hl ho hcond, eq_comm (a := reads)]

theorem records_node {a : Arena} {flow flow' : Flow} {feeds : OperandId → List OperandId → Prop}
    {node : Node} (h : flow.Records feeds) (hnode : flowOfNode a flow node = .ok flow') :
    flow'.Records fun w reads => feeds w reads ∨ NodeFeeds a node w reads := by
  refine (Records.foldlM (flowOfOperation a) (fun op w reads => op.Feeds a w ∧ op.reads = reads)
    records_operation (records_phis h node.phis) hnode).congr fun w reads => ?_
  rw [NodeFeeds, or_assoc]

end Flow

/-- The flow of a body holds its direct dependencies. -/
theorem flow_spec {b : Body} {flow : Flow} (h : b.flow = .ok flow) : flow.Records b.Feeds := by
  have hempty : Flow.Records ⟨[], []⟩ fun _ _ => False := ⟨by simp, by simp [Flow.Edge]⟩
  refine (Flow.Records.foldlM (flowOfNode b.arena) (NodeFeeds b.arena) Flow.records_node hempty
    h).congr fun w reads => ?_
  rw [false_or, Feeds]

/-- The reads of an operation are recorded, if what it writes is known and a reference that it
writes through leads somewhere. -/
def Recordable (a : Arena) (op : Operation) : Prop :=
  ∀ l, op.lvalue? = some l → ∃ o, a.get? l = some o ∧
    (o.isReference = true → bindsReference op = false → ∃ t, a.resolve l = .ok t)

theorem foldlM_total {α β : Type} {step : β → α → Except ModelError β} :
    ∀ {xs : List α} (y : β), (∀ y, ∀ x ∈ xs, ∃ y', step y x = .ok y') →
      ∃ y', xs.foldlM step y = .ok y' := by
  intro xs
  induction xs with
  | nil => exact fun y _ => ⟨y, rfl⟩
  | cons x xs ih =>
      intro y h
      obtain ⟨y₁, h₁⟩ := h y x List.mem_cons_self
      obtain ⟨y₂, h₂⟩ := ih y₁ fun y x hx => h y x (List.mem_cons_of_mem _ hx)
      exact ⟨y₂, by rw [List.foldlM_cons, h₁]; exact h₂⟩

theorem flowOfOperation_total {a : Arena} {op : Operation} (h : Recordable a op) (flow : Flow) :
    ∃ flow', flowOfOperation a flow op = .ok flow' := by
  unfold flowOfOperation
  cases hl : op.lvalue? with
  | none => exact ⟨flow, rfl⟩
  | some l =>
      obtain ⟨o, ho, hresolve⟩ := h l hl
      simp only [Arena.get_of_get? ho, bind, Except.bind, pure, Except.pure]
      split
      · next hcond =>
          simp only [Bool.and_eq_true, Bool.not_eq_true'] at hcond
          obtain ⟨t, ht⟩ := hresolve hcond.1 hcond.2
          rw [ht]
          exact ⟨_, rfl⟩
      · exact ⟨_, rfl⟩

theorem flow_total {b : Body}
    (h : ∀ node ∈ b.nodes.toList, ∀ op ∈ node.operations, Recordable b.arena op) :
    ∃ flow, b.flow = .ok flow :=
  foldlM_total _ fun _ node hnode =>
    foldlM_total _ fun flow op hop => flowOfOperation_total (h node hnode op hop) flow

/-! ## The result by name -/

end Body

namespace Table

variable {κ α : Type} [DecidableEq κ]

theorem mem_keys_iff (t : Table κ α) (key : κ) : key ∈ t.keys ↔ ∃ value, t.get? key = some value := by
  obtain ⟨entries⟩ := t
  unfold keys get?
  dsimp only
  induction entries with
  | nil => simp [find?]
  | cons entry rest ih =>
      obtain ⟨k, v⟩ := entry
      rw [List.map_cons, List.mem_cons, ih, find?]
      by_cases hk : k = key
      · simp [hk]
      · simp [hk, Ne.symm hk]

/-- Setting a value adds its key behind the others, unless it is there. -/
theorem keys_insert (t : Table κ α) (key : κ) (value : α) :
    (t.insert key value).keys = if key ∈ t.keys then t.keys else t.keys ++ [key] := by
  obtain ⟨entries⟩ := t
  unfold keys insert
  dsimp only
  induction entries with
  | nil => simp [put]
  | cons entry rest ih =>
      obtain ⟨k, v⟩ := entry
      by_cases hk : k = key
      · simp [put, hk]
      · simp only [put, hk, if_false, List.map_cons, ih, List.mem_cons, Ne.symm hk, false_or]
        split <;> rfl

theorem mem_keys_insert (t : Table κ α) (key other : κ) (value : α) :
    other ∈ (t.insert key value).keys ↔ other = key ∨ other ∈ t.keys := by
  rw [keys_insert]
  split
  · exact ⟨Or.inr, fun h => h.elim (fun he => he ▸ ‹key ∈ t.keys›) id⟩
  · rw [List.mem_append, List.mem_singleton, or_comm]

theorem nodup_keys_insert {t : Table κ α} (h : t.keys.Nodup) (key : κ) (value : α) :
    (t.insert key value).keys.Nodup := by
  rw [keys_insert]
  split
  · exact h
  · refine List.nodup_append.mpr ⟨h, List.pairwise_singleton _ _, ?_⟩
    rintro x hx y hy rfl
    exact ‹key ∉ t.keys› (List.mem_singleton.mp hy ▸ hx)

end Table

/-- The map lists the source in the set of the variable. -/
def DependencyMap.Has (deps : DependencyMap) (name source : String) : Prop :=
  ∃ set, deps.get? name = some set ∧ source ∈ set

namespace Body

variable {b : Body} {deps : DependencyMap} {name source : String}

theorem mem_sourcesOf {flow : Flow} {id : OperandId} :
    source ∈ b.sourcesOf flow name id ↔
      source ≠ name ∧ ∃ e, TransGen flow.Edge id e ∧ b.variableName? e = some source := by
  simp only [sourcesOf, List.mem_filter, List.mem_filterMap, Flow.mem_reach, bne_iff_ne]
  exact and_comm

/-- The sets with those of one more operand. -/
def collect (b : Body) (flow : Flow) (deps : DependencyMap) (id : OperandId) : DependencyMap :=
  match b.variableName? id with
  | some name => addSources deps name (b.sourcesOf flow name id)
  | none => deps

/-- The map holds what is found from some operands: a set for every name of one of them, in which
names come in order, and in it all that is found from the operands of the name. -/
structure Collected (b : Body) (flow : Flow) (ids : List OperandId) (deps : DependencyMap) :
    Prop where
  nodup : deps.keys.Nodup
  keys : ∀ {name}, name ∈ deps.keys ↔ ∃ id ∈ ids, b.variableName? id = some name
  ascending : ∀ {name set}, deps.get? name = some set → Ordered.Ascending compare set
  members : ∀ {name set source}, deps.get? name = some set →
    (source ∈ set ↔ ∃ id ∈ ids, b.variableName? id = some name ∧ source ∈ b.sourcesOf flow name id)

theorem collected_nil (b : Body) (flow : Flow) : Collected b flow [] .empty where
  nodup := List.nodup_nil
  keys := by simp [Table.keys, Table.empty]
  ascending h := by simp at h
  members h := by simp at h

/-- A name that no operand has yet has no set, which is as good as an empty one. -/
theorem Collected.mem_getD {flow : Flow} {ids : List OperandId} (h : Collected b flow ids deps) :
    source ∈ (deps.get? name).getD [] ↔
      ∃ id ∈ ids, b.variableName? id = some name ∧ source ∈ b.sourcesOf flow name id := by
  cases hold : deps.get? name with
  | some set => exact h.members hold
  | none =>
      have hnone : ¬ ∃ id ∈ ids, b.variableName? id = some name := by
        rw [← h.keys, Table.mem_keys_iff, hold]
        simp
      refine iff_of_false (by simp) ?_
      rintro ⟨id, hid, hname, -⟩
      exact hnone ⟨id, hid, hname⟩

/-- One more operand, of which the map may hold the name already. -/
theorem Collected.snoc {flow : Flow} {ids : List OperandId} (h : Collected b flow ids deps)
    (id : OperandId) : Collected b flow (ids ++ [id]) (b.collect flow deps id) := by
  unfold collect
  cases hid : b.variableName? id with
  | none =>
      exact
        { nodup := h.nodup
          keys := by simp [h.keys, or_and_right, exists_or, hid]
          ascending := h.ascending
          members := fun hset => by simp [h.members hset, or_and_right, exists_or, hid] }
  | some n =>
      refine ⟨Table.nodup_keys_insert h.nodup _ _, fun {name} => ?_, fun {name set} hset => ?_,
        fun {name set source} hset => ?_⟩
      · simp only [addSources, Table.mem_keys_insert, h.keys, List.mem_append, List.mem_singleton,
          or_and_right, exists_or, exists_eq_left, hid, Option.some.injEq, eq_comm (a := n)]
        exact or_comm
      · simp only [addSources, Table.get?_insert] at hset
        split at hset
        · obtain rfl := Option.some.inj hset
          refine Ordered.Ascending.foldl_insert ?_
          cases hold : deps.get? n with
          | none => exact List.Pairwise.nil
          | some old => exact h.ascending hold
        · exact h.ascending hset
      · simp only [addSources, Table.get?_insert] at hset
        simp only [List.mem_append, List.mem_singleton, or_and_right, exists_or, exists_eq_left,
          hid, Option.some.injEq]
        split at hset
        · next hn =>
            obtain rfl := Option.some.inj hset
            rw [Ordered.mem_foldl_insert, hn, h.mem_getD]
            simp
        · next hn => simp [h.members hset, hn]

theorem Collected.foldl {flow : Flow} {rest : List OperandId} :
    ∀ {ids : List OperandId} {deps : DependencyMap}, Collected b flow ids deps →
      Collected b flow (ids ++ rest) (rest.foldl (b.collect flow) deps) := by
  induction rest with
  | nil =>
      intro ids deps h
      rwa [List.append_nil]
  | cons id rest ih =>
      intro ids deps h
      have := ih (h.snoc id)
      rwa [List.append_assoc] at this

theorem dependencies_total {flow : Flow} (h : b.flow = .ok flow) :
    ∃ deps, b.dependencies = .ok deps := by
  rw [dependencies, h]
  exact ⟨_, rfl⟩

/-- The result is collected from all that is written. -/
theorem collected_dependencies (h : b.dependencies = .ok deps) :
    ∃ flow ids, flow.Records b.Feeds ∧ (∀ id, id ∈ ids ↔ ∃ reads, b.Feeds id reads) ∧
      Collected b flow ids deps := by
  obtain ⟨flow, hflow, h⟩ := bind_eq_ok h
  cases h
  have hrec := flow_spec hflow
  refine ⟨flow, _, hrec, fun id => ?_, (collected_nil b flow).foldl⟩
  simp only [Ordered.ofList, List.nil_append, Ordered.mem_foldl_insert, List.not_mem_nil, false_or,
    hrec.written]

/-- The sources of a name are what operands of the name lead to in one or more direct steps. -/
theorem mem_collected {flow : Flow} {ids : List OperandId} (hrec : flow.Records b.Feeds)
    (hids : ∀ id, id ∈ ids ↔ ∃ reads, b.Feeds id reads) :
    (∃ id ∈ ids, b.variableName? id = some name ∧ source ∈ b.sourcesOf flow name id) ↔
      source ≠ name ∧ ∃ w e, b.variableName? w = some name ∧ TransGen b.Direct w e ∧
        b.variableName? e = some source := by
  have hedge : flow.Edge = b.Direct := funext fun w => funext fun c => propext hrec.edge
  simp only [mem_sourcesOf, hedge]
  constructor
  · rintro ⟨w, -, hw, hne, e, hwe, he⟩
    exact ⟨hne, w, e, hw, hwe, he⟩
  · rintro ⟨hne, w, e, hw, hwe, he⟩
    obtain ⟨c, ⟨reads, hreads, -⟩, -⟩ := TransGen.head'_iff.mp hwe
    exact ⟨w, (hids w).mpr ⟨reads, hreads⟩, hw, hne, e, hwe, he⟩

/-- A variable depends on another if an operand that renames the first leads, in one or more
direct steps, to one that renames the other. -/
theorem dependencies_spec (h : b.dependencies = .ok deps) :
    deps.Has name source ↔ source ≠ name ∧ ∃ w e, b.variableName? w = some name ∧
      TransGen b.Direct w e ∧ b.variableName? e = some source := by
  obtain ⟨flow, ids, hrec, hids, hc⟩ := collected_dependencies h
  rw [← mem_collected hrec hids]
  constructor
  · rintro ⟨set, hset, hsource⟩
    exact (hc.members hset).mp hsource
  · rintro ⟨id, hid, hname, hsource⟩
    obtain ⟨set, hset⟩ := (Table.mem_keys_iff deps name).mp (hc.keys.mpr ⟨id, hid, hname⟩)
    exact ⟨set, hset, (hc.members hset).mpr ⟨id, hid, hname, hsource⟩⟩

/-- The map is the transitive closure of direct dependencies, by name: its keys are the names of
what is written, each once, and the set of a name lists in order all other names to which some
operand of the name leads in one or more direct steps. -/
structure IsClosure (b : Body) (deps : DependencyMap) : Prop where
  nodup : deps.keys.Nodup
  keys : ∀ name, name ∈ deps.keys ↔ ∃ w reads, b.Feeds w reads ∧ b.variableName? w = some name
  ascending : ∀ {name set}, deps.get? name = some set → Ordered.Ascending compare set
  sources : ∀ {name set}, deps.get? name = some set → ∀ source, source ∈ set ↔
    source ≠ name ∧ ∃ w e, b.variableName? w = some name ∧ TransGen b.Direct w e ∧
      b.variableName? e = some source

/-- Whenever the analysis succeeds, it computes the closure. -/
theorem dependencies_closure (h : b.dependencies = .ok deps) : b.IsClosure deps := by
  obtain ⟨flow, ids, hrec, hids, hc⟩ := collected_dependencies h
  refine ⟨hc.nodup, fun name => ?_, hc.ascending, fun hset source => ?_⟩
  · simp only [hc.keys, hids, exists_and_right]
  · rw [hc.members hset, mem_collected hrec hids]

/-- Two variables of which each gets what the other holds, one of them through a reference. -/
def exchanged : Body where
  arena :=
    let number : Ty := .elementary "uint256"
    { slots := #[⟨⟨.stateVar "s", number, none⟩, none, none, 0⟩,
        ⟨⟨.localVar "x", number, none⟩, none, none, 0⟩,
        ⟨⟨.temporary 0, number, none⟩, none, none, 0⟩,
        ⟨⟨.reference 0 (some ⟨0⟩), number, none⟩, none, none, 0⟩]
      references := 1 }
  nodes := #[⟨⟨0⟩, [], [.assignment ⟨2⟩ ⟨1⟩ (.elementary "uint256"),
      .call (.positional [⟨0⟩]) (some ⟨3⟩) (.intrinsic .index),
      .assignment ⟨3⟩ ⟨2⟩ (.elementary "uint256"),
      .assignment ⟨1⟩ ⟨0⟩ (.elementary "uint256")], .ret [], none⟩]
  entry := some ⟨0⟩
  parameters := [⟨1⟩]
  returns := []
  isSsa := false

/-- Each depends on the other, and the write through the reference counts for its target. -/
theorem exchanged_closure : ∃ deps, exchanged.dependencies = .ok deps ∧
    deps.entries = [("s", ["x"]), ("x", ["s"])] ∧ exchanged.IsClosure deps := by
  have hrun : exchanged.dependencies.toOption.map (·.entries) =
      some [("s", ["x"]), ("x", ["s"])] := by
    decide +kernel
  cases hdeps : exchanged.dependencies with
  | error e =>
      rw [hdeps] at hrun
      cases hrun
  | ok deps =>
      rw [hdeps] at hrun
      exact ⟨deps, rfl, Option.some.inj hrun, dependencies_closure hdeps⟩

end Body

end ContractCalls
