/-
# The graph of a report

A reported function shows itself as a node and gives nodes to what it calls, if
they have none.  So a node has the look of the function where that is reported,
and of a call else; in which order functions and calls are listed does not show,
as long as ids tell functions apart (`ofReport_shows`).
-/
import ContractCalls.Proofs.Ordered.Write
import ContractCalls.Proofs.Output.Quoting
import Mathlib.Data.List.Forall2
import Mathlib.Data.List.Nodup

namespace ContractCalls

/-! ## Reordered reports -/

/-- The lists correspond element by element, in some order. -/
def Reordered {α β : Type} (r : α → β → Prop) (xs : List α) (ys : List β) : Prop :=
  ∃ zs, xs.Perm zs ∧ List.Forall₂ r zs ys

namespace Reordered

variable {α β γ δ : Type} {r : α → β → Prop} {s : γ → δ → Prop} {xs : List α} {ys : List β}

theorem nil : Reordered r [] [] := ⟨[], .nil, .nil⟩

theorem append {xs' : List α} {ys' : List β} (h : Reordered r xs ys) (h' : Reordered r xs' ys') :
    Reordered r (xs ++ xs') (ys ++ ys') := by
  obtain ⟨zs, hperm, hall⟩ := h
  obtain ⟨zs', hperm', hall'⟩ := h'
  exact ⟨zs ++ zs', hperm.append hperm', List.rel_append hall hall'⟩

theorem map (h : Reordered r xs ys) {f : α → γ} {g : β → δ}
    (hfg : ∀ {x y}, r x y → s (f x) (g y)) : Reordered s (xs.map f) (ys.map g) := by
  obtain ⟨zs, hperm, hall⟩ := h
  exact ⟨zs.map f, hperm.map f, List.rel_map (fun _ _ hxy => hfg hxy) hall⟩

theorem flatMap (h : Reordered r xs ys) {f : α → List γ} {g : β → List δ}
    (hfg : ∀ {x y}, r x y → Reordered s (f x) (g y)) :
    Reordered s (xs.flatMap f) (ys.flatMap g) := by
  obtain ⟨zs, hperm, hall⟩ := h
  have hzs : Reordered s (zs.flatMap f) (ys.flatMap g) := by
    induction hall generalizing xs with
    | nil => exact nil
    | cons hxy _ ih => exact (hfg hxy).append (ih (List.Perm.refl _))
  obtain ⟨ws, hws, hall⟩ := hzs
  exact ⟨ws, (hperm.flatMap_right f).trans hws, hall⟩

theorem of_perm {xs ys : List α} (h : xs.Perm ys) : Reordered Eq xs ys :=
  ⟨ys, h, List.forall₂_eq_eq_eq ▸ rfl⟩

theorem perm {xs ys : List α} (h : Reordered Eq xs ys) : xs.Perm ys := by
  obtain ⟨zs, hperm, hall⟩ := h
  rw [List.forall₂_eq_eq_eq] at hall
  exact hall ▸ hperm

end Reordered

/-- The second function is the first one with its calls in another order. -/
def FunctionNode.Reorders (f g : FunctionNode) : Prop :=
  ∃ calls, f.calls.Perm calls ∧ g = { f with calls }

/-- The second report is the first one with visibilities, functions and calls in another order. -/
def ContractReport.Reorders (r r' : ContractReport) : Prop :=
  r.name = r'.name ∧
    Reordered (fun group group' => group.1 = group'.1 ∧
      Reordered FunctionNode.Reorders group.2 group'.2) r.functions r'.functions

/-- The second report is the first one with contracts, functions and calls in another order. -/
def CompilationReport.Reorders (r r' : CompilationReport) : Prop :=
  r.target = r'.target ∧ Reordered ContractReport.Reorders r.contracts r'.contracts

namespace Dot

/-! ## What a graph should have -/

/-- The reported functions with their visibility. -/
def functions (report : CompilationReport) : List (Visibility × FunctionNode) :=
  report.contracts.flatMap fun contract =>
    contract.functions.flatMap fun (visibility, fs) => fs.map (visibility, ·)

/-- The calls that are reported, with the function that makes them. -/
def calls (report : CompilationReport) : List (String × CallEntry) :=
  (functions report).flatMap fun (_, f) => f.calls.map (f.id, ·)

/-- The ids of functions, reported or called, with how they are displayed. -/
def functionNames (report : CompilationReport) : List (String × String) :=
  (functions report).map (fun (_, f) => (f.id, f.display)) ++
    (calls report).filterMap fun (_, call) => call.id?.map (·, call.label)

/-- Ids tell functions apart, from one another and from other targets. -/
structure Consistent (report : CompilationReport) : Prop where
  display : ∀ name ∈ functionNames report, ∀ name' ∈ functionNames report,
    name.1 = name'.1 → name.2 = name'.2
  reportedOnce : ((functions report).map fun (_, f) => f.id).Nodup
  apart : ∀ name ∈ functionNames report, ∀ entry ∈ calls report, entry.2.kind ≠ .function →
    name.1 ≠ entry.2.kind.render ++ "::" ++ entry.2.label

/-- The nodes: reported functions with their visibility in a second line, other functions that are
called, and other targets. -/
inductive IsNode (report : CompilationReport) : (id : String) → Style → Prop
  | reported {visibility : Visibility} {f : FunctionNode} : (visibility, f) ∈ functions report →
      IsNode report f.id ⟨f.display ++ "\\n[" ++ visibility.render ++ "]", "box"⟩
  | called {caller id name display : String} {edge : EdgeKind} {visibility : Option Visibility}
      {context declaredIn : Option String} :
      (caller, .function edge id name display visibility context declaredIn) ∈ calls report →
      id ∉ (functions report).map (fun (_, f) => f.id) → IsNode report id ⟨display, "box"⟩
  | other {caller : String} {call : CallEntry} : (caller, call) ∈ calls report →
      call.kind ≠ .function → IsNode report (call.kind.render ++ "::" ++ call.label)
        ⟨call.label, if call.kind = .solidity then "diamond" else "ellipse"⟩

/-- The id of the node that a call goes to. -/
def destination (call : CallEntry) : String :=
  match call.id? with
  | some id => id
  | none => call.kind.render ++ "::" ++ call.label

/-- The edges: for each call one from the function that makes it. -/
def IsEdge (report : CompilationReport) (e : Edge) : Prop :=
  ∃ call, (e.source, call) ∈ calls report ∧ e.destination = destination call ∧ e.kind = call.edge

/-! ## What is written -/

/-- What a reported function writes: its own look, and that of what it calls if there is none. -/
def writesOf (entry : Visibility × FunctionNode) : List (Ordered.Write String Style) :=
  .put entry.2.id ⟨entry.2.display ++ "\\n[" ++ entry.1.render ++ "]", "box"⟩ ::
    entry.2.calls.map fun call => .putNew (target call).1 (target call).2

/-- The edge of a call. -/
def edgeOf (call : String × CallEntry) : Edge := ⟨call.1, (target call.2).1, call.2.edge⟩

theorem foldl_addCall (source : String) (cs : List CallEntry) (g : Graph) :
    cs.foldl (addCall source) g =
      { nodes := (cs.map fun call => .putNew (target call).1 (target call).2).foldl
          Ordered.Write.perform g.nodes
        edges := (cs.map fun call => edgeOf (source, call)).foldl
          (fun set e => Ordered.insert Edge.order e set) g.edges } := by
  induction cs generalizing g with
  | nil => rfl
  | cons call cs ih => exact ih (addCall source g call)

theorem foldl_addFunction (fs : List (Visibility × FunctionNode)) (g : Graph) :
    fs.foldl addFunction g =
      { nodes := (fs.flatMap writesOf).foldl Ordered.Write.perform g.nodes
        edges := ((fs.flatMap fun (_, f) => f.calls.map (f.id, ·)).map edgeOf).foldl
          (fun set e => Ordered.insert Edge.order e set) g.edges } := by
  induction fs generalizing g with
  | nil => rfl
  | cons f fs ih =>
      have hfirst : addFunction g f = _ := foldl_addCall f.2.id f.2.calls _
      rw [List.foldl_cons, ih, hfirst, List.flatMap_cons, List.flatMap_cons, List.foldl_append,
        List.map_append, List.foldl_append, List.map_map]
      rfl

/-- All that is written. -/
def writes (report : CompilationReport) : List (Ordered.Write String Style) :=
  (functions report).flatMap writesOf

theorem graph_eq (report : CompilationReport) : graph report =
    { nodes := (writes report).foldl Ordered.Write.perform []
      edges := ((calls report).map edgeOf).foldl
        (fun set e => Ordered.insert Edge.order e set) [] } :=
  foldl_addFunction (functions report) ⟨[], []⟩

theorem mem_calls {report : CompilationReport} {caller : String} {call : CallEntry} :
    (caller, call) ∈ calls report ↔
      ∃ visibility f, (visibility, f) ∈ functions report ∧ f.id = caller ∧ call ∈ f.calls := by
  simp only [calls, List.mem_flatMap, List.mem_map, Prod.exists, Prod.mk.injEq]
  constructor
  · rintro ⟨visibility, f, hf, call', hcall, rfl, rfl⟩
    exact ⟨visibility, f, hf, rfl, hcall⟩
  · rintro ⟨visibility, f, hf, rfl, hcall⟩
    exact ⟨visibility, f, hf, call, hcall, rfl, rfl⟩

theorem put_mem_writes {report : CompilationReport} {id : String} {style : Style} :
    .put id style ∈ writes report ↔ ∃ visibility f, (visibility, f) ∈ functions report ∧ id = f.id ∧
      style = ⟨f.display ++ "\\n[" ++ visibility.render ++ "]", "box"⟩ := by
  simp [writes, writesOf, List.mem_flatMap]

theorem putNew_mem_writes {report : CompilationReport} {id : String} {style : Style} :
    .putNew id style ∈ writes report ↔
      ∃ caller call, (caller, call) ∈ calls report ∧ target call = (id, style) := by
  simp only [writes, writesOf, mem_calls, List.mem_flatMap, List.mem_cons, List.mem_map,
    Prod.exists, reduceCtorEq, false_or, Ordered.Write.putNew.injEq]
  constructor
  · rintro ⟨visibility, f, hf, call, hcall, rfl, rfl⟩
    exact ⟨f.id, call, ⟨visibility, f, hf, rfl, hcall⟩, rfl⟩
  · rintro ⟨caller, call, ⟨visibility, f, hf, -, hcall⟩, htarget⟩
    exact ⟨visibility, f, hf, call, hcall, by rw [htarget], by rw [htarget]⟩

theorem target_other {call : CallEntry} (h : call.kind ≠ .function) : target call =
    (call.kind.render ++ "::" ++ call.label,
      ⟨call.label, if call.kind = .solidity then "diamond" else "ellipse"⟩) := by
  cases call with
  | function => exact absurd rfl h
  | _ => rfl

theorem target_fst (call : CallEntry) : (target call).1 = destination call := by
  cases call <;> rfl

/-- The id of a target tells its kind and its text. -/
theorem other_inj {kind kind' : TargetKind} {label label' : String}
    (h : kind.render ++ "::" ++ label = kind'.render ++ "::" ++ label') :
    kind = kind' ∧ label = label' := by
  have hchars := congrArg String.toList h
  cases kind <;> cases kind' <;> simp [TargetKind.render, String.toList_inj] at hchars ⊢ <;>
    exact hchars

theorem function_or_other (call : CallEntry) :
    (∃ edge id name display visibility context declaredIn,
      call = .function edge id name display visibility context declaredIn) ∨
      call.kind ≠ .function := by
  cases call <;> simp [CallEntry.kind]

theorem reported_mem_functionNames {report : CompilationReport} {visibility : Visibility}
    {f : FunctionNode} (h : (visibility, f) ∈ functions report) :
    (f.id, f.display) ∈ functionNames report :=
  List.mem_append_left _ (List.mem_map.2 ⟨(visibility, f), h, rfl⟩)

theorem called_mem_functionNames {report : CompilationReport} {caller id name display : String}
    {edge : EdgeKind} {visibility : Option Visibility} {context declaredIn : Option String}
    (h : (caller, .function edge id name display visibility context declaredIn) ∈ calls report) :
    (id, display) ∈ functionNames report :=
  List.mem_append_right _ (List.mem_filterMap.2 ⟨_, h, rfl⟩)

section Consistent

variable {report : CompilationReport} {id : String} {style style' : Style}

theorem Consistent.put_unique (h : Consistent report)
    (hput : .put id style ∈ writes report) (hput' : .put id style' ∈ writes report) :
    style = style' := by
  obtain ⟨visibility, f, hf, rfl, rfl⟩ := put_mem_writes.1 hput
  obtain ⟨visibility', f', hf', hid, rfl⟩ := put_mem_writes.1 hput'
  cases List.inj_on_of_nodup_map h.reportedOnce hf hf' hid
  rfl

theorem Consistent.putNew_unique (h : Consistent report)
    (hnew : .putNew id style ∈ writes report) (hnew' : .putNew id style' ∈ writes report) :
    style = style' := by
  obtain ⟨caller, call, hcall, htarget⟩ := putNew_mem_writes.1 hnew
  obtain ⟨caller', call', hcall', htarget'⟩ := putNew_mem_writes.1 hnew'
  rcases function_or_other call with ⟨_, id, _, display, _, _, _, rfl⟩ | hother <;>
    rcases function_or_other call' with ⟨_, id', _, display', _, _, _, rfl⟩ | hother'
  · cases htarget
    cases htarget'
    have hdisplay := h.display _ (called_mem_functionNames hcall) _
      (called_mem_functionNames hcall') rfl
    exact congrArg (Style.mk · "box") hdisplay
  · rw [target_other hother'] at htarget'
    cases htarget
    cases htarget'
    exact absurd rfl (h.apart _ (called_mem_functionNames hcall) _ hcall' hother')
  · rw [target_other hother] at htarget
    cases htarget'
    cases htarget
    exact absurd rfl (h.apart _ (called_mem_functionNames hcall') _ hcall hother)
  · rw [target_other hother] at htarget
    rw [target_other hother'] at htarget'
    obtain ⟨hid, rfl⟩ := Prod.mk.inj htarget
    obtain ⟨hid', rfl⟩ := Prod.mk.inj htarget'
    obtain ⟨hkind, hlabel⟩ := other_inj (hid.trans hid'.symm)
    rw [hkind, hlabel]

theorem Consistent.mem_nodes (h : Consistent report) :
    (id, style) ∈ (graph report).nodes ↔ IsNode report id style := by
  have hnot : (∀ style', .put id style' ∉ writes report) ↔
      id ∉ (functions report).map fun (_, f) => f.id := by
    constructor
    · intro hnone hmem
      obtain ⟨⟨visibility, f⟩, hf, rfl⟩ := List.mem_map.1 hmem
      exact hnone _ (put_mem_writes.2 ⟨visibility, f, hf, rfl, rfl⟩)
    · intro hid style' hput
      obtain ⟨visibility, f, hf, rfl, -⟩ := put_mem_writes.1 hput
      exact hid (List.mem_map_of_mem hf)
  rw [graph_eq]
  refine (Ordered.mem_foldl_perform h.put_unique h.putNew_unique).trans ?_
  rw [hnot, put_mem_writes, putNew_mem_writes]
  constructor
  · rintro (⟨visibility, f, hf, rfl, rfl⟩ | ⟨⟨caller, call, hcall, htarget⟩, hid⟩)
    · exact .reported hf
    · rcases function_or_other call with ⟨_, id, _, display, _, _, _, rfl⟩ | hother
      · cases htarget
        exact .called hcall hid
      · rw [target_other hother] at htarget
        cases htarget
        exact .other hcall hother
  · rintro (hf | ⟨hcall, hid⟩ | ⟨hcall, hother⟩)
    · exact .inl ⟨_, _, hf, rfl, rfl⟩
    · exact .inr ⟨⟨_, _, hcall, rfl⟩, hid⟩
    · refine .inr ⟨⟨_, _, hcall, target_other hother⟩, fun hmem => ?_⟩
      obtain ⟨⟨visibility, f⟩, hf, hid⟩ := List.mem_map.1 hmem
      exact h.apart _ (reported_mem_functionNames hf) _ hcall hother hid

end Consistent

/-! ## The order of edges -/

theorem render_injective : Function.Injective EdgeKind.render := by
  intro kind kind' h
  cases kind <;> cases kind' <;> first | rfl | exact absurd h (by decide)

instance transCmp_order : Std.TransCmp Edge.order :=
  inferInstanceAs (Std.TransCmp (Ordered.lexically _ _))

instance lawfulEqCmp_order : Std.LawfulEqCmp Edge.order where
  eq_of_compare {e e'} h := by
    simp only [Edge.order, Ordered.lexically_eq, Ordered.comparing_eq] at h
    obtain ⟨hsource, hdestination, hkind⟩ := h
    cases e
    cases e'
    cases hsource
    cases hdestination
    cases render_injective hkind
    rfl

theorem mem_edges {report : CompilationReport} {e : Edge} :
    e ∈ (graph report).edges ↔ IsEdge report e := by
  rw [graph_eq]
  refine Ordered.mem_foldl_insert.trans ?_
  simp only [List.not_mem_nil, false_or, List.mem_map, Prod.exists]
  constructor
  · rintro ⟨caller, call, hcall, rfl⟩
    exact ⟨call, hcall, target_fst call, rfl⟩
  · rintro ⟨call, hcall, hdestination, hkind⟩
    refine ⟨e.source, call, hcall, ?_⟩
    rw [edgeOf, target_fst, ← hdestination, ← hkind]

theorem ascending_nodes (report : CompilationReport) :
    Ordered.Ascending Ordered.byKey (graph report).nodes := by
  rw [graph_eq]
  exact Ordered.ascending_foldl_perform _

theorem ascending_edges (report : CompilationReport) :
    Ordered.Ascending Edge.order (graph report).edges := by
  rw [graph_eq]
  exact Ordered.Ascending.foldl_insert List.Pairwise.nil

/-! ## Reordering -/

/-- What of a reported function does not depend on its calls. -/
def heads (report : CompilationReport) : List (Visibility × String × String) :=
  (functions report).map fun (visibility, f) => (visibility, f.id, f.display)

/-- The reports have the same functions and calls. -/
structure Alike (report report' : CompilationReport) : Prop where
  heads : (heads report).Perm (heads report')
  calls : (calls report).Perm (calls report')

theorem alike_of_reorders {report report' : CompilationReport} (h : report.Reorders report') :
    Alike report report' := by
  have hfunctions : Reordered (fun entry entry' : Visibility × FunctionNode =>
      entry.1 = entry'.1 ∧ entry.2.Reorders entry'.2) (functions report) (functions report') := by
    refine h.2.flatMap fun hcontract => hcontract.2.flatMap fun {group group'} hgroup => ?_
    exact hgroup.2.map fun hf => ⟨hgroup.1, hf⟩
  constructor
  · refine Reordered.perm (hfunctions.map fun {entry entry'} hentry => ?_)
    obtain ⟨visibility, f⟩ := entry
    obtain ⟨visibility', f'⟩ := entry'
    obtain ⟨rfl, calls, -, rfl⟩ := hentry
    rfl
  · refine Reordered.perm (hfunctions.flatMap fun {entry entry'} hentry => ?_)
    obtain ⟨visibility, f⟩ := entry
    obtain ⟨visibility', f'⟩ := entry'
    obtain ⟨rfl, calls, hcalls, rfl⟩ := hentry
    exact .of_perm (hcalls.map (f.id, ·))

namespace Alike

variable {report report' : CompilationReport}

theorem symm (h : Alike report report') : Alike report' report := ⟨h.heads.symm, h.calls.symm⟩

theorem exists_function (h : Alike report report') {visibility : Visibility} {f : FunctionNode}
    (hf : (visibility, f) ∈ functions report) :
    ∃ f', (visibility, f') ∈ functions report' ∧ f'.id = f.id ∧ f'.display = f.display := by
  have hhead : (visibility, f.id, f.display) ∈ Dot.heads report' :=
    h.heads.mem_iff.1 (List.mem_map_of_mem hf)
  obtain ⟨⟨visibility', f'⟩, hf', heq⟩ := List.mem_map.1 hhead
  obtain ⟨rfl, hids⟩ := Prod.mk.inj heq
  exact ⟨f', hf', Prod.mk.inj hids⟩

theorem ids (h : Alike report report') : ((functions report).map fun (_, f) => f.id).Perm
    ((functions report').map fun (_, f) => f.id) := by
  have hids := h.heads.map (·.2.1)
  rw [Dot.heads, Dot.heads, List.map_map, List.map_map] at hids
  exact hids

theorem functionNames (h : Alike report report') :
    (functionNames report).Perm (functionNames report') := by
  have hreported := h.heads.map (·.2)
  rw [Dot.heads, Dot.heads, List.map_map, List.map_map] at hreported
  exact hreported.append (h.calls.filterMap _)

theorem consistent (h : Alike report report') (hreport : Consistent report) :
    Consistent report' where
  display name hname name' hname' :=
    hreport.display name (h.functionNames.mem_iff.2 hname) name' (h.functionNames.mem_iff.2 hname')
  reportedOnce := h.ids.nodup_iff.1 hreport.reportedOnce
  apart name hname entry hentry :=
    hreport.apart name (h.functionNames.mem_iff.2 hname) entry (h.calls.mem_iff.2 hentry)

theorem isNode (h : Alike report report') {id : String} {style : Style}
    (hnode : IsNode report id style) : IsNode report' id style := by
  cases hnode with
  | reported hf =>
      obtain ⟨f', hf', hid, hdisplay⟩ := h.exists_function hf
      exact hid ▸ hdisplay ▸ .reported hf'
  | called hcall hid =>
      exact .called (h.calls.mem_iff.1 hcall) fun hmem => hid (h.ids.mem_iff.2 hmem)
  | other hcall hother => exact .other (h.calls.mem_iff.1 hcall) hother

theorem isEdge (h : Alike report report') {e : Edge} (he : IsEdge report e) : IsEdge report' e := by
  obtain ⟨call, hcall, hdestination⟩ := he
  exact ⟨call, h.calls.mem_iff.1 hcall, hdestination⟩

theorem graph_eq (h : Alike report report') (hreport : Consistent report) :
    graph report' = graph report := by
  have hnodes : (graph report').nodes = (graph report).nodes :=
    (ascending_nodes report').eq_of_mem_iff (ascending_nodes report) fun (id, style) => by
      rw [(h.consistent hreport).mem_nodes, hreport.mem_nodes]
      exact ⟨h.symm.isNode, h.isNode⟩
  have hedges : (graph report').edges = (graph report).edges :=
    (ascending_edges report').eq_of_mem_iff (ascending_edges report) fun e => by
      rw [mem_edges, mem_edges]
      exact ⟨h.symm.isEdge, h.isEdge⟩
  cases hg : graph report
  cases hg' : graph report'
  rw [hg, hg'] at hnodes hedges
  cases hnodes
  cases hedges
  rfl

end Alike

/-! ## The whole graph -/

theorem exists_node_source {report : CompilationReport} {e : Edge} (h : IsEdge report e) :
    ∃ style, (e.source, style) ∈ (graph report).nodes := by
  obtain ⟨call, hcall, -⟩ := h
  obtain ⟨visibility, f, hf, hid, -⟩ := mem_calls.1 hcall
  rw [graph_eq]
  exact Ordered.exists_value (.inl (put_mem_writes.2 ⟨visibility, f, hf, hid.symm, rfl⟩))

theorem exists_node_destination {report : CompilationReport} {e : Edge} (h : IsEdge report e) :
    ∃ style, (e.destination, style) ∈ (graph report).nodes := by
  obtain ⟨call, hcall, hdestination, -⟩ := h
  rw [graph_eq, hdestination, ← target_fst]
  exact Ordered.exists_value (.inr (putNew_mem_writes.2 ⟨e.source, call, hcall, rfl⟩))

/-- Lines with their ends. -/
theorem intercalate_concat {lines : List String} (h : lines ≠ []) :
    "\n".intercalate lines ++ "\n" = String.join (lines.map (· ++ "\n")) := by
  induction lines with
  | nil => exact absurd rfl h
  | cons line lines ih =>
      cases lines with
      | nil => simp
      | cons other lines =>
          rw [String.intercalate_cons_cons, String.append_assoc, ih (List.cons_ne_nil _ _)]
          simp only [List.map_cons, String.join_cons]

/-- The text of a graph, line by line. -/
theorem render_eq (g : Graph) : render g =
    "digraph \"callgraph\" \x7b\n  rankdir=LR;\n  node [fontsize=10];\n" ++
      String.join (g.nodes.map fun node => nodeLine node ++ "\n") ++
      String.join (g.edges.map fun e => edgeLine e ++ "\n") ++ "\x7d\n" := by
  rw [render, intercalate_concat (by simp)]
  simp only [List.map_append, List.map_map, String.join_append]
  rfl

theorem nodeLine_concat (node : String × Style) : nodeLine node ++ "\n" =
    "  \"" ++ escape node.1 ++ "\" [label=\"" ++ escape node.2.label ++ "\", shape=\"" ++
      node.2.shape ++ "\"];\n" := by
  simp [← String.toList_inj, nodeLine, quoted]

theorem edgeLine_concat (e : Edge) : edgeLine e ++ "\n" =
    "  \"" ++ escape e.source ++ "\" -> \"" ++ escape e.destination ++ "\" [label=\"" ++
      e.kind.render ++ "\", color=\"" ++ color e.kind ++ "\"];\n" := by
  simp [← String.toList_inj, edgeLine, quoted]

/-- A text shows a graph: its nodes, each in one statement, and its edges, each in one statement. -/
structure Shows (report : CompilationReport) (text : String) (nodes : List (String × Style))
    (edges : List Edge) : Prop where
  text_eq : text = "digraph \"callgraph\" \x7b\n  rankdir=LR;\n  node [fontsize=10];\n" ++
    String.join (nodes.map fun node =>
      "  \"" ++ escape node.1 ++ "\" [label=\"" ++ escape node.2.label ++ "\", shape=\"" ++
        node.2.shape ++ "\"];\n") ++
    String.join (edges.map fun e =>
      "  \"" ++ escape e.source ++ "\" -> \"" ++ escape e.destination ++ "\" [label=\"" ++
        e.kind.render ++ "\", color=\"" ++ color e.kind ++ "\"];\n") ++ "\x7d\n"
  mem_nodes : ∀ {id style}, (id, style) ∈ nodes ↔ IsNode report id style
  mem_edges : ∀ {e}, e ∈ edges ↔ IsEdge report e
  nodes_once : (nodes.map fun node => quoted node.1).Nodup
  edges_once : (edges.map fun e => (quoted e.source, quoted e.destination, e.kind.render)).Nodup
  ends : ∀ {e}, e ∈ edges → (∃ style, (e.source, style) ∈ nodes) ∧
    ∃ style, (e.destination, style) ∈ nodes

/-- The text of a report shows the graph of the report, whatever the order in which contracts,
functions and calls are listed. -/
theorem ofReport_shows {report : CompilationReport} (h : Consistent report) :
    (∃ nodes edges, Shows report (ofReport report) nodes edges) ∧
      ∀ {report'}, report.Reorders report' → ofReport report' = ofReport report := by
  refine ⟨⟨(graph report).nodes, (graph report).edges, ?_⟩, fun hreorders => ?_⟩
  · refine ⟨?_, h.mem_nodes, mem_edges, ?_, ?_, fun he => ?_⟩
    · simpa only [nodeLine_concat, edgeLine_concat, ofReport] using render_eq (graph report)
    · have hids := (Ordered.nodup_keys (ascending_nodes report)).map quoted_injective
      rwa [List.map_map] at hids
    · refine (ascending_edges report).nodup.map fun e e' heq => ?_
      obtain ⟨hsource, hends⟩ := Prod.mk.inj heq
      obtain ⟨hdestination, hkind⟩ := Prod.mk.inj hends
      cases e
      cases e'
      cases quoted_injective hsource
      cases quoted_injective hdestination
      cases render_injective hkind
      rfl
    · exact ⟨exists_node_source (mem_edges.1 he), exists_node_destination (mem_edges.1 he)⟩
  · exact congrArg render ((alike_of_reorders hreorders).graph_eq h)

/-- A function with no more than its calls. -/
def bareFunction (id display : String) (calls : List CallEntry) : FunctionNode :=
  { id, name := display, display, visibility := none, visibilityDefaulted := false, context := none
    declaredIn := none, isConstructor := false, isFallback := false, isReceive := false
    isShadowed := false, calls }

/-- Two reported functions, of which the first makes the calls. -/
def vault (calls : List CallEntry) : CompilationReport :=
  ⟨"Vault.sol", [⟨"Vault", [(.external, [bareFunction "Vault::pay" "pay()" calls]),
    (.pub, [bareFunction "Vault::log" "log()" [.unknown .external "token.send"]])]⟩]⟩

/-- Calls of each kind, among them one of a function that is reported and two that write the same
edge. -/
def vaultCalls : List CallEntry :=
  [.function .internal "Vault::log" "log()" "log()" none none none,
    .function .modifier "Vault::once" "once" "once" none none none,
    .function .baseConstructor "Base::start" "start()" "start()" none none none,
    .function .library "Math::min" "min(int256)" "min(int256)" none none none,
    .getter .external "owner" "Peek.owner" none, .solidity .solidity "sha256",
    .unknown .external "say \"hi\"", .unknown .external "say \"hi\""]

theorem reorders_vault {calls calls' : List CallEntry} (h : calls.Perm calls') :
    (vault calls).Reorders (vault calls') := by
  refine ⟨rfl, _, .refl _, .cons ⟨rfl, _, .refl _, .cons ⟨rfl, _, .refl _, ?_⟩
    (.cons ⟨rfl, _, .refl _, ?_⟩ .nil)⟩ .nil⟩
  · exact .cons ⟨calls', h, rfl⟩ .nil
  · exact .cons ⟨_, .refl _, rfl⟩ .nil

theorem ofReport_shows_vault :
    Consistent (vault vaultCalls) ∧
      (∃ nodes edges, Shows (vault vaultCalls) (ofReport (vault vaultCalls)) nodes edges) ∧
      ofReport (vault vaultCalls.reverse) = ofReport (vault vaultCalls) ∧
      ofReport (vault vaultCalls) = String.join [
        "digraph \"callgraph\" \x7b\n  rankdir=LR;\n  node [fontsize=10];\n",
        "  \"Base::start\" [label=\"start()\", shape=\"box\"];\n",
        "  \"Math::min\" [label=\"min(int256)\", shape=\"box\"];\n",
        "  \"Vault::log\" [label=\"log()\\n[public]\", shape=\"box\"];\n",
        "  \"Vault::once\" [label=\"once\", shape=\"box\"];\n",
        "  \"Vault::pay\" [label=\"pay()\\n[external]\", shape=\"box\"];\n",
        "  \"solidity::sha256\" [label=\"sha256\", shape=\"diamond\"];\n",
        "  \"unknown::say \\\"hi\\\"\" [label=\"say \\\"hi\\\"\", shape=\"ellipse\"];\n",
        "  \"unknown::token.send\" [label=\"token.send\", shape=\"ellipse\"];\n",
        "  \"variable::Peek.owner\" [label=\"Peek.owner\", shape=\"ellipse\"];\n",
        "  \"Vault::log\" -> \"unknown::token.send\" [label=\"external\", color=\"red\"];\n",
        "  \"Vault::pay\" -> \"Base::start\" [label=\"base-constructor\", color=\"purple4\"];\n",
        "  \"Vault::pay\" -> \"Math::min\" [label=\"library\", color=\"blue\"];\n",
        "  \"Vault::pay\" -> \"Vault::log\" [label=\"internal\", color=\"black\"];\n",
        "  \"Vault::pay\" -> \"Vault::once\" [label=\"modifier\", color=\"gray40\"];\n",
        "  \"Vault::pay\" -> \"solidity::sha256\" [label=\"solidity\", color=\"darkorange3\"];\n",
        "  \"Vault::pay\" -> \"unknown::say \\\"hi\\\"\" [label=\"external\", color=\"red\"];\n",
        "  \"Vault::pay\" -> \"variable::Peek.owner\" [label=\"external\", color=\"red\"];\n",
        "\x7d\n"] := by
  have hconsistent : Consistent (vault vaultCalls) :=
    ⟨by decide +kernel, by decide +kernel, by decide +kernel⟩
  obtain ⟨hshows, hreorders⟩ := ofReport_shows hconsistent
  exact ⟨hconsistent, hshows, hreorders (reorders_vault (List.reverse_perm _).symm),
    by decide +kernel⟩

end Dot
end ContractCalls
