/-
# What a bundle holds

`Calls` and `IsLeaf` say what a walk over the call graph should find: the
implemented functions that kept calls lead to, and the leaves of all functions
it looks at.  The walk of `Compilation.bundle` finds exactly these.

The walk is a machine with a list of pending functions.  Its invariant says
that whatever was found was found rightly, and that a function that was found
and is not pending any more has had all its calls and leaves taken.  A step
takes one call, a visit all calls of a function; each round visits one pending
function, and as no function is pending twice, there are at most as many
rounds as functions.
-/
import ContractCalls.CallGraph.Bundle
import ContractCalls.Proofs.Ordered
import Mathlib.Data.List.Nodup
import Mathlib.Data.List.Perm.Subperm
import Mathlib.Logic.Relation

namespace ContractCalls

/-! ## Orders -/

instance transOrd_edgeKind : Std.TransOrd EdgeKind where
  eq_swap {a b} := by cases a <;> cases b <;> rfl
  isLE_trans {a b c} := by cases a <;> cases b <;> cases c <;> decide

instance lawfulEqOrd_edgeKind : Std.LawfulEqOrd EdgeKind where
  compare_self {a} := by cases a <;> rfl
  eq_of_compare {a b} h := by cases a <;> cases b <;> first | rfl | cases h

instance transOrd_leafKind : Std.TransOrd LeafKind where
  eq_swap {a b} := by cases a <;> cases b <;> rfl
  isLE_trans {a b c} := by cases a <;> cases b <;> cases c <;> decide

instance lawfulEqOrd_leafKind : Std.LawfulEqOrd LeafKind where
  compare_self {a} := by cases a <;> rfl
  eq_of_compare {a b} h := by cases a <;> cases b <;> first | rfl | cases h

instance transCmp_leafOrder : Std.TransCmp Leaf.order :=
  inferInstanceAs (Std.TransCmp (Ordered.lexically _ _))

instance lawfulEqCmp_leafOrder : Std.LawfulEqCmp Leaf.order where
  compare_self := Std.ReflCmp.compare_self
  eq_of_compare {a b} h := by
    obtain ⟨he, hkl⟩ := Ordered.lexically_eq.mp h
    obtain ⟨hk, hl⟩ := Ordered.lexically_eq.mp hkl
    obtain ⟨ea, ka, la⟩ := a
    obtain ⟨eb, kb, lb⟩ := b
    rw [Ordered.comparing_eq] at he hk hl
    simp_all

namespace Bundle

/-! ## What a walk should find -/

/-- The function is there and has a body. -/
def Implemented (u : Compilation) (id : FunctionId) : Prop :=
  ∃ f, u.function? id = some f ∧ f.isImplemented = true

/-- A kept call target of a function. -/
def Keeps (u : Compilation) (filters : CallFilters) (id : FunctionId) (target : CallTarget) : Prop :=
  ∃ f, u.function? id = some f ∧ target ∈ u.callTargets f ∧ filters.keeps target.edge = true

/-- A kept call target of the first function over the edge is the second function. -/
def Calls (u : Compilation) (filters : CallFilters) (edge : EdgeKind) (a c : FunctionId) : Prop :=
  ∃ target, Keeps u filters a target ∧ target.kind = .function ∧ target.target = .function c ∧
    target.edge = edge

/-- The first function calls the second, which is implemented. -/
def CallsImplemented (u : Compilation) (filters : CallFilters) (a c : FunctionId) : Prop :=
  Implemented u c ∧ ∃ edge, Calls u filters edge a c

/-- The leaf of a call target that is no implemented function. -/
inductive IsLeaf (u : Compilation) (target : CallTarget) : Leaf → Prop
  | stateVar : target.kind = .stateVar → IsLeaf u target ⟨target.edge, .stateVar, target.label⟩
  | solidity : target.kind = .solidity → IsLeaf u target ⟨target.edge, .solidity, target.label⟩
  | unknown : target.kind = .unknown → IsLeaf u target ⟨target.edge, .unknown, target.label⟩
  | abstract {id : FunctionId} {callee : Function} : target.kind = .function →
      target.target = .function id → u.function? id = some callee →
      callee.isImplemented = false → IsLeaf u target ⟨target.edge, .abstract, callee.displayName⟩

/-- A leaf of a kept call target of a function. -/
def HasLeaf (u : Compilation) (filters : CallFilters) (id : FunctionId) (leaf : Leaf) : Prop :=
  ∃ target, Keeps u filters id target ∧ IsLeaf u target leaf

/-- No two functions have the same uid. -/
def DistinctUids (u : Compilation) : Prop := (u.functions.toList.map Function.uid).Nodup

instance decidableDistinctUids (u : Compilation) : Decidable (DistinctUids u) :=
  inferInstanceAs (Decidable (List.Nodup _))

theorem DistinctUids.eq_of_uid {u : Compilation} (h : DistinctUids u) {i j : FunctionId}
    {f g : Function} (hf : u.function? i = some f) (hg : u.function? j = some g)
    (huid : f.uid = g.uid) : i = j := by
  obtain ⟨hi, rfl⟩ := Array.getElem?_eq_some_iff.mp hf
  obtain ⟨hj, rfl⟩ := Array.getElem?_eq_some_iff.mp hg
  have hi' : i.index < (u.functions.toList.map Function.uid).length := by simpa using hi
  have hj' : j.index < (u.functions.toList.map Function.uid).length := by simpa using hj
  have huids : (u.functions.toList.map Function.uid)[i.index] =
      (u.functions.toList.map Function.uid)[j.index] := by simpa using huid
  have hij := (List.Nodup.getElem_inj_iff h).mp huids
  cases i
  cases j
  exact congrArg FunctionId.mk hij

/-! ## Call targets -/

/-- A target of the function kind names a function that is there. -/
def NamesFunction (u : Compilation) (target : CallTarget) : Prop :=
  target.kind = .function → ∃ id callee, target.target = .function id ∧ u.function? id = some callee

theorem namesFunction_function (u : Compilation) (id : FunctionId) (edge : EdgeKind) :
    NamesFunction u (CallTarget.function u id edge) := by
  intro hk
  unfold CallTarget.function at hk ⊢
  cases hf : u.function? id with
  | none => simp [hf, CallTarget.unknown] at hk
  | some callee => exact ⟨id, callee, rfl, hf⟩

theorem namesFunction_of_mem {u : Compilation} {f : Function} {target : CallTarget}
    (h : target ∈ u.callTargets f) : NamesFunction u target := by
  simp only [Compilation.callTargets, List.mem_append, List.mem_map, List.mem_filterMap] at h
  rcases h with (((⟨id, -, rfl⟩ | ⟨id, -, rfl⟩) | ⟨callee, -, h⟩) | ⟨callee, -, h⟩) |
    ⟨callee, -, h⟩
  · exact namesFunction_function u id _
  · exact namesFunction_function u id _
  · unfold CallTarget.ofInternal? at h
    split at h
    · exact Option.some.inj h ▸ namesFunction_function u _ _
    · cases Option.some.inj h
      exact fun hk => nomatch hk
    · cases Option.some.inj h
      exact fun hk => nomatch hk
    · cases h
  · unfold CallTarget.ofLibrary? at h
    split at h
    · exact Option.some.inj h ▸ namesFunction_function u _ _
    · cases Option.some.inj h
      exact fun hk => nomatch hk
    · cases h
  · unfold CallTarget.ofHighLevel? at h
    split at h
    · cases Option.some.inj h
      exact namesFunction_function u _ _
    · cases Option.some.inj h
      exact fun hk => nomatch hk
    · cases Option.some.inj h
      exact fun hk => nomatch hk
    · cases h

theorem classify_eq_inl {u : Compilation} {target : CallTarget} {step : Step} :
    classify u target = .inl step ↔ target.kind = .function ∧ target.target = .function step.id ∧
      target.edge = step.edge ∧
      ∃ f, u.function? step.id = some f ∧ f.isImplemented = true ∧ f.uid = step.uid := by
  unfold classify
  constructor
  · intro h
    split at h
    · rename_i id hk ht
      split at h
      · rename_i callee hc
        split at h
        · obtain rfl := Sum.inl.inj h
          exact ⟨hk, ht, rfl, callee, hc, ‹_›, rfl⟩
        · cases h
      · cases h
    all_goals cases h
  · rintro ⟨hk, ht, he, f, hf, hi, hu⟩
    obtain ⟨edge, uid, id⟩ := step
    simp only at ht he hf hu
    subst he hu
    simp [hk, ht, hf, hi]

theorem classify_eq_inr {u : Compilation} {target : CallTarget} (hn : NamesFunction u target)
    {leaf : Leaf} : classify u target = .inr leaf ↔ IsLeaf u target leaf := by
  obtain ⟨kind, label, edge, ref, contract⟩ := target
  unfold classify
  cases kind with
  | function =>
      obtain ⟨id, callee, rfl, hc⟩ := hn rfl
      simp only [hc]
      constructor
      · intro h
        split at h
        · cases h
        · obtain rfl := Sum.inr.inj h
          exact .abstract rfl rfl hc (by simpa using ‹¬ callee.isImplemented = true›)
      · intro h
        cases h with
        | stateVar hk => cases hk
        | solidity hk => cases hk
        | unknown hk => cases hk
        | abstract _ ht hf hi =>
            obtain rfl := TargetRef.function.inj ht
            obtain rfl := Option.some.inj (hc.symm.trans hf)
            simp [hi]
  | stateVar =>
      simp only [Sum.inr.injEq]
      constructor
      · rintro rfl
        exact .stateVar rfl
      · intro h
        cases h with
        | stateVar _ => rfl
        | solidity hk => cases hk
        | unknown hk => cases hk
        | abstract hk => cases hk
  | solidity =>
      simp only [Sum.inr.injEq]
      constructor
      · rintro rfl
        exact .solidity rfl
      · intro h
        cases h with
        | stateVar hk => cases hk
        | solidity _ => rfl
        | unknown hk => cases hk
        | abstract hk => cases hk
  | unknown =>
      simp only [Sum.inr.injEq]
      constructor
      · rintro rfl
        exact .unknown rfl
      · intro h
        cases h with
        | stateVar hk => cases hk
        | solidity hk => cases hk
        | unknown _ => rfl
        | abstract hk => cases hk

section Function

variable {u : Compilation} {filters : CallFilters} {id : FunctionId} {f : Function}

theorem mem_keptTargets (hf : u.function? id = some f) {target : CallTarget} :
    target ∈ u.keptTargets filters f ↔ Keeps u filters id target := by
  simp only [Compilation.keptTargets, List.mem_filter, Keeps]
  constructor
  · exact fun h => ⟨f, hf, h⟩
  · rintro ⟨g, hg, h⟩
    obtain rfl := Option.some.inj (hf.symm.trans hg)
    exact h

theorem mem_stepsFrom (hf : u.function? id = some f) {step : Step} :
    step ∈ stepsFrom u filters f ↔ Calls u filters step.edge id step.id ∧
      ∃ g, u.function? step.id = some g ∧ g.isImplemented = true ∧ g.uid = step.uid := by
  simp only [stepsFrom, Ordered.mem_sort, List.mem_filterMap, Sum.getLeft?_eq_some_iff,
    classify_eq_inl, mem_keptTargets hf, Calls]
  constructor
  · rintro ⟨target, hk, h₁, h₂, h₃, hg⟩
    exact ⟨⟨target, hk, h₁, h₂, h₃⟩, hg⟩
  · rintro ⟨⟨target, hk, h₁, h₂, h₃⟩, hg⟩
    exact ⟨target, hk, h₁, h₂, h₃, hg⟩

theorem mem_leavesOf (hf : u.function? id = some f) {leaf : Leaf} :
    leaf ∈ leavesOf u filters f ↔ HasLeaf u filters id leaf := by
  simp only [leavesOf, List.mem_filterMap, Sum.getRight?_eq_some_iff, mem_keptTargets hf, HasLeaf]
  refine exists_congr fun target => and_congr_right fun hk => ?_
  obtain ⟨g, -, hg, -⟩ := hk
  exact classify_eq_inr (namesFunction_of_mem hg)

end Function

/-! ## The walk -/

namespace Walk

/-- The functions found so far. -/
def found (entry : FunctionId) (w : Walk) : List FunctionId := entry :: w.reached.map Prod.snd

/-- The state of a walk from `entry`, which is looking at the functions in `busy`. -/
structure Inv (u : Compilation) (filters : CallFilters) (entry : FunctionId)
    (busy : List FunctionId) (w : Walk) : Prop where
  exists_ : ∀ id ∈ w.found entry, u.function? id ≠ none
  nodup : (w.found entry).Nodup
  seen : ∀ {id f}, u.function? id = some f → (f.uid ∈ w.seen ↔ id ∈ w.found entry)
  pending : ∀ id ∈ w.pending, id ∈ w.found entry
  reached : ∀ {edge id}, (edge, id) ∈ w.reached →
    Relation.TransGen (CallsImplemented u filters) entry id ∧
      ∃ a ∈ w.found entry, Calls u filters edge a id
  leaf : ∀ l ∈ w.leaves, ∃ a ∈ w.found entry, HasLeaf u filters a l
  ascending : Ordered.Ascending Leaf.order w.leaves
  /-- A function that is done has had all its calls and leaves taken. -/
  done : ∀ a ∈ w.found entry, a ∉ w.pending → a ∉ busy →
    (∀ c, CallsImplemented u filters a c → c ∈ w.found entry) ∧
      ∀ l, HasLeaf u filters a l → l ∈ w.leaves

/-- What a later state has kept, and how many functions it has found and not visited since. -/
structure Extends (entry : FunctionId) (w w' : Walk) : Prop where
  found : ∀ id ∈ w.found entry, id ∈ w'.found entry
  leaves : w'.leaves = w.leaves
  balance : w'.pending.length + (w.found entry).length =
    w.pending.length + (w'.found entry).length

theorem Extends.refl (entry : FunctionId) (w : Walk) : Extends entry w w := ⟨fun _ h => h, rfl, rfl⟩

theorem Extends.trans {entry : FunctionId} {w w' w'' : Walk} (h : Extends entry w w')
    (h' : Extends entry w' w'') : Extends entry w w'' where
  found id hid := h'.found id (h.found id hid)
  leaves := h'.leaves.trans h.leaves
  balance := by
    have h₁ := h.balance
    have h₂ := h'.balance
    omega

section Walk

variable {u : Compilation} {filters : CallFilters} {entry id : FunctionId} {w : Walk}

/-- A found function can be reached, the entry trivially. -/
theorem Inv.reach {busy : List FunctionId} (h : Inv u filters entry busy w)
    (hid : id ∈ w.found entry) :
    Relation.ReflTransGen (CallsImplemented u filters) entry id := by
  rcases List.mem_cons.mp hid with rfl | hid
  · exact .refl
  · obtain ⟨⟨edge, c⟩, hc, rfl⟩ := List.mem_map.mp hid
    exact (h.reached hc).1.to_reflTransGen

/-- Taking a call of the function that is looked at. -/
theorem Inv.take (hu : DistinctUids u) (h : Inv u filters entry [id] w)
    (hid : id ∈ w.found entry) {step : Step} (hcalls : Calls u filters step.edge id step.id) {g : Function}
    (hg : u.function? step.id = some g) (himpl : g.isImplemented = true)
    (huid : g.uid = step.uid) :
    Inv u filters entry [id] (w.take step) ∧ Extends entry w (w.take step) ∧
      step.id ∈ (w.take step).found entry := by
  unfold Walk.take
  by_cases hseen : step.uid ∈ w.seen
  · rw [if_pos (List.contains_iff_mem.mpr hseen)]
    exact ⟨h, .refl _ _, (h.seen hg).mp (huid ▸ hseen)⟩
  · rw [if_neg fun hc => hseen (List.contains_iff_mem.mp hc)]
    have hnew : step.id ∉ w.found entry := fun hmem => hseen (huid ▸ (h.seen hg).mpr hmem)
    -- the new function goes right after the entry
    have hfound : ∀ {c}, c ∈ Walk.found entry { w with
          seen := step.uid :: w.seen
          reached := (step.edge, step.id) :: w.reached
          pending := step.id :: w.pending } ↔ c = step.id ∨ c ∈ w.found entry := by
      intro c
      simp only [Walk.found, List.map_cons, List.mem_cons]
      tauto
    have hstep : Relation.TransGen (CallsImplemented u filters) entry step.id :=
      .tail' (h.reach hid) ⟨⟨g, hg, himpl⟩, step.edge, hcalls⟩
    refine ⟨⟨?_, ?_, ?_, ?_, ?_, ?_, h.ascending, ?_⟩, ⟨?_, rfl, ?_⟩, hfound.mpr (Or.inl rfl)⟩
    · intro c hc
      rcases hfound.mp hc with rfl | hc
      · simp [hg]
      · exact h.exists_ c hc
    · obtain ⟨he, hr⟩ := List.nodup_cons.mp h.nodup
      have hne : entry ≠ step.id := fun heq => hnew (heq ▸ List.mem_cons_self)
      refine List.nodup_cons.mpr ⟨?_, List.nodup_cons.mpr ⟨?_, hr⟩⟩
      · simp [hne, he]
      · exact fun hmem => hnew (List.mem_cons_of_mem _ hmem)
    · intro c f hf
      rw [hfound, List.mem_cons, h.seen hf]
      refine or_congr ⟨fun heq => hu.eq_of_uid hf hg (heq.trans huid.symm), ?_⟩ Iff.rfl
      rintro rfl
      obtain rfl := Option.some.inj (hf.symm.trans hg)
      exact huid
    · intro c hc
      rcases List.mem_cons.mp hc with rfl | hc
      · exact hfound.mpr (Or.inl rfl)
      · exact hfound.mpr (Or.inr (h.pending c hc))
    · intro edge c hc
      rcases List.mem_cons.mp hc with hc | hc
      · obtain ⟨rfl, rfl⟩ := Prod.mk.inj hc
        exact ⟨hstep, id, hfound.mpr (Or.inr hid), hcalls⟩
      · obtain ⟨hr, a, ha, hcall⟩ := h.reached hc
        exact ⟨hr, a, hfound.mpr (Or.inr ha), hcall⟩
    · intro l hl
      obtain ⟨a, ha, hleaf⟩ := h.leaf l hl
      exact ⟨a, hfound.mpr (Or.inr ha), hleaf⟩
    · intro a ha hpending hbusy
      rcases hfound.mp ha with rfl | ha
      · exact absurd List.mem_cons_self hpending
      · obtain ⟨hc, hl⟩ := h.done a ha (fun hp => hpending (List.mem_cons_of_mem _ hp)) hbusy
        exact ⟨fun c hcall => hfound.mpr (Or.inr (hc c hcall)), hl⟩
    · exact fun c hc => hfound.mpr (Or.inr hc)
    · simp [Walk.found]
      omega

/-- Taking calls of the function that is looked at, one after the other. -/
theorem Inv.foldl_take (hu : DistinctUids u) {f : Function} (hf : u.function? id = some f) :
    ∀ {steps : List Step} {w : Walk}, Inv u filters entry [id] w → id ∈ w.found entry →
      (∀ step ∈ steps, step ∈ stepsFrom u filters f) →
      Inv u filters entry [id] (steps.foldl Walk.take w) ∧
        Extends entry w (steps.foldl Walk.take w) ∧
        ∀ step ∈ steps, step.id ∈ (steps.foldl Walk.take w).found entry := by
  intro steps
  induction steps with
  | nil => exact fun h _ _ => ⟨h, .refl _ _, by simp⟩
  | cons step steps ih =>
      intro w h hid hsteps
      obtain ⟨hcalls, g, hg, himpl, huid⟩ := (mem_stepsFrom hf).mp (hsteps step List.mem_cons_self)
      obtain ⟨h₁, hext₁, hmem⟩ := h.take hu hid hcalls hg himpl huid
      obtain ⟨h₂, hext₂, hall⟩ := ih h₁ (hext₁.found id hid) fun s hs =>
        hsteps s (List.mem_cons_of_mem _ hs)
      refine ⟨h₂, hext₁.trans hext₂, fun s hs => ?_⟩
      rcases List.mem_cons.mp hs with rfl | hs
      · exact hext₂.found _ hmem
      · exact hall s hs

/-- Looking at the next pending function. -/
theorem Inv.visit (hu : DistinctUids u) (h : Inv u filters entry [] w) {rest : List FunctionId}
    (hpending : w.pending = id :: rest) {f : Function}
    (hf : u.function? id = some f) :
    Inv u filters entry [] (Walk.visit u filters { w with pending := rest } f) ∧
      (Walk.visit u filters { w with pending := rest } f).pending.length + 1 +
          (w.found entry).length =
        w.pending.length +
          ((Walk.visit u filters { w with pending := rest } f).found entry).length := by
  have hid : id ∈ w.found entry := h.pending id (hpending ▸ List.mem_cons_self)
  let leaves := (leavesOf u filters f).foldl (fun set l => Ordered.insert Leaf.order l set) w.leaves
  have hleaves : ∀ {l}, l ∈ leaves ↔ l ∈ w.leaves ∨ HasLeaf u filters id l := by
    intro l
    rw [Ordered.mem_foldl_insert, mem_leavesOf hf]
  have h₁ : Inv u filters entry [id] { w with pending := rest, leaves } := by
    refine ⟨h.exists_, h.nodup, h.seen, ?_, h.reached, ?_, h.ascending.foldl_insert, ?_⟩
    · intro c hc
      exact h.pending c (hpending ▸ List.mem_cons_of_mem _ hc)
    · intro l hl
      rcases hleaves.mp hl with hl | hl
      · exact h.leaf l hl
      · exact ⟨id, hid, hl⟩
    · intro a ha hrest hbusy
      have hnot : a ∉ w.pending := by
        rw [hpending]
        exact fun hmem => (List.mem_cons.mp hmem).elim
          (fun heq => hbusy (List.mem_singleton.mpr heq)) hrest
      obtain ⟨hc, hl⟩ := h.done a ha hnot (by simp)
      exact ⟨hc, fun l hleaf => hleaves.mpr (Or.inl (hl l hleaf))⟩
  obtain ⟨h₂, hext, hall⟩ := h₁.foldl_take hu hf hid fun step hs => hs
  refine ⟨⟨h₂.exists_, h₂.nodup, h₂.seen, h₂.pending, h₂.reached, h₂.leaf, h₂.ascending, ?_⟩, ?_⟩
  · intro a ha hnot _
    by_cases hai : a = id
    · subst hai
      refine ⟨?_, fun l hl => ?_⟩
      · rintro c ⟨⟨g, hg, himpl⟩, edge, hcalls⟩
        exact hall ⟨edge, g.uid, c⟩ ((mem_stepsFrom hf).mpr ⟨hcalls, g, hg, himpl, rfl⟩)
      · exact hext.leaves ▸ hleaves.mpr (Or.inr hl)
    · exact h₂.done a ha hnot (by simpa using hai)
  · have hb := hext.balance
    have hp : w.pending.length = rest.length + 1 := by simp [hpending]
    have hfound : (Walk.found entry { w with pending := rest, leaves }) = w.found entry := rfl
    rw [hfound] at hb
    show (List.foldl Walk.take { w with pending := rest, leaves } _).pending.length + 1 + _ = _ +
      ((List.foldl Walk.take { w with pending := rest, leaves } _).found entry).length
    simp only at hb
    omega

/-- No more functions are found than there are. -/
theorem Inv.length_le {busy : List FunctionId} (h : Inv u filters entry busy w) :
    (w.found entry).length ≤ u.functions.size := by
  have hmap : ((w.found entry).map FunctionId.index).Nodup :=
    List.Pairwise.map _ (fun i j hij he => hij (by cases i; cases j; simpa using he)) h.nodup
  have hsub : (w.found entry).map FunctionId.index ⊆ List.range u.functions.size := by
    intro i hi
    obtain ⟨c, hc, rfl⟩ := List.mem_map.mp hi
    have := h.exists_ c hc
    simpa [Compilation.function?] using this
  simpa using (List.subperm_of_subset hmap hsub).length_le

/-- With fuel for every function that is pending or not found, nothing stays pending. -/
theorem Inv.run (hu : DistinctUids u) (fuel : Nat) : ∀ {w : Walk}, Inv u filters entry [] w →
    w.pending.length + u.functions.size ≤ fuel + (w.found entry).length →
    Inv u filters entry [] (Walk.run u filters fuel w) ∧
      (Walk.run u filters fuel w).pending = [] := by
  induction fuel with
  | zero =>
      intro w h hfuel
      have hle := h.length_le
      refine ⟨h, ?_⟩
      show w.pending = []
      exact List.length_eq_zero_iff.mp (by omega)
  | succ fuel ih =>
      intro w h hfuel
      cases hp : w.pending with
      | nil => simp [Walk.run, hp, h]
      | cons id rest =>
          cases hf : u.function? id with
          | none => exact absurd hf (h.exists_ id (h.pending id (hp ▸ List.mem_cons_self)))
          | some f =>
              have hvisit := h.visit hu hp hf
              simp only [Walk.run, hp, hf]
              exact ih hvisit.1 (by omega)

/-- The state a walk starts in. -/
theorem inv_start (hu : DistinctUids u) {root : Function} (hroot : u.function? entry = some root) :
    Inv u filters entry [] ⟨[root.uid], [], [], [entry]⟩ where
  exists_ c hc := by simp_all [Walk.found]
  nodup := List.pairwise_singleton _ entry
  seen {c f} hf := by
    simp only [Walk.found, List.map_nil, List.mem_singleton]
    refine ⟨fun huid => hu.eq_of_uid hf hroot huid, ?_⟩
    rintro rfl
    obtain rfl := Option.some.inj (hf.symm.trans hroot)
    rfl
  pending c hc := hc
  reached hc := absurd hc List.not_mem_nil
  leaf l hl := absurd hl List.not_mem_nil
  ascending := List.Pairwise.nil
  done a ha hnot _ := absurd ha hnot

/-- When nothing is pending, whatever can be reached is found. -/
theorem Inv.found_of_reach (h : Inv u filters entry [] w) (hpending : w.pending = []) {c : FunctionId}
    (hc : Relation.ReflTransGen (CallsImplemented u filters) entry c) : c ∈ w.found entry := by
  induction hc with
  | refl => exact List.mem_cons_self
  | tail _ hstep ih => exact (h.done _ ih (by simp [hpending]) (by simp)).1 _ hstep

end Walk

end Walk

/-! ## The bundle -/

/-- The bundle holds exactly what kept calls from the entry lead to. -/
structure Exact (u : Compilation) (filters : CallFilters) (entry : FunctionId) (bundle : Bundle) :
    Prop where
  entry_eq : bundle.entry = entry
  /-- Every function is listed once. -/
  nodup : (bundle.reachable.map Prod.snd).Nodup
  /-- The functions listed are the implemented ones but the entry that can be reached. -/
  reachable : ∀ id, id ∈ bundle.reachable.map Prod.snd ↔
    id ≠ entry ∧ Implemented u id ∧ Relation.TransGen (CallsImplemented u filters) entry id
  /-- A function is listed with the edge of a call from the entry or a listed function. -/
  edge : ∀ {edge id}, (edge, id) ∈ bundle.reachable →
    ∃ a ∈ entry :: bundle.reachable.map Prod.snd, Calls u filters edge a id
  /-- The leaves listed are those of the entry and of all listed functions. -/
  leaves : ∀ leaf, leaf ∈ bundle.leaves ↔
    ∃ a ∈ entry :: bundle.reachable.map Prod.snd, HasLeaf u filters a leaf
  /-- Every leaf is listed once, in order. -/
  ascending : Ordered.Ascending Leaf.order bundle.leaves

theorem Walk.Inv.exact {u : Compilation} {filters : CallFilters} {entry : FunctionId} {w : Walk}
    (h : Walk.Inv u filters entry [] w) (hpending : w.pending = []) :
    Exact u filters entry ⟨entry, w.reached.reverse, w.leaves⟩ := by
  have hmem : ∀ {id}, id ∈ w.reached.reverse.map Prod.snd ↔ id ∈ w.reached.map Prod.snd := by
    simp
  have hfound : ∀ {id}, id ∈ entry :: w.reached.reverse.map Prod.snd ↔ id ∈ w.found entry := by
    intro id
    rw [List.mem_cons, hmem, Walk.found, List.mem_cons]
  obtain ⟨hentry, hnodup⟩ := List.nodup_cons.mp h.nodup
  refine ⟨rfl, ?_, fun id => ?_, ?_, fun leaf => ?_, h.ascending⟩
  · rw [List.map_reverse]
    exact List.nodup_reverse.mpr hnodup
  · rw [hmem]
    constructor
    · intro hid
      obtain ⟨⟨edge, c⟩, hc, rfl⟩ := List.mem_map.mp hid
      obtain ⟨hreach, -⟩ := h.reached hc
      refine ⟨fun heq => hentry (heq ▸ hid), ?_, hreach⟩
      obtain ⟨b, -, himpl, -⟩ := Relation.TransGen.tail'_iff.mp hreach
      exact himpl
    · rintro ⟨hne, -, hreach⟩
      have hid := h.found_of_reach hpending hreach.to_reflTransGen
      exact (List.mem_cons.mp hid).resolve_left hne
  · intro edge id hid
    obtain ⟨-, a, ha, hcalls⟩ := h.reached (List.mem_reverse.mp hid)
    exact ⟨a, hfound.mpr ha, hcalls⟩
  · constructor
    · intro hl
      obtain ⟨a, ha, hleaf⟩ := h.leaf leaf hl
      exact ⟨a, hfound.mpr ha, hleaf⟩
    · rintro ⟨a, ha, hleaf⟩
      exact (h.done a (hfound.mp ha) (by simp [hpending]) (by simp)).2 leaf hleaf

end Bundle

/-- The bundle of a function that is there holds exactly what kept calls lead to. -/
theorem Compilation.bundle_exact {u : Compilation} (hu : Bundle.DistinctUids u)
    {entry : FunctionId} (hentry : u.function? entry ≠ none) (filters : CallFilters) :
    ∃ bundle, u.bundle entry filters = .ok bundle ∧ Bundle.Exact u filters entry bundle := by
  cases hroot : u.function? entry with
  | none => exact absurd hroot hentry
  | some root =>
      have hstart : Bundle.Walk.Inv u filters entry [] ⟨[root.uid], [], [], [entry]⟩ :=
        Bundle.Walk.inv_start hu hroot
      have hfuel : 1 + u.functions.size ≤ u.functions.size + 1 + 1 := by omega
      obtain ⟨h, hpending⟩ := hstart.run hu (u.functions.size + 1) hfuel
      exact ⟨_, by rw [bundle, hroot], h.exact hpending⟩

namespace Bundle

/-- A function that calls itself through another one, which also uses a builtin. -/
def parity : Compilation :=
  let even : Function := { Function.new "even" .free with
    isImplemented := true
    calls := { CallSites.none with internal := [.internal ⟨1⟩] } }
  let odd : Function := { Function.new "odd" .free with
    id := ⟨1⟩
    isImplemented := true
    calls := { CallSites.none with internal := [.internal ⟨0⟩, .builtin "require(bool)"] } }
  { Compilation.new "parity.sol" .solidity with functions := #[even, odd] }

end Bundle

/-- The walk ends although the two functions call each other. -/
theorem parity_bundle_exact :
    ∃ bundle, Bundle.parity.bundle ⟨0⟩ .default = .ok bundle ∧
      Bundle.Exact Bundle.parity .default ⟨0⟩ bundle ∧
      bundle = ⟨⟨0⟩, [(.internal, ⟨1⟩)], []⟩ := by
  have hthere : Bundle.parity.function? ⟨0⟩ ≠ none := by
    simp [Bundle.parity, Compilation.function?]
  obtain ⟨bundle, hbundle, hexact⟩ := Compilation.bundle_exact (by decide) hthere .default
  have hvalue : Bundle.parity.bundle ⟨0⟩ .default = .ok ⟨⟨0⟩, [(.internal, ⟨1⟩)], []⟩ := by cbv
  exact ⟨bundle, hbundle, hexact, Except.ok.inj (hbundle.symm.trans hvalue)⟩

end ContractCalls
