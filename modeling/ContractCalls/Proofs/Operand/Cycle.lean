/-
# Resolution fails on cycles alone

A walk along bound references is stopped by a count: it takes as many hops as
the arena has references.  The count would stop a walk too early only on a
chain that is longer than that, and such a chain has passed some reference
twice.  So the count stops nothing but cycles, whatever was done to the arena
before, as long as no reference is left out of it.

Operands may also be added as they are, bound to an operand that is not there.
The count is right then too; a chain can lead out of the arena, and resolution
names the operand it misses.

    stopping where the walk has been before changes nothing  (`walk_eq_follow`)
    what resolution gives in any arena                       (`resolve_built`)
-/
import ContractCalls.Proofs.Operand.History

namespace ContractCalls.Arena

open Relation

/-! ## Two ways to stop -/

/-- Follows bound references, but no further than to an operand that was visited, and to no more
operands than there are references. -/
def walk (a : Arena) (start : OperandId) (visited : List OperandId) (current : OperandId) :
    Except ModelError OperandId := do
  match (← a.get current).kind with
  | .reference _ (some next) =>
      if current ∈ visited ∨ a.references < visited.length + 1 then
        throw (.referenceCycle (a.display start) a.references)
      else a.walk start (current :: visited) next
  | _ => return current
termination_by a.references - visited.length
decreasing_by
  rw [List.length_cons]
  omega

section Walk

variable {a : Arena} {start current next : OperandId} {visited : List OperandId} {hops : Nat}

theorem walk_of_pointsTo (h : a.PointsTo current next) :
    a.walk start visited current =
      if current ∈ visited ∨ a.references < visited.length + 1 then
        .error (.referenceCycle (a.display start) a.references)
      else a.walk start (current :: visited) next := by
  obtain ⟨o, index, ho, hk⟩ := h
  rw [walk, get_of_get? ho]
  simp only [bind, Except.bind, hk]
  rfl

theorem walk_of_last (h : ∀ t, ¬ a.PointsTo current t) :
    a.walk start visited current = (a.get current).map fun _ => current := by
  rw [walk]
  cases hget : a.get current with
  | error e => rfl
  | ok o =>
      have hk : ∀ index t, o.kind ≠ .reference index (some t) :=
        fun index t hk => h t ⟨o, index, get?_of_get hget, hk⟩
      match hkind : o.kind with
      | .reference index (some t) => exact absurd hkind (hk index t)
      | .reference index none | .stateVar _ | .localVar _ | .temporary _ | .tuple _ | .constant _
      | .builtin _ => simp [bind, Except.bind, pure, Except.pure, Except.map, hkind]

theorem Endless.of_pointsTo (h : a.Endless current) (hnext : a.PointsTo current next) :
    a.Endless next :=
  fun t ht => h t (ht.head hnext)

/-- A walk on a chain that never ends uses up its hops. -/
theorem Endless.follow (h : a.Endless current) :
    a.follow start hops current = .error (.referenceCycle (a.display start) a.references) := by
  induction hops generalizing current with
  | zero =>
      obtain ⟨next, hnext⟩ := h current .refl
      exact follow_zero hnext
  | succ hops ih =>
      obtain ⟨next, hnext⟩ := h current .refl
      rw [follow_succ hnext]
      exact ih (h.of_pointsTo hnext)

/-- An operand that was visited stands on a cycle, where the walk by hops fails as well, only
later. -/
theorem walk_eq_follow (hvisited : ∀ x ∈ visited, TransGen a.PointsTo x current)
    (hhops : visited.length + hops = a.references) :
    a.walk start visited current = a.follow start hops current := by
  induction hops generalizing visited current with
  | zero =>
      by_cases hbound : ∃ next, a.PointsTo current next
      · obtain ⟨next, hnext⟩ := hbound
        rw [walk_of_pointsTo hnext, follow_zero hnext, if_pos (.inr (by omega))]
      · rw [walk_of_last (not_exists.mp hbound), follow_of_last (not_exists.mp hbound)]
  | succ hops ih =>
      by_cases hbound : ∃ next, a.PointsTo current next
      · obtain ⟨next, hnext⟩ := hbound
        rw [walk_of_pointsTo hnext]
        by_cases hmem : current ∈ visited
        · have hcircles : a.Circles current := ⟨current, .refl, hvisited current hmem⟩
          rw [if_pos (.inl hmem), hcircles.endless.follow]
        · rw [if_neg (not_or.mpr ⟨hmem, by omega⟩), follow_succ hnext]
          refine ih (fun x hx => ?_) (by rw [List.length_cons]; omega)
          rcases List.mem_cons.mp hx with rfl | hx
          · exact .single hnext
          · exact (hvisited x hx).tail hnext
      · rw [walk_of_last (not_exists.mp hbound), follow_of_last (not_exists.mp hbound)]

end Walk

/-! ## What resolution gives -/

/-- Resolution tells whether the chain of references from the operand ends, and where. -/
structure Resolves (a : Arena) (id : OperandId) : Prop where
  /-- A walk that stops where it has been before gives the same. -/
  walk : a.resolve id = a.walk id [] id
  /-- It gives the end of the chain. -/
  ok : ∀ t, a.resolve id = .ok t ↔ a.EndsAt id t
  /-- It reports a cycle exactly if the chain never ends. -/
  cycle : a.resolve id = .error (.referenceCycle (a.display id) a.references) ↔ a.Endless id
  /-- A chain that never ends comes to a cycle. -/
  endless : a.Endless id ↔ a.Circles id
  /-- The only other failure is a chain that leads to an operand that is not there. -/
  missing : ∀ e, a.resolve id = .error e → a.Endless id ∨
    ∃ t, ReflTransGen a.PointsTo id t ∧ ¬ a.Known t ∧ e = .unknownOperand t.index

theorem get_of_not_known {a : Arena} {id : OperandId} (h : ¬ a.Known id) :
    a.get id = .error (.unknownOperand id.index) := by
  have hnone : a.slots[id.index]? = none := Array.getElem?_eq_none (Nat.le_of_not_lt h)
  rw [get, slot, hnone]
  rfl

theorem Counted.resolves {a : Arena} (ha : a.Counted) (id : OperandId) : a.Resolves id := by
  have hwalk : a.resolve id = a.walk id [] id := (walk_eq_follow (by simp) (by simp)).symm
  by_cases hcircles : a.Circles id
  · have hendless := hcircles.endless
    exact ⟨hwalk, fun t => ⟨endsAt_of_resolve, fun h => absurd hcircles h.not_circles⟩,
      iff_of_true hendless.follow hendless, iff_of_true hendless hcircles,
      fun _ _ => .inl hendless⟩
  · obtain ⟨t, ht, hlast, hresolve⟩ := ha.resolve hcircles
    have hends : ¬ a.Endless id := fun h => (h t ht).elim hlast
    by_cases hknown : a.Known t
    · obtain ⟨o, ho⟩ := known_iff.mp hknown
      rw [get_of_get? ho] at hresolve
      refine ⟨hwalk, fun t' => ⟨endsAt_of_resolve, fun h => ?_⟩,
        iff_of_false (by rw [hresolve]; nofun) hends, iff_of_false hends hcircles, fun e he => ?_⟩
      · rw [last_unique h.path h.last ht hlast]
        exact hresolve
      · rw [hresolve] at he
        cases he
    · rw [get_of_not_known hknown] at hresolve
      refine ⟨hwalk, fun t' => ⟨endsAt_of_resolve, fun h => ?_⟩,
        iff_of_false (by rw [hresolve]; nofun) hends, iff_of_false hends hcircles,
        fun e he => .inr ⟨t, ht, hknown, ?_⟩⟩
      · exact absurd (last_unique ht hlast h.path h.last ▸ h.known) hknown
      · rw [hresolve] at he
        exact (Except.error.inj he).symm

/-! ## Arenas built in any way -/

/-- What is done to an arena: something is asked of it, or an operand is added as it is. -/
inductive Act where
  | request (r : Request)
  | add (o : Operand)

/-- The arena after an act, done in place. -/
def Act.perform (a : Arena) : Act → Arena
  | .request r => (r.perform.run a).2
  | .add o => (a.add o).2

/-- The arena after acts, the first of them on an empty one. -/
def built (acts : List Act) : Arena := acts.foldl Act.perform .empty

/-- What requests and additions keep, acts keep. -/
theorem built_induction {motive : Arena → Prop} {acts : List Act} (hempty : motive .empty)
    (hrequest : ∀ {a b}, a.Effect b → motive a → motive b)
    (hadd : ∀ {a o}, .add o ∈ acts → motive a → motive (a.add o).2) : motive (built acts) := by
  induction acts using List.reverseRecOn with
  | nil => exact hempty
  | append_singleton acts act ih =>
      have hbefore : motive (built acts) :=
        ih fun hmem => hadd (List.mem_append_left _ hmem)
      rw [built, List.foldl_append]
      cases act with
      | request r => exact hrequest (r.effect_perform _) hbefore
      | add o => exact hadd (List.mem_append_right _ List.mem_cons_self) hbefore

theorem exact_built (acts : List Act) : (built acts).Exact :=
  built_induction exact_empty Effect.exact fun _ h => h.add _

/-- Where no operand was added that is bound already, bound references alias what is there. -/
theorem known_of_built {acts : List Act}
    (hadded : ∀ o, .add o ∈ acts → ∀ index t, o.kind ≠ .reference index (some t)) :
    ∀ {id t}, (built acts).PointsTo id t → (built acts).Known t := by
  refine built_induction (motive := fun a => ∀ {id t}, a.PointsTo id t → a.Known t)
    tallied_empty.target (fun heffect h _ _ hbound => ?_) fun hmem h _ _ hbound => ?_
  · exact heffect.keeps.known ((heffect.bound_or_known hbound).elim h id)
  · exact (includes_add _ _).known (h ((adds_add _ (hadded _ hmem)).bound hbound))

/-- Whatever was done to an arena, resolving an operand of it gives the end of its chain of
references if the chain has one, and a cycle if it has none.  Where no operand was added that is
bound already, it fails for no other reason. -/
theorem resolve_built (acts : List Act) {id : OperandId} (hid : (built acts).Known id) :
    (built acts).Resolves id ∧
      ((∀ o, .add o ∈ acts → ∀ index t, o.kind ≠ .reference index (some t)) →
        ((∃ e, (built acts).resolve id = .error e) ↔ (built acts).Circles id)) := by
  have hresolves := (exact_built acts).counted.resolves id
  refine ⟨hresolves, fun hadded => ⟨fun ⟨e, he⟩ => ?_, fun h => ?_⟩⟩
  · rcases hresolves.missing e he with hendless | ⟨t, ht, hmissing, -⟩
    · exact hresolves.endless.mp hendless
    · exact absurd (known_of_path (known_of_built hadded) hid ht) hmissing
  · exact ⟨_, hresolves.cycle.mpr h.endless⟩

/-- A reference to one that is bound to a variable, and one to a pair bound to each other. -/
def knotted : List Act :=
  [.request (.stateVar "balances" (.elementary "uint256"))] ++
    (List.range 5).map (fun n => .request (.reference ⟨0, n, 0⟩ (.elementary "uint256"))) ++
    [(1, 2), (2, 0), (3, 4), (4, 5), (5, 4)].map fun (reference, target) =>
      .request (.bindReference ⟨reference⟩ ⟨target⟩)

theorem resolve_knotted :
    (built knotted).resolve ⟨1⟩ = .ok ⟨0⟩ ∧ (built knotted).EndsAt ⟨1⟩ ⟨0⟩ ∧
      (built knotted).resolve ⟨3⟩ = .error (.referenceCycle "REF_2" 5) ∧
      (built knotted).Circles ⟨3⟩ := by
  have hsize : 3 < (built knotted).size := by decide +kernel
  have hrequests : ∀ o, .add o ∈ knotted → ∀ index t, o.kind ≠ .reference index (some t) := by
    simp [knotted]
  have hends : (built knotted).resolve ⟨1⟩ = .ok ⟨0⟩ := by decide +kernel
  have hfails : (built knotted).resolve ⟨3⟩ = .error (.referenceCycle "REF_2" 5) := by
    decide +kernel
  exact ⟨hends, ((resolve_built knotted (Nat.lt_of_le_of_lt (by decide) hsize)).1.ok _).mp hends,
    hfails, ((resolve_built knotted hsize).2 hrequests).mp ⟨_, hfails⟩⟩

end ContractCalls.Arena
