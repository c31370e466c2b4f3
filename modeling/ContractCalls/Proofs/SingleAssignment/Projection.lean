/-
# A conversion sharpens dependencies

Replacing operands by what they stand for takes what a converted body makes
depend on what back to the body.  A phi has a version of one variable on both
sides, so nothing is left of it.  An operation becomes an operation of the
body, and what it writes through a reference becomes what the body writes
through the reference, as long as the chain of forms does not end too early.

It ends too early at a form that was never bound.  Forms are bound when they
are written, so this is excluded by asking that a bound reference to which
another one is bound is written in some node that can be reached.

    a chain of forms ends where the chain of the body does  (`Converted.endsAt_origin`)
    a step of the conversion is one of the body or none      (`Converted.direct_origin`)
-/
import ContractCalls.Proofs.SingleAssignment.Alias
import ContractCalls.Proofs.SingleAssignment.Dependency

namespace ContractCalls.Body

open Renaming Relation

/-- An operation of a node that can be reached writes the operand. -/
def ReachablyWrites (b : Body) (id : OperandId) : Prop :=
  ∃ n node op, b.Reachable n ∧ b.node? n = some node ∧ op ∈ node.operations ∧ op.lvalue? = some id

/-- Each bound reference to which another one is bound is written in a node that can be reached. -/
def WritesAliased (b : Body) : Prop :=
  ∀ {l t u}, b.arena.PointsTo l t → b.arena.PointsTo t u → b.ReachablyWrites t

/-! ## Forms that are written -/

theorem Renaming.Renames.exists_writesAs {r : Renaming} {n : NodeId} {cur cur' : Written}
    {ops ops' : List Operation} (hren : Renames r n cur ops ops' cur') {op : Operation}
    (hop : op ∈ ops) {l : OperandId} (hl : op.lvalue? = some l) :
    ∃ c w c', WritesAs r c l w c' := by
  induction hren with
  | nil => exact absurd hop List.not_mem_nil
  | cons hfirst _ ih =>
      rcases List.mem_cons.mp hop with rfl | hop
      · have hw := hfirst.lvalue
        rw [hl] at hw
        generalize Operation.lvalue? _ = l' at hw
        cases hw with
        | some hw => exact ⟨_, _, _, hw⟩
      · exact ih hop

/-- A bound reference is a reference, and neither a variable nor fixed. -/
theorem Renaming.not_variable_of_pointsTo {r : Renaming} {id t : OperandId}
    (h : r.arena.PointsTo id t) : ¬ r.arena.IsVariable id ∧ ¬ r.IsFixed id := by
  obtain ⟨o, index, ho, hk⟩ := h
  constructor
  · rintro ⟨p, hp, hv, -⟩
    obtain rfl := Option.some.inj (ho.symm.trans hp)
    simp [hk, OperandKind.isVariable] at hv
  · rintro ⟨p, hp, -, -, hi⟩
    obtain rfl := Option.some.inj (ho.symm.trans hp)
    simp [hk, OperandKind.isIntroduced] at hi

section Conversion

variable {b : Body} {r : Renaming}

namespace Converted

/-- The form of a bound reference that is written is bound. -/
theorem form_bound (h : Converted b r) (hfaithful : r.arena.Faithful) {l t x : OperandId}
    (hwritten : b.ReachablyWrites l) (hl : r.arena.PointsTo l t)
    (hx : r.arena.variant? l = some x) : ∃ u, r.arena.PointsTo x u := by
  obtain ⟨n, node, op, hn, hnode, hop, hlvalue⟩ := hwritten
  obtain ⟨ops, cur, f, -, hren, -⟩ := h.inv.base.filled n (h.filled.mpr hn) node hnode
  obtain ⟨c, w, c', hw⟩ := hren.exists_writesAs hop hlvalue
  obtain ⟨hvariable, hfixed⟩ := not_variable_of_pointsTo hl
  cases hw with
  | version hv _ => exact absurd hv hvariable
  | fixed hf => exact absurd hf hfixed
  | variant _ hvariant hbinds =>
      obtain rfl := Option.some.inj (hvariant.symm.trans hx)
      obtain ⟨o, ho, hbound⟩ := hbinds hl
      exact hfaithful.exists_pointsTo ho hbound (h.inv.base.coherent.variant hvariant) hl

/-- What ends a chain of the conversion stands for the end of a chain of the body. -/
theorem last_origin (hb : b.Pristine) (h : Converted b r) (hfaithful : r.arena.Faithful)
    (hwrites : b.WritesAliased) {y t : OperandId} (hyt : r.arena.PointsTo y t)
    (hlast : ∀ u, ¬ r.arena.PointsTo t u) (u : OperandId) :
    ¬ b.arena.PointsTo (origin r.arena t) u := by
  intro hu
  have hu' := h.inv.base.arena.pointsTo hu
  rcases h.binding hyt with hold | ⟨l, target, -, hbound, hstands⟩
  · rw [h.origin_eq_self hb (hb.grounded.known hold)] at hu'
    exact hlast u hu'
  · rw [h.origin_of_standsFor hb (hb.grounded.known hbound) hstands] at hu hu'
    cases hstands with
    | version hv _ => exact (not_variable_of_pointsTo hu').1 hv
    | kept _ _ => exact hlast u hu'
    | variant _ hvariant =>
        -- the reference aliased is written, so its form is bound
        obtain ⟨u', hu''⟩ := h.form_bound hfaithful (hwrites hbound hu) hu' hvariant
        exact hlast u' hu''

/-- The chain from the form of a bound reference ends with what stands for the end of the chain in
the body. -/
theorem endsAt_origin (hb : b.Pristine) (h : Converted b r) (hfaithful : r.arena.Faithful)
    (hwrites : b.WritesAliased) {w x t : OperandId} (hw : r.arena.PointsTo w x)
    (hends : r.arena.EndsAt w t) : b.arena.EndsAt (origin r.arena w) (origin r.arena t) := by
  obtain ⟨y, hyt⟩ : ∃ y, r.arena.PointsTo y t := by
    rcases hends.path.cases_tail with rfl | ⟨y, -, hyt⟩
    · exact absurd hw (hends.last x)
    · exact ⟨y, hyt⟩
  exact
    { path := ReflTransGen.lift (origin r.arena) (fun _ _ hx => h.pointsTo_origin hb hx) _ _
        hends.path
      known := hb.grounded.known (h.pointsTo_origin hb hyt)
      last := h.last_origin hb hfaithful hwrites hyt hends.last }

/-! ## Steps of the conversion -/

/-- An operation writes for the body what it writes for the conversion. -/
theorem feeds_origin (hb : b.Pristine) (h : Converted b r) (hfaithful : r.arena.Faithful)
    (hwrites : b.WritesAliased) {op : Operation} {w : OperandId} (hw : op.Feeds r.arena w) :
    (op.erase r.arena).Feeds b.arena (origin r.arena w) := by
  have hlvalue : ∀ {l}, op.lvalue? = some l →
      (op.erase r.arena).lvalue? = some (origin r.arena l) := fun hl => by
    rw [Operation.lvalue?_erase, hl, Option.map_some, nonSsa_eq_origin]
  cases hw with
  | lvalue hl => exact .lvalue (hlvalue hl)
  | through hl hbound hbinds hresolve =>
      have hbound' := h.pointsTo_origin hb hbound
      have hends := h.endsAt_origin hb hfaithful hwrites hbound (Arena.endsAt_of_resolve hresolve)
      obtain ⟨t, ht, hends'⟩ := hb.grounded.resolve hbound'.known
      refine .through (hlvalue hl) hbound' ?_ (hends.unique hends' ▸ ht)
      rw [bindsReference_of_shape (Operation.shape_erase r.arena op), hbinds]

/-- Whatever a phi writes and reads is a version of one variable. -/
theorem origin_phi (h : Converted b r) {n : NodeId} {node : Node}
    (hnode : r.body.node? n = some node) {φ : Phi} (hφ : φ ∈ node.phis) {w : OperandId}
    (hw : w ∈ φ.lvalue :: φ.incoming.map Prod.snd) : origin r.arena w = φ.base := by
  obtain ⟨k, hk⟩ := h.singleAssignment.versions hnode hφ w hw
  exact origin_version hk

/-- A direct dependency of the conversion is one of the body, unless both sides stand for the same
operand. -/
theorem direct_origin (hb : b.Pristine) (hssa : b.isSsa = false) (h : Converted b r)
    (hfaithful : r.arena.Faithful) (hwrites : b.WritesAliased) {w c : OperandId}
    (hw : r.body.Direct w c) :
    ReflTransGen b.Direct (origin r.arena w) (origin r.arena c) := by
  obtain ⟨reads, ⟨node', hmem, hfeeds⟩, hc⟩ := hw
  obtain ⟨n, hnode'⟩ := mem_nodes_iff.mp hmem
  rcases hfeeds with ⟨φ, hφ, rfl, rfl⟩ | ⟨op, hop, hfeeds, rfl⟩
  · rw [h.origin_phi hnode' hφ List.mem_cons_self,
      h.origin_phi hnode' hφ (List.mem_cons_of_mem _ hc)]
  · obtain ⟨node, hnode, hop'⟩ := h.erase_operation (hb.of_isSsa hssa) hnode' hop
    refine .single ⟨(op.erase r.arena).reads, ⟨node, mem_nodes_iff.mpr ⟨n, hnode⟩, Or.inr
      ⟨_, hop', h.feeds_origin hb hfaithful hwrites hfeeds, rfl⟩⟩, ?_⟩
    rw [Operation.reads_erase, ← nonSsa_eq_origin]
    exact List.mem_map_of_mem hc

end Converted

end Conversion

/-! ## Dependencies by name -/

namespace Pristine

variable {b : Body}

/-- What depends on what is there. -/
theorem known_of_direct (hb : b.Pristine) {w c : OperandId} (h : b.Direct w c) :
    b.arena.Known w ∧ b.arena.Known c := by
  obtain ⟨reads, ⟨node, hmem, hfeeds⟩, hc⟩ := h
  obtain ⟨n, hnode⟩ := mem_nodes_iff.mp hmem
  rcases hfeeds with ⟨φ, hφ, -⟩ | ⟨op, hop, hfeeds, rfl⟩
  · rw [hb.unconverted.phis hnode] at hφ
    exact absurd hφ List.not_mem_nil
  · constructor
    · cases hfeeds with
      | lvalue hl => exact hb.known_lvalue hnode hop hl
      | through _ _ _ hresolve => exact (Arena.endsAt_of_resolve hresolve).known
    · obtain ⟨o, ho, -⟩ := hb.unconverted.uses hnode c (Node.mem_operands_of_read hop hc)
      exact Arena.known_of_get? ho

theorem known_of_transGen (hb : b.Pristine) {w c : OperandId} (h : TransGen b.Direct w c) :
    b.arena.Known w ∧ b.arena.Known c := by
  obtain ⟨_, hw, -⟩ := TransGen.head'_iff.mp h
  obtain ⟨_, -, hc⟩ := TransGen.tail'_iff.mp h
  exact ⟨(hb.known_of_direct hw).1, (hb.known_of_direct hc).2⟩

end Pristine

/-- What stands for an operand of the body has its name. -/
theorem Converted.variableName?_origin {b : Body} {r : Renaming} (hb : b.Pristine)
    (h : Converted b r) {w : OperandId} (hw : b.arena.Known (origin r.arena w)) :
    b.variableName? (origin r.arena w) = r.body.variableName? w := by
  obtain ⟨o, ho⟩ := Arena.known_iff.mp hw
  have ho' : r.body.arena.get? (origin r.arena w) = some o :=
    h.inv.base.arena.get?_of_ssa ho (hb.ssa ho)
  have hname : r.body.variableName? w = r.body.ownName? (origin r.arena w) :=
    variableName?_of_origin r.body rfl
  rw [hname, variableName?_of_origin b (origin_of_link? (hb.link? hw)), ownName?, ownName?, ho, ho']

/-- Whatever depends on something in the conversion does so in the body. -/
theorem Converted.has_of_has {b : Body} {r : Renaming} (hb : b.Pristine) (hssa : b.isSsa = false)
    (h : Converted b r) (hfaithful : r.arena.Faithful) (hwrites : b.WritesAliased)
    {deps deps' : DependencyMap} (hdeps : b.dependencies = .ok deps)
    (hdeps' : r.body.dependencies = .ok deps') {name source : String}
    (hhas : deps'.Has name source) : deps.Has name source := by
  obtain ⟨hne, w, e, hw, hwe, he⟩ := (dependencies_spec hdeps').mp hhas
  have hpath : ReflTransGen b.Direct (origin r.arena w) (origin r.arena e) :=
    hwe.to_reflTransGen.lift' (origin r.arena) fun _ _ hstep =>
      h.direct_origin hb hssa hfaithful hwrites hstep
  rcases reflTransGen_iff_eq_or_transGen.mp hpath with heq | hpath
  · -- both would have the same name
    have hsame : r.body.variableName? e = r.body.variableName? w :=
      (variableName?_of_origin r.body heq).trans (variableName?_of_origin r.body rfl).symm
    exact absurd (Option.some.inj (he.symm.trans (hsame.trans hw))) hne
  · obtain ⟨hknown, hknown'⟩ := hb.known_of_transGen hpath
    exact (dependencies_spec hdeps).mpr ⟨hne, _, _,
      (h.variableName?_origin hb hknown).trans hw, hpath,
      (h.variableName?_origin hb hknown').trans he⟩

/-- The conversion of a body succeeds, dependencies can be computed before it and after it, and
those after it are among those before it, as long as aliased references are written. -/
theorem toSsa_sharpens {b : Body} (hb : b.Pristine) (hwrites : b.WritesAliased) :
    ∃ b' deps deps', b.toSsa = (.ok (), b') ∧ b.dependencies = .ok deps ∧
      b'.dependencies = .ok deps' ∧
      ∀ {name source}, deps'.Has name source → deps.Has name source := by
  obtain ⟨deps, hdeps⟩ := hb.dependencies
  cases hssa : b.isSsa with
  | true => exact ⟨b, deps, deps, by rw [toSsa, if_pos hssa], hdeps, hdeps, id⟩
  | false =>
      obtain ⟨r, hr, h⟩ := toSsa_spec (hb.of_isSsa hssa)
      have hchanges : b.arena.Changes r.arena := (converts_toSsa hr).arena
      obtain ⟨deps', hdeps'⟩ := h.dependencies hb hchanges
      have hfaithful : r.arena.Faithful :=
        Arena.Faithful.changes ⟨fun ho hl => by simp [hb.ssa ho] at hl⟩ hchanges
      exact ⟨_, deps, deps', hr, hdeps, hdeps', h.has_of_has hb hssa hfaithful hwrites hdeps hdeps'⟩

/-- In the loop that can be entered at two places, the reference that is aliased is written. -/
theorem crossed_writesAliased : crossed.WritesAliased := by
  have hpoints : ∀ {l t}, crossed.arena.PointsTo l t → l = ⟨3⟩ ∧ t = ⟨4⟩ ∨ l = ⟨4⟩ ∧ t = ⟨0⟩ := by
    rintro ⟨l⟩ t ⟨o, index, ho, hk⟩
    match l with
    | 0 | 1 | 2 => cases ho; cases hk
    | 3 => cases ho; cases hk; exact Or.inl ⟨rfl, rfl⟩
    | 4 => cases ho; cases hk; exact Or.inr ⟨rfl, rfl⟩
    | l + 5 => cases ho
  intro l t u hlt htu
  obtain rfl : t = ⟨4⟩ := by
    rcases hpoints hlt with ⟨-, rfl⟩ | ⟨-, rfl⟩
    · rfl
    · rcases hpoints htu with ⟨h, -⟩ | ⟨h, -⟩ <;> cases h
  exact ⟨⟨1⟩, _, _, mem_reversePostorder.mp (by decide), rfl, List.mem_cons_self, rfl⟩

/-- The write of `y` to the state cannot be reached.  Before the conversion it counts where the
state is read, and after it no more. -/
theorem crossed_sharpens : crossed.Pristine ∧ crossed.WritesAliased ∧
    ∃ b' deps deps', crossed.toSsa = (.ok (), b') ∧ crossed.dependencies = .ok deps ∧
      b'.dependencies = .ok deps' ∧
      (∀ {name source}, deps'.Has name source → deps.Has name source) ∧
      deps.Has "x" "y" ∧ ¬ deps'.Has "x" "y" := by
  have hpristine : crossed.Pristine := by decide +kernel
  have hbefore : (crossed.dependencies.toOption.bind (·.get? "x")) = some ["s", "y"] := by
    decide +kernel
  have hafter : (crossed.toSsa.2.dependencies.toOption.bind (·.get? "x")) = some ["s"] := by
    decide +kernel
  obtain ⟨b', deps, deps', hrun, hdeps, hdeps', hsharpens⟩ :=
    toSsa_sharpens hpristine crossed_writesAliased
  rw [hdeps] at hbefore
  rw [hrun, hdeps'] at hafter
  refine ⟨hpristine, crossed_writesAliased, b', deps, deps', hrun, hdeps, hdeps', hsharpens, ?_, ?_⟩
  · exact ⟨_, hbefore, by simp⟩
  · rintro ⟨set, hset, hmem⟩
    obtain rfl := Option.some.inj (hset.symm.trans hafter)
    simp at hmem

end ContractCalls.Body
