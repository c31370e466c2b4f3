/-
# What every conversion keeps

Renaming replaces operands and leaves callees alone, whatever the body looks
like and whether or not its operands make sense.  Reading variables and sealing
nodes do not touch operations at all, and all they do to the arena are the
changes of `Arena.Change`, also where they fail (`Frames`).  Only the renaming
of a node touches operations, and where it succeeds it puts back those it took,
in order, with their callees.

    a conversion keeps calls, parameters and returns    (`converts_toSsa`)
    so it keeps what the body calls                     (`callees_toSsa`)
    renamings stay of the kind of what they rename      (`faithful_toSsa`)
    one that fails has changed the arena by renaming    (`changes_toSsa`)
-/
import ContractCalls.Body.SingleAssignment
import ContractCalls.Proofs.Attempt
import ContractCalls.Proofs.Body.Graph
import ContractCalls.Proofs.Compilation
import ContractCalls.Proofs.Operand.Faithful

namespace ContractCalls

namespace Operation

@[simp] theorem callee?_mapReads (f : OperandId → OperandId) (op : Operation) :
    (op.mapReads f).callee? = op.callee? := by cases op <;> rfl

@[simp] theorem callee?_mapLvalue (f : OperandId → OperandId) (op : Operation) :
    (op.mapLvalue f).callee? = op.callee? := by cases op <;> rfl

end Operation

namespace Body

/-- The operations of every node. -/
def code (b : Body) : Array (List Operation) := b.nodes.map (·.operations)

theorem code_modifyNode {f : Node → Node} (hf : ∀ node, (f node).operations = node.operations)
    (b : Body) (n : NodeId) : (b.modifyNode n f).code = b.code := map_modify_eq hf b.nodes n.index

/-- The operations of every node are as they were, with the parameters and the return values, and
the arena was only changed by renaming. -/
structure Frame (b b' : Body) : Prop where
  code : b'.code = b.code
  parameters : b'.parameters = b.parameters
  returns : b'.returns = b.returns
  arena : b.arena.Changes b'.arena

theorem Frame.refl (b : Body) : Frame b b := ⟨rfl, rfl, rfl, .refl⟩

theorem Frame.trans {b b₁ b₂ : Body} (h : Frame b b₁) (h₁ : Frame b₁ b₂) : Frame b b₂ where
  code := h₁.code.trans h.code
  parameters := h₁.parameters.trans h.parameters
  returns := h₁.returns.trans h.returns
  arena := h.arena.trans h₁.arena

/-- However the step ends, it leaves the frame alone. -/
def Frames {α : Type} (x : Rename α) : Prop := ∀ r, Leaves x r fun r' => Frame r.body r'.body

/-- Where the step succeeds, it leaves the frame alone. -/
def Spares {α : Type} (x : Rename α) : Prop :=
  ∀ r, Leads x r (fun _ r' => Frame r.body r'.body) fun _ => True

theorem Frames.spares {α : Type} {x : Rename α} (h : Frames x) : Spares x := fun r => (h r).leads

section Rules

variable {α β : Type} {x : Rename α} {f : α → Rename β}

theorem frames_pure (a : α) : Frames (pure a) := fun _ => ends_pure (.refl _)

theorem frames_throw (e : ModelError) : Frames (throw e : Rename α) := fun _ => ends_throw (.refl _)

theorem Frames.bind (hx : Frames x) (hf : ∀ a, Frames (f a)) : Frames (x >>= f) := by
  intro r
  refine ends_bind ((hx r).imp (fun a r₁ h₁ => ?_) fun _ _ h₁ => h₁)
  exact (hf a r₁).imp (fun _ _ h₂ => h₁.trans h₂) fun _ _ h₂ => h₁.trans h₂

theorem frames_get {g : Renaming → Rename β} (h : ∀ r, Frames (g r)) : Frames (get >>= g) :=
  fun r => ends_bind (ends_get (h r r))

theorem frames_modify {g : Renaming → Renaming} (h : ∀ r, Frame r.body (g r).body) :
    Frames (modify g) := fun r => ends_modify (h r)

/-- A change of the phis of a node. -/
theorem frames_modifyNode {g : Renaming → Renaming} {n : NodeId} {f : Node → Node}
    (hg : ∀ r, (g r).body = r.body.modifyNode n f)
    (hf : ∀ node, (f node).operations = node.operations) : Frames (modify g) :=
  frames_modify fun r => by
    rw [hg]
    exact ⟨code_modifyNode hf r.body n, rfl, rfl, .refl⟩

theorem frames_forM {γ : Type} {f : γ → Rename PUnit} (h : ∀ x, Frames (f x)) (xs : List γ) :
    Frames (xs.forM f) := by
  induction xs with
  | nil => exact frames_pure PUnit.unit
  | cons x rest ih => exact (h x).bind fun _ => ih

end Rules

/-! ## Reading and sealing -/

theorem frames_onArena {α : Type} {f : Arena → Except ModelError (α × Arena)}
    (hf : ∀ {a x a'}, f a = .ok (x, a') → a.Changes a') : Frames (onArena f) := by
  intro r
  refine ends_bind (ends_get ?_)
  dsimp only
  split
  · next hrun => exact ends_bind (ends_set (ends_pure ⟨rfl, rfl, rfl, hf hrun⟩))
  · exact ends_throw (.refl _)

theorem frames_entryVersionOf (var : OperandId) : Frames (onArena (·.entryVersionOf var)) :=
  frames_onArena fun hrun => .single (.entryVersion hrun)

theorem frames_freshVersionOf (var : OperandId) : Frames (onArena (·.freshVersionOf var)) :=
  frames_onArena fun hrun => .single (.freshVersion hrun)

theorem frames_variantOf (id : OperandId) : Frames (onArena (·.variantOf id)) :=
  frames_onArena fun hrun => .single (.variant hrun)

/-- Looking at an operand. -/
theorem frames_getOperand (id : OperandId) : Frames (onArena fun a => (a.get id).map (·, a)) :=
  frames_onArena fun {a x a'} hrun => by
    cases ho : a.get id with
    | error e =>
        rw [ho] at hrun
        cases hrun
    | ok o =>
        rw [ho] at hrun
        cases hrun
        exact .refl

theorem frames_bindReference (reference target : OperandId) :
    Frames (onArena fun a => (a.bindReference reference target).map ((), ·)) :=
  frames_onArena fun {a x a'} hrun => by
    cases hbind : a.bindReference reference target with
    | error e =>
        rw [hbind] at hrun
        cases hrun
    | ok a₁ =>
        rw [hbind] at hrun
        cases hrun
        exact .single (.bind hbind)

theorem frames_addIncoming (node : NodeId) (phi : Nat) (pred : NodeId) (value : OperandId) :
    Frames (modify (·.addIncoming node phi pred value)) :=
  frames_modifyNode (fun _ => rfl) fun _ => rfl

theorem frames_define (node : NodeId) (var value : OperandId) :
    Frames (do modify (·.define node var value); return value) :=
  Frames.bind (frames_modify fun _ => .refl _) fun _ => frames_pure value

theorem frames_pushPhi (var : OperandId) (node : NodeId) : Frames (pushPhi var node) := by
  refine (frames_freshVersionOf var).bind fun value => frames_get fun r => ?_
  split
  · exact frames_pure _
  · exact Frames.bind (frames_modifyNode (fun _ => rfl) fun _ => rfl) fun _ => frames_pure _

theorem frames_readVariable (var : OperandId) (fuel : Nat) :
    ∀ node, Frames (readVariable var fuel node) := by
  induction fuel with
  | zero => exact fun node => frames_throw _
  | succ fuel ih =>
      intro node
      refine frames_get fun r => ?_
      split
      · exact frames_pure _
      · dsimp only
        split
        · refine (frames_pushPhi var node).bind fun (value, phi) => ?_
          refine Frames.bind (frames_modify fun _ => .refl _) fun _ => ?_
          exact (frames_pure value).bind fun value => frames_define node var value
        · split
          · exact (frames_entryVersionOf var).bind fun value => frames_define node var value
          · exact (ih _).bind fun value => frames_define node var value
          · refine (frames_pushPhi var node).bind fun (value, phi) => ?_
            refine Frames.bind (frames_modify fun _ => .refl _) fun _ => ?_
            refine (frames_forM (fun pred => ?_) _).bind fun _ => ?_
            · exact (ih pred).bind fun incoming => frames_addIncoming _ _ _ _
            · exact (frames_pure value).bind fun value => frames_define node var value

theorem frames_readAt (var : OperandId) (node : NodeId) : Frames (readAt var node) :=
  frames_get fun r => frames_readVariable var (readFuel r) node

theorem frames_completePhi (var : OperandId) (node : NodeId) (phi : Nat) :
    Frames (completePhi var node phi) :=
  frames_get fun _ => frames_forM
    (fun pred => (frames_readAt var pred).bind fun _ => frames_addIncoming _ _ _ _) _

theorem frames_sealNode (node : NodeId) : Frames (sealNode node) := by
  intro r
  refine ends_bind (ends_get ?_)
  dsimp only
  refine ends_bind (ends_set ?_)
  exact frames_forM (fun waiting => frames_completePhi _ node _) _ _

theorem frames_sealReady (order : List NodeId) : Frames (sealReady order) := by
  refine frames_forM (fun node => frames_get fun r => ?_) order
  split
  · exact frames_sealNode node
  · exact frames_pure _

/-! ## Renaming -/

theorem frames_renameRead (node : NodeId) (id : OperandId) : Frames (renameRead node id) := by
  refine (frames_getOperand id).bind fun operand => ?_
  split
  · exact frames_pure id
  · split
    · exact frames_readAt id node
    · split
      · exact frames_variantOf id
      · exact frames_pure id

theorem frames_renameReads (node : NodeId) (ids : List OperandId) :
    ∀ done, Frames (renameReads node done ids) := by
  induction ids with
  | nil => exact fun done => frames_pure done
  | cons id ids ih =>
      intro done
      unfold renameReads
      split
      · exact ih done
      · exact (frames_renameRead node id).bind fun renamed => ih _

theorem frames_renameWrite (node : NodeId) (id : OperandId) : Frames (renameWrite node id) := by
  refine (frames_getOperand id).bind fun operand => ?_
  split
  · exact frames_pure id
  · split
    · exact (frames_freshVersionOf id).bind fun version => frames_define node id version
    · exact (frames_freshVersionOf id).bind fun version => frames_define node id version
    · refine (frames_variantOf id).bind fun variant => (frames_getOperand variant).bind fun form => ?_
      dsimp only
      split
      · refine (frames_renameRead node _).bind fun renamed => ?_
        exact (frames_bindReference variant renamed).bind fun _ => frames_pure variant
      · exact frames_pure variant
    · exact frames_variantOf id
    · exact frames_variantOf id
    · exact frames_pure id

theorem leads_callee_renameOperation (node : NodeId) (op : Operation) (r : Renaming) :
    Leads (renameOperation node op) r
      (fun op' r' => op'.callee? = op.callee? ∧ Frame r.body r'.body) fun _ => True := by
  refine ((frames_renameReads node op.reads []).spares r).bind fun renamed r₁ h₁ => ?_
  dsimp only
  split
  · refine ((frames_renameWrite node _).spares r₁).bind fun written r₂ h₂ => leads_pure ?_
    exact ⟨by simp, h₁.trans h₂⟩
  · exact leads_pure ⟨by simp, h₁⟩

theorem leads_callees_renameOperations (node : NodeId) (ops : List Operation) :
    ∀ r, Leads (ops.mapM (renameOperation node)) r
      (fun ops' r' => ops'.map (·.callee?) = ops.map (·.callee?) ∧ Frame r.body r'.body)
      fun _ => True := by
  induction ops with
  | nil => exact fun r => leads_pure ⟨rfl, .refl _⟩
  | cons op ops ih =>
      intro r
      rw [List.mapM_cons]
      refine (leads_callee_renameOperation node op r).bind fun op' r₁ h₁ => ?_
      refine (ih r₁).bind fun ops' r₂ h₂ => leads_pure ?_
      exact ⟨by rw [List.map_cons, List.map_cons, h₁.1, h₂.1], h₁.2.trans h₂.2⟩

/-- The callees of every node, operation by operation. -/
def calls (b : Body) : Array (List (Option Callee)) := b.code.map (·.map (·.callee?))

/-- Replacing the operations of a node by others with the same callees changes no calls. -/
theorem calls_put {b b₁ : Body} {n : NodeId} {node : Node} (hn : b.node? n = some node)
    {f g : Node → Node} {ops : List Operation} (hf : ∀ node, (f node).operations = [])
    (hg : ∀ node, (g node).operations = ops)
    (hcode : b₁.code = (b.modifyNode n f).code)
    (hops : ops.map (·.callee?) = node.operations.map (·.callee?)) :
    (b₁.modifyNode n g).calls = b.calls := by
  have hnodes (b : Body) (h : Node → Node) (i : Nat) : (b.modifyNode n h).code[i]? =
      if n.index = i then b.nodes[i]?.map fun node => (h node).operations else b.code[i]? := by
    simp only [code, modifyNode, Array.getElem?_map, Array.getElem?_modify]
    split <;> simp [Function.comp_def]
  have hget : ∀ i : Nat, b₁.code[i]? = _ := fun i => (congrArg (·[i]?) hcode).trans (hnodes b f i)
  apply Array.ext_getElem?
  intro i
  simp only [calls, Array.getElem?_map, hnodes]
  by_cases hi : n.index = i
  · subst hi
    have hnode : b.nodes[n.index]? = some node := hn
    have hempty : b₁.nodes[n.index]?.map (·.operations) = some [] := by
      have := hget n.index
      simpa [code, hf, hnode] using this
    obtain ⟨node₁, hnode₁, -⟩ := Option.map_eq_some_iff.mp hempty
    simp [code, hnode₁, hnode, hg, hops]
  · rw [if_neg hi, hget, if_neg hi]

/-- The body calls what it called, with the same parameters and return values, and its arena was
only changed by renaming. -/
structure Converts (b b' : Body) : Prop where
  calls : b'.calls = b.calls
  parameters : b'.parameters = b.parameters
  returns : b'.returns = b.returns
  arena : b.arena.Changes b'.arena

theorem Converts.refl (b : Body) : Converts b b := ⟨rfl, rfl, rfl, .refl⟩

theorem Converts.trans {b b₁ b₂ : Body} (h : Converts b b₁) (h₁ : Converts b₁ b₂) :
    Converts b b₂ where
  calls := h₁.calls.trans h.calls
  parameters := h₁.parameters.trans h.parameters
  returns := h₁.returns.trans h.returns
  arena := h.arena.trans h₁.arena

theorem Frame.converts {b b' : Body} (h : Frame b b') : Converts b b' where
  calls := by rw [calls, h.code, calls]
  parameters := h.parameters
  returns := h.returns
  arena := h.arena

theorem leads_converts_renameNode (n : NodeId) (r : Renaming) :
    Leads (renameNode n) r (fun _ r' => Converts r.body r'.body) fun _ => True := by
  refine leads_bind (leads_get ?_)
  dsimp only
  split
  · exact leads_pure (.refl _)
  · next node hnode =>
      refine leads_bind (leads_modify ?_)
      refine (leads_callees_renameOperations n node.operations _).bind fun ops r₁ h₁ => ?_
      refine ((frames_renameReads n node.terminator.reads []).spares r₁).bind fun renamed r₂ h₂ => ?_
      have h := h₁.2.trans h₂
      exact leads_modify ⟨calls_put hnode (fun _ => rfl) (fun _ => rfl) h.code h₁.1, h.parameters,
        h.returns, h.arena⟩

theorem leads_converts_renameAll (order : List NodeId) (r : Renaming) :
    Leads (renameAll order) r (fun _ r' => Converts r.body r'.body) fun _ => True := by
  have hsealed (r₁ : Renaming) :
      Leads (sealReady order) r₁ (fun _ r' => Converts r₁.body r'.body) fun _ => True :=
    ((frames_sealReady order).spares r₁).mono fun _ r' h => h.converts
  refine (leads_forM (fun _ r' => Converts r.body r'.body) (.refl _) ?_).bind ?_
  · intro n rest r₁ _ h₁
    refine (hsealed r₁).bind fun _ r₂ h₂ => (leads_converts_renameNode n r₂).bind fun _ r₃ h₃ => ?_
    exact leads_modify (h₁.trans (h₂.trans h₃))
  · exact fun _ r₁ h₁ => (hsealed r₁).mono fun _ r₂ h₂ => h₁.trans h₂

/-- A conversion that succeeds keeps the callees of all operations and renames operands. -/
theorem converts_toSsa {b b' : Body} (h : b.toSsa = (.ok (), b')) : Converts b b' := by
  unfold toSsa at h
  split at h
  · cases h
    exact .refl b
  · dsimp only at h
    split at h
    · next r hrun =>
        cases h
        have hc := (leads_converts_renameAll b.reversePostorder (b.startRenaming _)).of_run hrun
        exact ⟨hc.calls, hc.parameters, hc.returns, hc.arena⟩
    · cases h

/-- After a conversion that succeeds, renamings are of the kind of what they rename. -/
theorem faithful_toSsa {b b' : Body} (h : b.toSsa = (.ok (), b')) (ha : b.arena.Faithful) :
    b'.arena.Faithful := ha.changes (converts_toSsa h).arena

theorem filterMap_callee?_eq (b : Body) :
    b.operations.filterMap (·.callee?) = b.calls.toList.flatten.filterMap id := by
  rw [calls, code, Array.toList_map, Array.toList_map, List.map_map, operations,
    List.filterMap_flatMap, List.filterMap_flatten, List.map_map, List.flatMap_def]
  congr 2
  funext node
  simp [List.filterMap_map, Function.comp_def]

/-- A conversion that succeeds keeps what the body calls, in order. -/
theorem callees_toSsa {b b' : Body} (h : b.toSsa = (.ok (), b')) :
    b'.operations.filterMap (·.callee?) = b.operations.filterMap (·.callee?) := by
  rw [filterMap_callee?_eq, filterMap_callee?_eq, (converts_toSsa h).calls]

/-! ## Conversions that fail -/

/-- However the step ends, renaming is all it has done to the arena. -/
def Alters {α : Type} (x : Rename α) : Prop :=
  ∀ r, Leaves x r fun r' => r.body.arena.Changes r'.body.arena

section Rules

variable {α β : Type} {x : Rename α} {f : α → Rename β}

theorem Frames.alters (h : Frames x) : Alters x := fun r =>
  (h r).imp (fun _ _ hframe => hframe.arena) fun _ _ hframe => hframe.arena

theorem alters_pure (a : α) : Alters (pure a) := (frames_pure a).alters

theorem Alters.bind (hx : Alters x) (hf : ∀ a, Alters (f a)) : Alters (x >>= f) := by
  intro r
  refine ends_bind ((hx r).imp (fun a r₁ h₁ => ?_) fun _ _ h₁ => h₁)
  exact (hf a r₁).imp (fun _ _ h₂ => h₁.trans h₂) fun _ _ h₂ => h₁.trans h₂

theorem alters_get {g : Renaming → Rename β} (h : ∀ r, Alters (g r)) : Alters (get >>= g) :=
  fun r => ends_bind (ends_get (h r r))

/-- A change of what is not the arena. -/
theorem alters_modify {g : Renaming → Renaming} (h : ∀ r, (g r).body.arena = r.body.arena) :
    Alters (modify g) := by
  intro r
  refine ends_modify ?_
  rw [h r]

theorem alters_forM {γ : Type} {f : γ → Rename PUnit} (h : ∀ x, Alters (f x)) (xs : List γ) :
    Alters (xs.forM f) := by
  induction xs with
  | nil => exact alters_pure PUnit.unit
  | cons x rest ih => exact (h x).bind fun _ => ih

theorem alters_mapM {γ : Type} {f : γ → Rename α} (h : ∀ x, Alters (f x)) (xs : List γ) :
    Alters (xs.mapM f) := by
  induction xs with
  | nil => exact alters_pure []
  | cons x rest ih =>
      rw [List.mapM_cons]
      exact (h x).bind fun _ => ih.bind fun _ => alters_pure _

end Rules

theorem alters_renameOperation (node : NodeId) (op : Operation) :
    Alters (renameOperation node op) := by
  refine (frames_renameReads node op.reads []).alters.bind fun renamed => ?_
  dsimp only
  split
  · exact (frames_renameWrite node _).alters.bind fun written => alters_pure _
  · exact alters_pure _

theorem alters_renameNode (n : NodeId) : Alters (renameNode n) := by
  refine alters_get fun r => ?_
  split
  · exact alters_pure _
  · next node _ =>
      refine Alters.bind (alters_modify fun _ => rfl) fun _ => ?_
      refine (alters_mapM (alters_renameOperation n) node.operations).bind fun operations => ?_
      refine (frames_renameReads n node.terminator.reads []).alters.bind fun renamed => ?_
      exact alters_modify fun _ => rfl

theorem alters_renameAll (order : List NodeId) : Alters (renameAll order) := by
  refine (alters_forM (fun node => ?_) order).bind fun _ => (frames_sealReady order).alters
  refine (frames_sealReady order).alters.bind fun _ => (alters_renameNode node).bind fun _ => ?_
  exact alters_modify fun _ => rfl

/-- A conversion changes the arena by renaming only, also where it fails half-way. -/
theorem changes_toSsa (b : Body) : b.arena.Changes b.toSsa.2.arena := by
  have hstate := (alters_renameAll b.reversePostorder (b.startRenaming b.reversePostorder)).state
  unfold toSsa
  split
  · exact .refl
  · dsimp only
    split
    · next r hrun =>
        rw [hrun] at hstate
        exact hstate
    · next e r hrun =>
        rw [hrun] at hstate
        exact hstate

end Body

end ContractCalls
