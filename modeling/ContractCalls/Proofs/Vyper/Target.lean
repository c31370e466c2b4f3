/-
# What a Vyper body writes to

Only statements write: the places are the targets of assignments, of whatever
form.  An expression is fixed if it gives a constant or a builtin: a literal, a
name that is no variable, a member of the environment that is no state
variable, or something that stands for one of these.  A bare name that is
written to has to be a variable, so a name is never a fixed place.

What is read from nodes declares variables only for reasons of failure that can
be recorded.
-/
import ContractCalls.Proofs.Vyper.Evaluation
import ContractCalls.Vyper.Lowering

namespace ContractCalls.Vyper

/-! ## Declarations -/

/-- Whatever is missing in a declaration can be recorded. -/
theorem Binding.isFatal_of_ofDeclaration {types : UserTypes} {n : Node} {e : FrontEndError}
    (h : ofDeclaration types n = .error e) : e.isFatal = false := by
  unfold ofDeclaration at h
  split at h
  · cases h
    rfl
  · split at h
    · cases h
      rfl
    · cases h

theorem Binding.isFatal_of_ofLoop {types : UserTypes} {n : Node} {e : FrontEndError}
    (h : ofLoop types n = .error e) : e.isFatal = false := by
  have hnamed : ∀ {n ty}, ofLoop.named n ty = .error e → e.isFatal = false := by
    intro n ty h
    unfold ofLoop.named at h
    split at h
    · cases h
    · cases h
      rfl
  unfold ofLoop at h
  split at h
  · cases h
    rfl
  · split at h
    · split at h
      · cases h
        rfl
      · exact hnamed h
    · exact hnamed h
    · cases h
      rfl

/-- The parameters are read in order, so the error is that of one of them. -/
theorem Binding.isFatal_of_parameters {types : UserTypes} {ns : List Node} {e : FrontEndError}
    (h : ns.mapM (ofParameter types) = .error e) : e.isFatal = false := by
  induction ns with
  | nil => cases h
  | cons n rest ih =>
      rw [List.mapM_cons] at h
      cases hn : ofParameter types n with
      | error e' =>
          rw [hn] at h
          cases h
          unfold ofParameter at hn
          split at hn
          · cases hn
          · cases hn
            rfl
      | ok binding =>
          rw [hn] at h
          cases hrest : rest.mapM (ofParameter types) with
          | error e' =>
              rw [hrest] at h
              cases h
              exact ih hrest
          | ok bindings =>
              rw [hrest] at h
              cases h

/-! ## What a body writes to -/

namespace Expr

/-- The value of the expression is a constant or a builtin, if no local variable has its name. -/
def isFixed (layout : Layout) : Expr → Bool
  | .literal _ _ | .unlisted _ _ => true
  | .name id => (layout.states.get? id).isNone
  | .member (.name id) field =>
      environmentNames.contains id && !(id == "self" && (layout.states.get? field).isSome)
  | .marked _ inner => inner.isFixed layout
  | .logical _ [operand] => operand.isFixed layout
  | _ => false

/-- An assignment to the expression would write a constant or a builtin. -/
def isFixedPlace (layout : Layout) : Expr → Bool
  | .name _ => false
  | e => e.isFixed layout

end Expr

namespace Stmt

/-- The statements right below a statement. -/
def children : Stmt → List Stmt
  | .located _ inner => [inner]
  | .ifElse _ yes no => yes ++ no
  | .forEach _ _ body => body
  | _ => []

/-- The first statement is the second or stands somewhere below it. -/
def Within : Stmt → Stmt → Prop := Relation.ReflTransGen fun c s => c ∈ s.children

/-- The places that a statement itself writes to. -/
def written : Stmt → List Expr
  | .assign target _ | .update _ target _ => [target]
  | .assignAll targets _ => targets
  | _ => []

/-- The variable that a statement declares. -/
def binding? : Stmt → Option (Except FrontEndError Binding)
  | .declare binding _ | .forEach binding _ _ => some binding
  | _ => none

/-- The statement writes to the place. -/
def Writes (s : Stmt) (place : Expr) : Prop :=
  ∃ inner : Stmt, inner.Within s ∧ place ∈ inner.written

/-! ## Reading statements -/

/-- What stands in a tree of statements that is read from nodes. -/
inductive Read (types : UserTypes) (locate : Node → Option Span) : Stmt → Prop
  | node (n : Node) : Read types locate (ofNode types locate n)
  | inner {n : Node} {s : Stmt} (h : ofNode types locate n = .located (locate n) s) :
      Read types locate s

/-- The reason why a variable cannot be declared can be recorded. -/
def Declares (s : Stmt) : Prop := ∀ e, s.binding? = some (.error e) → e.isFatal = false

variable {types : UserTypes} {locate : Node → Option Span}

theorem read_map (ns : List Node) : ∀ s ∈ ns.map (ofNode types locate), Read types locate s :=
  List.forall_mem_map.mpr fun n _ => .node n

theorem readBelow_inner {n : Node} {s : Stmt}
    (h : ofNode types locate n = .located (locate n) s) :
    (∀ c ∈ s.children, Read types locate c) ∧ s.Declares := by
  rw [ofNode] at h
  obtain rfl := (Stmt.located.inj h).2
  simp only [Node.mapNodes_eq]
  have hnone : ∀ {s : Stmt}, s.binding? = none → s.Declares := fun hs e he =>
    absurd (hs.symm.trans he) nofun
  split
  case h_1 =>
    refine ⟨List.forall_mem_nil _, fun e he => ?_⟩
    exact Binding.isFatal_of_ofDeclaration (Option.some.inj he)
  case h_2 =>
    unfold assignment
    split
    · split <;> exact ⟨List.forall_mem_nil _, hnone rfl⟩
    · exact ⟨List.forall_mem_nil _, hnone rfl⟩
  case h_4 =>
    unfold ofPart
    split <;> exact ⟨List.forall_mem_nil _, hnone rfl⟩
  case h_5 =>
    unfold ofPart
    split <;> exact ⟨List.forall_mem_nil _, hnone rfl⟩
  case h_7 => exact ⟨List.forall_mem_append.mpr ⟨read_map _, read_map _⟩, hnone rfl⟩
  case h_8 =>
    refine ⟨read_map _, fun e he => ?_⟩
    exact Binding.isFatal_of_ofLoop (Option.some.inj he)
  all_goals exact ⟨List.forall_mem_nil _, hnone rfl⟩

theorem Read.below {s : Stmt} (h : Read types locate s) :
    (∀ c ∈ s.children, Read types locate c) ∧ s.Declares := by
  cases h with
  | inner h => exact readBelow_inner h
  | node n =>
      have hlocated : ∃ s, ofNode types locate n = .located (locate n) s := by
        rw [ofNode]
        exact ⟨_, rfl⟩
      obtain ⟨s, hs⟩ := hlocated
      rw [hs]
      refine ⟨List.forall_mem_singleton.mpr (.inner hs), fun e he => ?_⟩
      cases he

theorem Read.within {s t : Stmt} (h : Read types locate s) (ht : t.Within s) :
    Read types locate t := by
  induction ht using Relation.ReflTransGen.head_induction_on with
  | refl => exact h
  | head hchild _ ih => exact ih.below.1 _ hchild

end Stmt

end ContractCalls.Vyper
