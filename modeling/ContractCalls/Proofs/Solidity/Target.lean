/-
# What a Solidity body writes to

The places that a body writes to are the targets of its assignments and the
operands of `++`, `--` and `delete`, wherever they stand in its expressions.
Most expressions give an operand that may be written; an expression is fixed if
it gives a constant or a builtin instead: a literal, a type, a name that is no
variable, a member of a namespace, or something that stands for one of these.

The parts of an expression are reached from it by going to one of the
expressions right below it again and again.  A fact about everything that is
read from nodes needs to look one step down only.
-/
import ContractCalls.Proofs.Solidity.Evaluation
import ContractCalls.Solidity.Lowering

namespace ContractCalls.Solidity

namespace Expr

/-- The expressions right below an expression that are evaluated with it. -/
def children : Expr → List Expr
  | .member _ base _ _ => [base]
  | .index _ base key => [base, key]
  | .range _ base bounds => base :: bounds
  | .binary _ _ left right => [left, right]
  | .unary _ _ operand => [operand]
  | .assign _ _ _ target source => [target, source]
  | .assignAll _ targets source => source :: targets.filterMap id
  | .conditional _ condition yes no => [condition, yes, no]
  | .tuple _ _ components => components.filterMap id
  | .call _ _ options callee arguments _ => callee :: (options ++ arguments)
  | .withOptions _ function => [function]
  | _ => []

/-- The first expression is the second or stands somewhere below it. -/
def Within : Expr → Expr → Prop := Relation.ReflTransGen fun c e => c ∈ e.children

/-- The places that an expression itself writes to. -/
def written : Expr → List Expr
  | .unary _ form operand => if form.writes then [operand] else []
  | .assign _ _ _ target _ => [target]
  | .assignAll _ targets _ => targets.filterMap id
  | _ => []

/-- The value of the expression is a constant or a builtin. -/
def isFixed (env : Env) : Expr → Bool
  | .literal _ _ | .arrayType _ _ | .typeName _ _ | .creation _ _ => true
  | .identifier _ _ declaration =>
      match env.index.declaration? declaration with
      | some (.stateVariable _ _ _) | some (.fileConstant _ _) => false
      | some _ => true
      | none => isPredeclared declaration
  | .member _ base _ _ => base.isNamespace
  | .unary _ .plain operand => operand.isFixed env
  | .assignAll _ _ source => source.isFixed env
  | .tuple _ false [some inner] => inner.isFixed env
  | .withOptions _ function => function.isFixed env
  | _ => false

/-! ## Reading expressions -/

/-- What stands in a tree of expressions that is read from nodes. -/
inductive Read : Expr → Prop
  | node (n : Node) : Read (ofNode n)
  | absent (field nodeType : String) : Read (.absent field nodeType)
  | typeName (text : TypeText) (name : Option String) : Read (.typeName text name)

theorem read_getD (n : Option Node) (field nodeType : String) :
    Read ((n.map ofNode).getD (.absent field nodeType)) := by
  cases n with
  | none => exact .absent field nodeType
  | some n => exact .node n

theorem read_placeOfNode (n : Node) : Read (placeOfNode n) := by
  induction n using Node.partInduction with
  | step n ih =>
      rw [placeOfNode_eq]
      cases hinner : n.parenthesized? with
      | none => exact .node n
      | some inner => exact ih inner (Node.isPart_of_parenthesized? hinner)

theorem read_receiver (n : Option Node) (field nodeType : String) :
    Read ((n.map receiverOfNode).getD (.absent field nodeType)) := by
  cases n with
  | none => exact .absent field nodeType
  | some n =>
      show Read (receiverOfNode n)
      unfold receiverOfNode
      split
      · exact .typeName _ _
      · exact .node n

theorem read_place (n : Option Node) (field nodeType : String) :
    Read ((n.map placeOfNode).getD (.absent field nodeType)) := by
  cases n with
  | none => exact .absent field nodeType
  | some n => exact read_placeOfNode n

theorem read_map (ns : List Node) : ∀ e ∈ ns.map ofNode, Read e :=
  List.forall_mem_map.mpr fun n _ => .node n

theorem read_toList (n : Option Node) : ∀ e ∈ (n.map ofNode).toList, Read e := by
  cases n with
  | none => exact List.forall_mem_nil _
  | some n => exact List.forall_mem_singleton.mpr (.node n)

theorem read_present {f : Node → Expr} (hf : ∀ n, Read (f n)) (ns : List (Option Node)) :
    ∀ e ∈ (ns.map (Option.map f)).filterMap id, Read e := by
  intro e he
  obtain ⟨part, hpart, rfl⟩ := List.mem_filterMap.mp he
  obtain ⟨n, -, hn⟩ := List.mem_map.mp hpart
  obtain ⟨c, -, rfl⟩ := Option.map_eq_some_iff.mp hn
  exact hf c

/-- The options and the callee of a call. -/
theorem read_callee (n : Option Node) (field nodeType : String) :
    Read ((n.map calleeOfNode).getD ([], .absent field nodeType)).2 ∧
      ∀ e ∈ ((n.map calleeOfNode).getD ([], .absent field nodeType)).1, Read e := by
  cases n with
  | none => exact ⟨.absent field nodeType, List.forall_mem_nil _⟩
  | some n =>
      rw [Option.map_some, Option.getD_some, calleeOfNode_eq]
      exact ⟨read_getD _ _ _, read_map _⟩

/-- Below the expression of a node there is only what is read from nodes. -/
theorem read_children (n : Node) : ∀ c ∈ (ofNode n).children, Read c := by
  by_cases h : n.nodeType = "Assignment"
  · rw [ofNode_assignment h, required_eq]
    split
    · split
      · refine List.forall_mem_cons.mpr ⟨read_getD _ _ _, ?_⟩
        exact read_present read_placeOfNode _
      · refine List.forall_mem_cons.mpr ⟨read_placeOfNode _, ?_⟩
        exact List.forall_mem_singleton.mpr (read_getD _ _ _)
    · refine List.forall_mem_cons.mpr ⟨.absent _ _, ?_⟩
      exact List.forall_mem_singleton.mpr (read_getD _ _ _)
  rw [ofNode]
  simp only [Node.mapField_eq, Node.mapFields_eq, Node.mapOptionalFields_eq]
  split
  case h_3 => exact List.forall_mem_singleton.mpr (read_receiver _ _ _)
  case h_4 =>
    split
    · next key hkey =>
        obtain ⟨c, -, rfl⟩ := Option.map_eq_some_iff.mp hkey
        refine List.forall_mem_cons.mpr ⟨read_getD _ _ _, ?_⟩
        exact List.forall_mem_singleton.mpr (.node c)
    · exact List.forall_mem_nil _
  case h_5 =>
    refine List.forall_mem_cons.mpr ⟨read_getD _ _ _, ?_⟩
    exact List.forall_mem_append.mpr ⟨read_toList _, read_toList _⟩
  case h_6 =>
    refine List.forall_mem_cons.mpr ⟨read_getD _ _ _, ?_⟩
    exact List.forall_mem_singleton.mpr (read_getD _ _ _)
  case h_7 =>
    split
    · exact List.forall_mem_singleton.mpr (read_place _ _ _)
    · exact List.forall_mem_singleton.mpr (read_getD _ _ _)
  case h_8 hassignment => exact absurd hassignment h
  case h_9 =>
    refine List.forall_mem_cons.mpr ⟨read_getD _ _ _, ?_⟩
    refine List.forall_mem_cons.mpr ⟨read_getD _ _ _, ?_⟩
    exact List.forall_mem_singleton.mpr (read_getD _ _ _)
  case h_10 => exact read_present .node _
  case h_11 =>
    obtain ⟨hcallee, hoptions⟩ := read_callee (n.field? "expression") "expression" n.nodeType
    exact List.forall_mem_cons.mpr ⟨hcallee, List.forall_mem_append.mpr ⟨hoptions, read_map _⟩⟩
  case h_12 => exact List.forall_mem_singleton.mpr (read_getD _ _ _)
  all_goals exact List.forall_mem_nil _

theorem Read.child {e c : Expr} (h : Read e) (hc : c ∈ e.children) : Read c := by
  cases h with
  | node n => exact read_children n c hc
  | absent field nodeType => exact absurd hc List.not_mem_nil
  | typeName text name => exact absurd hc List.not_mem_nil

theorem Read.within {e s : Expr} (h : Read e) (hs : s.Within e) : Read s := by
  induction hs using Relation.ReflTransGen.head_induction_on with
  | refl => exact h
  | head hchild _ ih => exact ih.child hchild

/-- The tokens that are left to an operation of their own have one. -/
theorem Read.token {text : TypeText} {token : String} {operand : Expr}
    (h : Read (.unary text (.direct token) operand)) : token ∈ ["!", "~"] := by
  generalize he : Expr.unary text (.direct token) operand = e at h
  cases h with
  | absent field nodeType => cases he
  | typeName text name => cases he
  | node n =>
      have hkind : n.nodeType = "UnaryOperation" := nodeType_of_ofNode he.symm
      have hform : UnaryForm.ofNode n = .direct token := by
        rw [ofNode] at he
        simp only [hkind, Expr.unary.injEq] at he
        exact he.2.1.symm
      unfold UnaryForm.ofNode at hform
      split at hform
      all_goals cases hform
      · simp
      · simp

end Expr

/-! ## Statements -/

/-- What a clause does. -/
def Clause.body : Clause → Stmt
  | .clause _ body => body

namespace Stmt

/-- The statements right below a statement. -/
def children : Stmt → List Stmt
  | .located _ inner => [inner]
  | .block body => body
  | .ifThen _ yes => [yes]
  | .ifElse _ yes no => [yes, no]
  | .whileLoop _ body | .doWhile body _ => [body]
  | .forLoop start _ next body => [start, next, body]
  | .tryCatch _ cases => cases.map Clause.body
  | _ => []

/-- The expressions right below a statement. -/
def expressions : Stmt → List Expr
  | .expression e | .tryCatch e _ => [e]
  | .declare _ initial => initial.toList
  | .ifThen condition _ | .ifElse condition _ _ | .whileLoop condition _ | .doWhile _ condition =>
      [condition]
  | .forLoop _ condition _ _ => condition.toList
  | .ret values => values.getD []
  | .revert call => call.toList
  | _ => []

/-- The first statement is the second or stands somewhere below it. -/
def Within : Stmt → Stmt → Prop := Relation.ReflTransGen fun c s => c ∈ s.children

/-- The expression stands somewhere in the statement. -/
def Evaluates (s : Stmt) (e : Expr) : Prop :=
  ∃ (inner : Stmt) (root : Expr), inner.Within s ∧ root ∈ inner.expressions ∧ e.Within root

/-- The statement writes to the place. -/
def Writes (s : Stmt) (place : Expr) : Prop := ∃ e, s.Evaluates e ∧ place ∈ e.written

theorem Evaluates.child {s c : Stmt} (hc : c ∈ s.children) {e : Expr} (h : c.Evaluates e) :
    s.Evaluates e := by
  obtain ⟨inner, root, hinner, hroot, he⟩ := h
  exact ⟨inner, root, hinner.tail hc, hroot, he⟩

theorem Evaluates.own {s : Stmt} {root e : Expr} (hroot : root ∈ s.expressions)
    (he : e.Within root) : s.Evaluates e :=
  ⟨s, root, .refl, hroot, he⟩

/-! ## Reading statements -/

/-- What stands in a tree of statements that is read from nodes. -/
inductive Read (locate : Node → Option Span) : Stmt → Prop
  | node (n : Node) : Read locate (ofNode locate n)
  | inner {n : Node} {s : Stmt} (h : ofNode locate n = .located (locate n) s) : Read locate s
  | skip : Read locate .skip

variable {locate : Node → Option Span}

theorem read_getD (n : Option Node) : Read locate ((n.map (ofNode locate)).getD .skip) := by
  cases n with
  | none => exact .skip
  | some n => exact .node n

theorem read_map (ns : List Node) : ∀ s ∈ ns.map (ofNode locate), Read locate s :=
  List.forall_mem_map.mpr fun n _ => .node n

/-- Everything right below the statement is read from nodes. -/
def ReadBelow (locate : Node → Option Span) (s : Stmt) : Prop :=
  (∀ c ∈ s.children, Read locate c) ∧ ∀ e ∈ s.expressions, e.Read

theorem readBelow_ofPart (n : Node) (key : String) : ReadBelow locate (ofPart n key) := by
  unfold ofPart
  split
  · next e he =>
      obtain ⟨c, -, rfl⟩ := Option.map_eq_some_iff.mp he
      exact ⟨List.forall_mem_nil _, List.forall_mem_singleton.mpr (.node c)⟩
  · exact ⟨List.forall_mem_nil _, List.forall_mem_nil _⟩

theorem read_returnValues? (n : Node) : ∀ e ∈ (returnValues? n).getD [], e.Read := by
  unfold returnValues?
  cases n.field? "expression" with
  | none => exact List.forall_mem_nil _
  | some value =>
      show ∀ e ∈ if value.is "TupleExpression" then _ else _, _
      split
      · exact Expr.read_map _
      · exact List.forall_mem_singleton.mpr (.node value)

/-- Right below the statement of a node, behind its position. -/
theorem readBelow_inner {n : Node} {s : Stmt} (h : ofNode locate n = .located (locate n) s) :
    ReadBelow locate s := by
  rw [ofNode] at h
  obtain rfl := (Stmt.located.inj h).2
  simp only [Node.mapField_eq, Node.mapFields_eq]
  have hrequired : ∀ key, ∀ e ∈ [Expr.required n key], e.Read := fun key =>
    List.forall_mem_singleton.mpr (Expr.required_eq n key ▸ Expr.read_getD _ _ _)
  split
  case h_1 => exact ⟨read_map _, List.forall_mem_nil _⟩
  case h_2 => exact ⟨read_map _, List.forall_mem_nil _⟩
  case h_3 => exact readBelow_ofPart n _
  case h_4 => exact ⟨List.forall_mem_nil _, Expr.read_toList _⟩
  case h_5 =>
    split
    · next no hno =>
        obtain ⟨c, -, rfl⟩ := Option.map_eq_some_iff.mp hno
        refine ⟨List.forall_mem_cons.mpr ⟨read_getD _, ?_⟩, hrequired _⟩
        exact List.forall_mem_singleton.mpr (.node c)
    · exact ⟨List.forall_mem_singleton.mpr (read_getD _), hrequired _⟩
  case h_6 => exact ⟨List.forall_mem_singleton.mpr (read_getD _), hrequired _⟩
  case h_7 => exact ⟨List.forall_mem_singleton.mpr (read_getD _), hrequired _⟩
  case h_8 =>
    refine ⟨List.forall_mem_cons.mpr ⟨read_getD _, ?_⟩, Expr.read_toList _⟩
    refine List.forall_mem_cons.mpr ⟨read_getD _, ?_⟩
    exact List.forall_mem_singleton.mpr (read_getD _)
  case h_11 => exact ⟨List.forall_mem_nil _, read_returnValues? n⟩
  case h_12 => exact readBelow_ofPart n _
  case h_13 => exact ⟨List.forall_mem_nil _, Expr.read_toList _⟩
  case h_15 =>
    refine ⟨fun body hbody => ?_, hrequired _⟩
    obtain ⟨clause, hclause, rfl⟩ := List.mem_map.mp hbody
    obtain ⟨c, -, rfl⟩ := List.mem_map.mp hclause
    exact read_getD (c.field? "block")
  all_goals exact ⟨List.forall_mem_nil _, List.forall_mem_nil _⟩

theorem Read.below {s : Stmt} (h : Read locate s) : ReadBelow locate s := by
  cases h with
  | inner h => exact readBelow_inner h
  | skip => exact ⟨List.forall_mem_nil _, List.forall_mem_nil _⟩
  | node n =>
      have hlocated : ∃ s, ofNode locate n = .located (locate n) s := by
        rw [ofNode]
        exact ⟨_, rfl⟩
      obtain ⟨s, hs⟩ := hlocated
      rw [hs]
      exact ⟨List.forall_mem_singleton.mpr (.inner hs), List.forall_mem_nil _⟩

theorem Read.within {s t : Stmt} (h : Read locate s) (ht : t.Within s) : Read locate t := by
  induction ht using Relation.ReflTransGen.head_induction_on with
  | refl => exact h
  | head hchild _ ih => exact ih.below.1 _ hchild

/-- Every expression in a statement that is read is read from a node as well. -/
theorem Read.evaluates {s : Stmt} (h : Read locate s) {e : Expr} (he : s.Evaluates e) :
    e.Read := by
  obtain ⟨inner, root, hinner, hroot, hwithin⟩ := he
  exact ((h.within hinner).below.2 root hroot).within hwithin

end Stmt

end ContractCalls.Solidity
