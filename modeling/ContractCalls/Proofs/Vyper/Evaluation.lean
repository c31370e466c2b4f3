/-
# Evaluated positions of a Vyper tree

Which nodes of a function are evaluated is said here by the fields of the
grammar.  An expression evaluates the expressions in its fields, of whatever
kind it is; left out are annotations, operators, the keys of dictionaries and,
in the construction of a structure, its name and the arguments by position
other than the first dictionary.  A statement evaluates the expressions in its
fields, the variables it declares and their annotations left out, and the
statements in its blocks.  Nothing is said about whether control ever gets
there.

A call in such a position has a callee by how its function reads in source.
Main statement: the syntax read from a tree has the callees of the evaluated
calls, and no others.
-/
import ContractCalls.Proofs.Vyper.Calls
import ContractCalls.Vyper.Decode
import Mathlib

namespace ContractCalls.Vyper

namespace Node

/-! ## Positions -/

/-- A field that holds one node. -/
def one (n : Node) (key : String) : List Node := (n.child? key).toList

/-- The values of the arguments by keyword. -/
def keywordValues (n : Node) : List Node := (n.nodes "keywords").filterMap (·.child? "value")

/-- The values of the first dictionary among the arguments. -/
def dictionaryValues (n : Node) : List Node :=
  (((n.nodes "args").find? (·.is "Dict")).map (·.nodes "values")).getD []

/-- The called expression is the name of a structure. -/
def constructs (structs : List String) (n : Node) : Bool :=
  (n.child? "func").any fun f => f.is "Name" && (f.text? "id").any structs.contains

/-- The nodes that an expression evaluates right below it. -/
def operands (structs : List String) (n : Node) : List Node :=
  match n.astType with
  | "NameConstant" | "Str" | "Decimal" | "Hex" | "HexBytes" | "Bytes" | "Int" | "Name" => []
  | "Attribute" | "ExtCall" | "StaticCall" => n.one "value"
  | "Subscript" => n.one "value" ++ n.slice?.toList
  | "Call" =>
      if n.constructs structs then n.dictionaryValues ++ n.keywordValues
      else n.one "func" ++ (n.nodes "args" ++ n.keywordValues)
  | "BinOp" | "Compare" => n.one "left" ++ n.one "right"
  | "BoolOp" | "Dict" => n.nodes "values"
  | "UnaryOp" => n.one "operand"
  | "Tuple" | "List" => n.nodes "elements"
  | "IfExp" => n.one "test" ++ (n.one "body" ++ n.one "orelse")
  | _ => n.children

/-- `n` evaluates the expression `m`, itself or somewhere below it. -/
inductive Evaluates (structs : List String) : Node → Node → Prop where
  | self (n : Node) : Evaluates structs n n
  | operand {n p m : Node} : p ∈ n.operands structs → Evaluates structs p m →
      Evaluates structs n m

/-- The expressions of a statement. -/
def expressions (n : Node) : List Node :=
  match n.astType with
  | "AnnAssign" | "Expr" | "Log" | "Return" => n.one "value"
  | "Assign" | "AugAssign" => n.one "value" ++ n.one "target"
  | "If" => n.one "test"
  | "For" => n.one "iter"
  | "Assert" => n.one "test" ++ n.one "msg"
  | "Raise" => n.one "exc"
  | "Pass" | "Break" | "Continue" => []
  | _ => n.children

/-- The statements in the blocks of a statement. -/
def block (n : Node) : List Node :=
  match n.astType with
  | "If" => n.nodes "body" ++ n.nodes "orelse"
  | "For" => n.nodes "body"
  | _ => []

/-- The statement `n` evaluates the expression `m`, itself or in a block of its own. -/
inductive Executes (structs : List String) : Node → Node → Prop where
  | expression {n e m : Node} : e ∈ n.expressions → Evaluates structs e m → Executes structs n m
  | block {n s m : Node} : s ∈ n.block → Executes structs s m → Executes structs n m

/-! ## Callees -/

/-- The node reads `self.name`. -/
def isOwnMember (n : Node) : Bool :=
  n.is "Attribute" && (n.child? "value").any fun base =>
    base.is "Name" && base.text? "id" == some "self"

/-- Whom a call of the expression `n` calls: a builtin by its name; a function of the module behind
`self`, by its id if the module defines it, else by the names of contract and function; and by how
it reads in source whatever is called outside. -/
def target (layout : Layout) (n : Node) : Callee :=
  if n.is "Name" then .builtin ((n.text? "id").getD "")
  else if n.isOwnMember then
    match layout.functions.get? ((n.text? "attr").getD "") with
    | some id => .internal id
    | none => .unresolved .internal (layout.contractName ++ "." ++ (n.text? "attr").getD "")
  else .highLevel none (.unresolved n.chain)

/-- Whom a node calls, if it is a call; the construction of a structure calls nobody. -/
def callee? (layout : Layout) (n : Node) : Option Callee :=
  if n.is "Call" && !n.constructs layout.types.structs then
    (n.child? "func").map (·.target layout)
  else none

theorem isSome_constructed? (structs : List String) (n : Node) :
    (constructed? structs n).isSome = n.constructs structs := by
  unfold constructed? constructs
  cases n.child? "func" with
  | none => rfl
  | some f =>
      cases hid : f.text? "id" with
      | none => simp [hid]
      | some id =>
          by_cases hname : f.is "Name" <;> by_cases hid' : id ∈ structs <;>
            simp [hid, hname, hid']

/-! ## Mapping over parts -/

section Mapping

variable {α : Type} (n : Node) (key : String) (f : Node → α)

theorem mapChild_eq : n.mapChild key (fun c _ => f c) = (n.child? key).map f := by
  unfold mapChild
  split
  · next c h => exact (congrArg (Option.map f) h).symm
  · next h => exact (congrArg (Option.map f) h).symm

theorem mapSlice_eq : n.mapSlice (fun c _ => f c) = n.slice?.map f := by
  unfold mapSlice
  split
  · next c h => exact (congrArg (Option.map f) h).symm
  · next h => exact (congrArg (Option.map f) h).symm

theorem mapNodes_eq : n.mapNodes key (fun c _ => f c) = (n.nodes key).map f := List.attach_map_val

theorem mapChildren_eq : n.mapChildren (fun c _ => f c) = n.children.map f := List.attach_map_val

end Mapping

theorem isPart_of_one {n p : Node} {key : String} (h : p ∈ n.one key) : IsPart p n :=
  isPart_of_child? (Option.mem_toList.1 h)

theorem isPart_of_keywordValues {n p : Node} (h : p ∈ n.keywordValues) : IsPart p n := by
  obtain ⟨k, hk, hp⟩ := List.mem_filterMap.1 h
  exact Nat.lt_trans (isPart_of_child? hp) (isPart_of_nodes hk)

theorem isPart_of_dictionaryValues {n p : Node} (h : p ∈ n.dictionaryValues) : IsPart p n := by
  unfold dictionaryValues at h
  cases hfind : (n.nodes "args").find? (·.is "Dict") with
  | none => simp [hfind] at h
  | some dict =>
      rw [hfind] at h
      exact Nat.lt_trans (isPart_of_nodes h) (isPart_of_nodes (List.mem_of_find?_eq_some hfind))

/-- What a node evaluates is smaller. -/
theorem isPart_of_operands {structs : List String} {n p : Node} (h : p ∈ n.operands structs) :
    IsPart p n := by
  have hone (key : String) : p ∈ n.one key → IsPart p n := isPart_of_one
  have hmany (key : String) : p ∈ n.nodes key → IsPart p n := isPart_of_nodes
  have hslice : p ∈ n.slice?.toList → IsPart p n := fun h => isPart_of_slice? (Option.mem_toList.1 h)
  have hkeywords : p ∈ n.keywordValues → IsPart p n := isPart_of_keywordValues
  have hdictionary : p ∈ n.dictionaryValues → IsPart p n := isPart_of_dictionaryValues
  have hchildren : p ∈ n.children → IsPart p n := isPart_of_children
  unfold operands at h
  split at h <;> grind

theorem isPart_of_block {n p : Node} (h : p ∈ n.block) : IsPart p n := by
  unfold block at h
  split at h
  · exact (List.mem_append.1 h).elim isPart_of_nodes isPart_of_nodes
  · exact isPart_of_nodes h
  · cases h

end Node

/-! ## Reading expressions -/

section Reading

variable (layout : Layout)

/-- The callees of the expressions of nodes. -/
def calleesAt (ns : List Node) : List Callee :=
  ns.flatMap fun n => (Expr.ofNode layout.types.structs n).callees layout

theorem calleesAt_append (ms ns : List Node) :
    calleesAt layout (ms ++ ns) = calleesAt layout ms ++ calleesAt layout ns :=
  List.flatMap_append

theorem calleesOf_map (ns : List Node) :
    calleesOf layout (ns.map (Expr.ofNode layout.types.structs)) = calleesAt layout ns := by
  rw [calleesOf_eq, List.flatMap_map]
  rfl

theorem calleesOf_append (es fs : List Expr) :
    calleesOf layout (es ++ fs) = calleesOf layout es ++ calleesOf layout fs := by
  simp only [calleesOf_eq, List.flatMap_append]

/-- A missing part calls nobody. -/
theorem callees_getD (part : Option Node) (field nodeType : String) :
    ((part.map (Expr.ofNode layout.types.structs)).getD (.absent field nodeType)).callees layout =
      calleesAt layout part.toList := by
  cases part with
  | none => rfl
  | some n => simp [calleesAt]

/-- The kinds of literals. -/
def literalKinds : List String := ["NameConstant", "Str", "Decimal", "Hex", "HexBytes", "Bytes", "Int"]

theorem mem_literalKinds_of_value? {n : Node} {value : Constant × Ty}
    (h : Literal.value? n = some value) : n.astType ∈ literalKinds := by
  unfold Literal.value? at h
  simp only at h
  split at h
  case h_8 => cases h
  all_goals simp [literalKinds, *]

theorem value?_of_mem_literalKinds {n : Node} (h : n.astType ∈ literalKinds) :
    Literal.value? n ≠ none := by
  simp only [literalKinds, List.mem_cons, List.not_mem_nil, or_false] at h
  unfold Literal.value?
  simp only
  rcases h with h | h | h | h | h | h | h <;> simp only [h] <;> (try split) <;> exact nofun

theorem operands_of_literal {structs : List String} {n : Node} (h : n.astType ∈ literalKinds) :
    n.operands structs = [] := by
  simp only [literalKinds, List.mem_cons, List.not_mem_nil, or_false] at h
  rcases h with h | h | h | h | h | h | h <;> simp [Node.operands, h]

theorem callee?_of_ne {n : Node} (h : n.astType ≠ "Call") : n.callee? layout = none := by
  simp [Node.callee?, Node.is, h]

/-- The arguments by keyword are the expressions of their values. -/
theorem map_snd_keywords (structs : List String) (n : Node) :
    (((n.nodes "keywords").map fun k => (k.child? "value").map fun c =>
        ((k.text? "arg").getD "", Expr.ofNode structs c)).filterMap id).map Prod.snd =
      n.keywordValues.map (Expr.ofNode structs) := by
  rw [Node.keywordValues, List.filterMap_map, List.map_filterMap, List.map_filterMap]
  congr 1
  funext k
  simp only [Function.comp_apply, id]
  cases k.child? "value" with
  | none => rfl
  | some c => rfl

/-- The members that a dictionary gives are the expressions of its values. -/
theorem snd_members (structs : List String) (n : Node) :
    ((((n.nodes "args").map fun d =>
        if d.is "Dict" then
          some (memberNames d, (d.nodes "values").map (Expr.ofNode structs))
        else none).findSome? id).getD ([], [])).2 =
      n.dictionaryValues.map (Expr.ofNode structs) := by
  unfold Node.dictionaryValues
  induction n.nodes "args" with
  | nil => rfl
  | cons d rest ih =>
      by_cases hd : d.is "Dict" = true
      · simp [hd]
      · simpa [hd] using ih

/-- An expression that is neither missing nor a name nor a member. -/
def Expr.isComputed : Expr → Bool
  | .absent _ _ | .name _ | .member _ _ => false
  | _ => true

theorem isComputed_ofNode (structs : List String) {n : Node} (hname : n.astType ≠ "Name")
    (hmember : n.astType ≠ "Attribute") : (Expr.ofNode structs n).isComputed := by
  rw [Expr.ofNode]
  split
  · rfl
  · split
    case h_1 h => exact absurd h hname
    case h_2 h => exact absurd h hmember
    case h_4 => split <;> rfl
    all_goals rfl

theorem ofNode_name (structs : List String) {n : Node} (h : n.astType = "Name") :
    Expr.ofNode structs n = .name ((n.text? "id").getD "") := by
  rw [Expr.ofNode]
  simp [Literal.value?, h]

theorem ofNode_attribute (structs : List String) {n : Node} (h : n.astType = "Attribute") :
    Expr.ofNode structs n =
      .member (((n.child? "value").map (Expr.ofNode structs)).getD (.absent "value" n.astType))
        ((n.text? "attr").getD "") := by
  rw [Expr.ofNode]
  simp [Literal.value?, h, Node.mapChild_eq]

theorem isSelf_ofNode (structs : List String) (n : Node) :
    (Expr.ofNode structs n).isSelf = (n.is "Name" && n.text? "id" == some "self") := by
  by_cases hname : n.astType = "Name"
  · rw [ofNode_name structs hname]
    cases hid : n.text? "id" with
    | none => simp [Expr.isSelf, Node.is, hname]
    | some id => simp [Expr.isSelf, Node.is, hname]
  · have hfalse : n.is "Name" = false := by simp [Node.is, hname]
    rw [hfalse, Bool.false_and]
    by_cases hmember : n.astType = "Attribute"
    · rw [ofNode_attribute structs hmember]
      rfl
    · have hcomputed := isComputed_ofNode structs hname hmember
      cases h : Expr.ofNode structs n with
      | name id => rw [h] at hcomputed; cases hcomputed
      | _ => rfl

/-- The target of a call is read off the node of the callee. -/
theorem target?_ofNode (n : Node) :
    layout.target? (Expr.ofNode layout.types.structs n) n.chain = some (n.target layout) := by
  unfold Node.target
  by_cases hname : n.astType = "Name"
  · rw [ofNode_name _ hname]
    simp [Layout.target?, Node.is, hname]
  · rw [if_neg (by simp [Node.is, hname])]
    by_cases hmember : n.astType = "Attribute"
    · have hself : (((n.child? "value").map (Expr.ofNode layout.types.structs)).getD
          (.absent "value" n.astType)).isSelf = n.isOwnMember := by
        rw [Node.isOwnMember, show n.is "Attribute" = true by simp [Node.is, hmember], Bool.true_and]
        cases n.child? "value" with
        | none => rfl
        | some base => exact isSelf_ofNode _ base
      rw [ofNode_attribute _ hmember, Layout.target?, hself]
      rfl
    · have hcomputed := isComputed_ofNode layout.types.structs hname hmember
      rw [Node.isOwnMember, show n.is "Attribute" = false by simp [Node.is, hmember],
        Bool.false_and, if_neg Bool.false_ne_true]
      cases h : Expr.ofNode layout.types.structs n with
      | absent | name | member => rw [h] at hcomputed; cases hcomputed
      | _ => rfl

/-- The callees of an expression are those of its operands and its own. -/
theorem callees_ofNode (n : Node) :
    (Expr.ofNode layout.types.structs n).callees layout =
      calleesAt layout (n.operands layout.types.structs) ++ (n.callee? layout).toList := by
  rw [Expr.ofNode]
  simp only [Node.mapChild_eq, Node.mapNodes_eq, Node.mapSlice_eq, Node.mapChildren_eq]
  split
  · next h =>
      have hkind := mem_literalKinds_of_value? h
      have hcall : n.astType ≠ "Call" := by
        intro heq
        simp [heq, literalKinds] at hkind
      rw [operands_of_literal hkind, callee?_of_ne layout hcall]
      rfl
  · next hliteral =>
    split
    case h_4 h =>
      rw [Node.operands, h, map_snd_keywords]
      cases hstruct : constructed? layout.types.structs n with
      | some typeName =>
          have hconstructs : n.constructs layout.types.structs = true := by
            rw [← Node.isSome_constructed?, hstruct, Option.isSome_some]
          have hcallee : n.callee? layout = none := by simp [Node.callee?, hconstructs]
          rw [if_pos hconstructs, hcallee]
          simp only [snd_members, Expr.callees, calleesOf_append, calleesOf_map, calleesAt_append]
          simp
      | none =>
          have hconstructs : n.constructs layout.types.structs = false := by
            rw [← Node.isSome_constructed?, hstruct, Option.isSome_none]
          have htarget : layout.target? (((n.child? "func").map
              (Expr.ofNode layout.types.structs)).getD (.absent "func" n.astType))
                (((n.child? "func").map Node.chain).getD "") = n.callee? layout := by
            simp only [Node.callee?, Node.is, h, hconstructs]
            cases n.child? "func" with
            | none => rfl
            | some callee => exact target?_ofNode layout callee
          rw [h] at htarget
          simp only [Expr.callees, htarget, callees_getD, calleesOf_append, calleesOf_map,
            calleesAt_append, Node.one, List.append_assoc, hconstructs, Bool.false_eq_true, if_false]
    case h_15 hcall _ _ _ _ _ _ _ _ _ _ =>
      rw [callee?_of_ne layout hcall]
      have hoperands : n.operands layout.types.structs = n.children := by
        unfold Node.operands
        split
        all_goals first
          | contradiction
          | rfl
          | exact absurd hliteral (value?_of_mem_literalKinds (by simp [literalKinds, *]))
      rw [hoperands, Expr.callees, calleesOf_map, Option.toList_none, List.append_nil]
    all_goals
      rename_i h
      rw [callee?_of_ne layout (by simp [h])]
      simp [Expr.callees, Node.operands, h, callees_getD, Node.one, calleesAt, calleesOf_map]

theorem mem_calleesAt {ns : List Node} {c : Callee} :
    c ∈ calleesAt layout ns ↔ ∃ n ∈ ns, c ∈ (Expr.ofNode layout.types.structs n).callees layout :=
  List.mem_flatMap

/-- An expression has the callees of the calls it evaluates. -/
theorem mem_callees_ofNode (n : Node) (c : Callee) :
    c ∈ (Expr.ofNode layout.types.structs n).callees layout ↔
      ∃ m, Node.Evaluates layout.types.structs n m ∧ m.callee? layout = some c := by
  have step (n : Node) : c ∈ (Expr.ofNode layout.types.structs n).callees layout ↔
      (∃ p ∈ n.operands layout.types.structs,
        c ∈ (Expr.ofNode layout.types.structs p).callees layout) ∨ n.callee? layout = some c := by
    rw [callees_ofNode, List.mem_append, mem_calleesAt, Option.mem_toList]
  constructor
  · intro hc
    -- operands are parts of the tree, so the tree gets smaller
    induction hsize : sizeOf n.json using Nat.strong_induction_on generalizing n with
    | h size ih =>
        rcases (step n).1 hc with ⟨p, hp, hcp⟩ | hown
        · obtain ⟨m, hm, hcm⟩ := ih _ (hsize ▸ Node.isPart_of_operands hp) p hcp rfl
          exact ⟨m, .operand hp hm, hcm⟩
        · exact ⟨n, .self n, hown⟩
  · rintro ⟨m, hm, hcm⟩
    induction hm with
    | self n => exact (step n).2 (.inr hcm)
    | operand hp _ ih => exact (step _).2 (.inl ⟨_, hp, ih hcm⟩)

/-! ## Reading statements -/

/-- The callees of the statements of nodes. -/
def calleesIn (locate : Node → Option Span) (ns : List Node) : List Callee :=
  ns.flatMap fun n => (Stmt.ofNode layout.types locate n).callees layout

theorem calleesOfBlock_map (locate : Node → Option Span) (ns : List Node) :
    calleesOfBlock layout (ns.map (Stmt.ofNode layout.types locate)) =
      calleesIn layout locate ns := by
  rw [calleesOfBlock_eq, List.flatMap_map]
  rfl

theorem callees_required (n : Node) (key : String) :
    (Expr.required layout.types.structs n key).callees layout = calleesAt layout (n.one key) :=
  callees_getD layout (n.child? key) key n.astType

theorem calleesOf?_part (n : Node) (key : String) :
    calleesOf? layout (Expr.part? layout.types.structs n key) = calleesAt layout (n.one key) := by
  unfold Expr.part? Node.one
  cases n.child? key with
  | none => rfl
  | some c => exact calleesOf_map layout [c]

/-- Taking a tuple apart is evaluating it. -/
theorem callees_tuple {n : Node} (h : n.is "Tuple") :
    (Expr.ofNode layout.types.structs n).callees layout = calleesAt layout (n.nodes "elements") := by
  have hkind : n.astType = "Tuple" := by simpa [Node.is] using h
  rw [callees_ofNode, callee?_of_ne layout (by simp [hkind])]
  simp [Node.operands, hkind]

theorem callees_assignment (n : Node) :
    (Stmt.assignment layout.types.structs n).callees layout =
      calleesAt layout (n.one "value") ++ calleesAt layout (n.one "target") := by
  unfold Stmt.assignment
  rw [← callees_required layout n "value", Node.one]
  cases n.child? "target" with
  | none => rfl
  | some target =>
      by_cases htuple : target.is "Tuple"
      · simp [htuple, Stmt.callees, calleesOf_map, calleesAt, callees_tuple]
      · simp [htuple, Stmt.callees, calleesAt]

theorem calleesOf_returnValues (n : Node) :
    calleesOf layout (returnValues layout.types.structs n) = calleesAt layout (n.one "value") := by
  unfold returnValues Node.one
  cases n.child? "value" with
  | none => rfl
  | some result =>
      by_cases htuple : result.is "Tuple"
      · simp [htuple, calleesOf_map, calleesAt, callees_tuple]
      · simp [htuple, calleesOf, calleesAt]

theorem callees_ofPart (n : Node) (key : String) :
    (Stmt.ofPart layout.types.structs n key).callees layout = calleesAt layout (n.one key) := by
  unfold Stmt.ofPart Expr.part? Node.one
  cases n.child? key with
  | none => rfl
  | some c => simp [Stmt.callees, calleesAt]

/-- The callees of a statement are those of its expressions and of its blocks. -/
theorem callees_ofStatement (locate : Node → Option Span) (n : Node) :
    (Stmt.ofNode layout.types locate n).callees layout =
      calleesAt layout n.expressions ++ calleesIn layout locate n.block := by
  rw [Stmt.ofNode, Stmt.callees]
  simp only [Node.mapNodes_eq]
  unfold Node.expressions Node.block
  split
  case h_14 => simp [*, Stmt.callees, Expr.unlistedOfNode, Expr.callees, calleesOf_map, calleesIn]
  all_goals simp [*, Stmt.callees, callees_assignment, calleesOf_returnValues, callees_ofPart,
    callees_required, calleesOf?_part, calleesOfBlock_map, calleesAt, calleesIn]

/-- A statement has the callees of the calls it executes. -/
theorem mem_callees_ofStatement (locate : Node → Option Span) (n : Node) (c : Callee) :
    c ∈ (Stmt.ofNode layout.types locate n).callees layout ↔
      ∃ m, Node.Executes layout.types.structs n m ∧ m.callee? layout = some c := by
  have step (n : Node) : c ∈ (Stmt.ofNode layout.types locate n).callees layout ↔
      (∃ e ∈ n.expressions, ∃ m, Node.Evaluates layout.types.structs e m ∧
        m.callee? layout = some c) ∨
      ∃ s ∈ n.block, c ∈ (Stmt.ofNode layout.types locate s).callees layout := by
    simp only [callees_ofStatement layout locate n, List.mem_append, mem_calleesAt,
      mem_callees_ofNode, calleesIn, List.mem_flatMap]
  constructor
  · intro hc
    induction hsize : sizeOf n.json using Nat.strong_induction_on generalizing n with
    | h size ih =>
        rcases (step n).1 hc with ⟨e, he, m, hm, hcm⟩ | ⟨s, hs, hcs⟩
        · exact ⟨m, .expression he hm, hcm⟩
        · obtain ⟨m, hm, hcm⟩ := ih _ (hsize ▸ Node.isPart_of_block hs) s hcs rfl
          exact ⟨m, .block hs hm, hcm⟩
  · rintro ⟨m, hm, hcm⟩
    induction hm with
    | expression he hm => exact (step _).2 (.inl ⟨_, he, _, hm, hcm⟩)
    | block hs _ ih => exact (step _).2 (.inr ⟨_, hs, ih hcm⟩)

end Reading

end ContractCalls.Vyper
