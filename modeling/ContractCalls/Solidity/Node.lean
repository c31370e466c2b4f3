/-
Nodes of a Solidity syntax tree in either of the two dialects of the compiler.

The compact dialect keeps attributes and children as fields of the node; the
legacy dialect has the attributes under `attributes` and the children in one
ordered list.  The accessors here hide the difference wherever both dialects
carry the same information.  Every node reached from a node is smaller than
it, which is what lets syntax trees be decoded by recursion.
-/
import ContractCalls.Json.Basic
import ContractCalls.Source
import ContractCalls.Ty.Parser

namespace ContractCalls.Solidity

/-- The dialect of a syntax tree. -/
inductive Dialect where
  | compact
  | legacy
deriving DecidableEq, Repr

/-- The name of a dialect. -/
def Dialect.render : Dialect → String
  | .compact => "compact"
  | .legacy => "legacy"

/-- A node of a syntax tree. -/
structure Node where
  dialect : Dialect
  json : Json
deriving Repr

namespace Node

/-- The dialect of a source unit, if it is one. -/
def detect? (json : Json) : Option Dialect :=
  if (json.get? "nodeType").isSome then some .compact
  else if (json.get? "name").bind Json.asString? == some "SourceUnit" then some .legacy
  else none

def isCompact (n : Node) : Bool := n.dialect == .compact

/-! ## Attributes -/

/-- The type of a node, empty if it has none. -/
def nodeType (n : Node) : String :=
  let key := match n.dialect with
    | .compact => "nodeType"
    | .legacy => "name"
  ((n.json.get? key).bind Json.asString?).getD ""

/-- The node has the given type. -/
def is (n : Node) (nodeType : String) : Bool := n.nodeType == nodeType

def id? (n : Node) : Option Int := (n.json.get? "id").bind Json.asInt?

def src? (n : Node) : Option String := (n.json.get? "src").bind Json.asString?

/-- The source position of a node. -/
def span? (n : Node) (files : List String) (default : String) : Option Span :=
  n.src?.bind fun src => Span.ofAttribute? src files default

/-- An attribute that is not null. -/
def attribute? (n : Node) (key : String) : Option Json :=
  let value := match n.dialect with
    | .compact => n.json.get? key
    | .legacy => (n.json.get? "attributes").bind (·.get? key)
  value.filter fun v => !v.isNull

def text? (n : Node) (key : String) : Option String := (n.attribute? key).bind Json.asString?

/-- The attribute is true. -/
def flag (n : Node) (key : String) : Bool := ((n.attribute? key).bind Json.asBool?).getD false

def int? (n : Node) (key : String) : Option Int := (n.attribute? key).bind Json.asInt?

def name? (n : Node) : Option String := n.text? "name"

/-- The kind of a function call; the legacy dialect has it as flags. -/
def callKind (n : Node) : String :=
  match n.text? "kind" with
  | some kind => kind
  | none =>
      if n.flag "type_conversion" then "typeConversion"
      else if n.flag "isStructConstructorCall" then "structConstructorCall"
      else "functionCall"

def memberName? (n : Node) : Option String := (n.text? "memberName").or (n.text? "member_name")

/-- The text of the type of an expression or declaration. -/
def typeText? (n : Node) : Option String :=
  match n.dialect with
  | .compact => ((n.json.get? "typeDescriptions").bind (·.get? "typeString")).bind Json.asString?
  | .legacy => n.text? "type"

/-- The type of an expression or declaration. -/
def ty (n : Node) : Ty := Ty.ofText? n.typeText?

def referencedDeclaration? (n : Node) : Option Int := n.int? "referencedDeclaration"

/-- The name of an identifier or identifier path. -/
def identifierName? (n : Node) : Option String :=
  (n.text? "name").or ((n.text? "value").or (n.text? "namePath"))

/-! ## Children -/

/-- The items of an array field. -/
def items (n : Node) (key : String) : List Json :=
  ((n.json.get? key).bind Json.asArray?).getD []

/-- A part of a node, in the same dialect. -/
def part (n : Node) (json : Json) : Node := ⟨n.dialect, json⟩

/-- A part that is an object. -/
def slot (n : Node) (json : Json) : Option Node :=
  if json.isObject then some (n.part json) else none

/-- A field that is an object. -/
def child? (n : Node) (key : String) : Option Node := (n.json.get? key).bind n.slot

/-- The objects of an array field, with the other items kept as gaps. -/
def optionalNodes (n : Node) (key : String) : List (Option Node) := (n.items key).map n.slot

/-- The objects of an array field. -/
def nodes (n : Node) (key : String) : List Node := (n.items key).filterMap n.slot

/-- The ordered children of a legacy node.  Some compilers list comments among them, which are
passed over. -/
def children (n : Node) : List Node :=
  ((n.items "children").map n.part).filter fun c => !c.is "StructuredDocumentation"

/-- The ordered children of a legacy node, with children that are no objects kept as gaps. -/
def slots (n : Node) : List (Option Node) :=
  (n.optionalNodes "children").filter fun
    | some c => !c.is "StructuredDocumentation"
    | none => true

/-- The position among legacy children of a part that has a fixed one. -/
def position? : (nodeType key : String) → Option Nat
  | "ExpressionStatement", "expression" | "Return", "expression"
  | "EmitStatement", "eventCall" | "RevertStatement", "errorCall"
  | "TryStatement", "externalCall"
  | "IfStatement", "condition" | "WhileStatement", "condition"
  | "DoWhileStatement", "condition" | "Conditional", "condition"
  | "MemberAccess", "expression" | "FunctionCall", "expression"
  | "FunctionCallOptions", "expression"
  | "IndexAccess", "baseExpression" | "IndexRangeAccess", "baseExpression"
  | "BinaryOperation", "leftExpression" | "Assignment", "leftHandSide"
  | "UnaryOperation", "subExpression" | "NewExpression", "typeName" => some 0
  | "IfStatement", "trueBody" | "WhileStatement", "body" | "DoWhileStatement", "body"
  | "IndexAccess", "indexExpression" | "IndexRangeAccess", "startExpression"
  | "BinaryOperation", "rightExpression" | "Assignment", "rightHandSide"
  | "Conditional", "trueExpression" => some 1
  | "IfStatement", "falseBody" | "IndexRangeAccess", "endExpression"
  | "Conditional", "falseExpression" => some 2
  | _, _ => none

/-- The attribute of a legacy loop that marks one of its parts as absent. -/
def marksAbsent (n : Node) (key : String) : Bool :=
  match (n.json.get? "attributes").bind (·.get? key) with
  | some value => value.isNull
  | none => false

/-- A part of a legacy loop: the parts of its head that are not marked absent stand in order. -/
def headPart? (n : Node) (key : String) : (keys : List String) → List Node → Option Node
  | [], _ => none
  | k :: keys, remaining =>
      if n.marksAbsent k then
        if k = key then none else n.headPart? key keys remaining
      else if k = key then remaining.head?
      else n.headPart? key keys remaining.tail

/-- A part of a legacy `for` loop, whose last child is the body. -/
def forPart? (n : Node) (key : String) : Option Node :=
  if key = "body" then n.children.getLast?
  else
    n.headPart? key ["initializationExpression", "condition", "loopExpression"]
      n.children.dropLast

/-- The legacy child that plays the part of a named field. -/
def legacyField? (n : Node) (key : String) : Option Node :=
  match n.nodeType, key with
  | "FunctionDefinition", "body" | "ModifierDefinition", "body" | "TryCatchClause", "block" =>
      n.children.getLast?.filter (·.is "Block")
  | "TryCatchClause", "parameters" => n.children.head?.filter (·.is "ParameterList")
  | "VariableDeclarationStatement", "initialValue" =>
      n.children.getLast?.filter fun c => !c.is "VariableDeclaration"
  | "ForStatement", key => n.forPart? key
  | nodeType, key => (position? nodeType key).bind fun i => n.children[i]?

/-- A named part of a node. -/
def field? (n : Node) (key : String) : Option Node :=
  match n.dialect with
  | .compact => n.child? key
  | .legacy => n.legacyField? key

/-- Spreads declarations over the positions of an assignment list; a null position is a gap. -/
def spread : (assignments : List Json) → List Node → List (Option Node)
  | [], _ => []
  | id :: ids, declarations =>
      if id.isNull then none :: spread ids declarations
      else declarations.head? :: spread ids declarations.tail

/-- The declarations of a legacy declaration statement. -/
def legacyDeclarations (n : Node) : List (Option Node) :=
  let declarations := (n.slots.filterMap id).filter (·.is "VariableDeclaration")
  match (n.attribute? "assignments").bind Json.asArray? with
  | some assignments => spread assignments declarations
  | none => declarations.map some

/-- The legacy children that play the part of a named list. -/
def legacyFields (n : Node) (key : String) : List (Option Node) :=
  match n.nodeType, key with
  | "Block", "statements" | "UncheckedBlock", "statements" | "ParameterList", "parameters"
  | "TupleExpression", "components" => n.slots
  | "FunctionCall", "arguments" | "FunctionCallOptions", "options" | "TryStatement", "clauses" =>
      n.slots.drop 1
  | "VariableDeclarationStatement", "declarations" => n.legacyDeclarations
  | _, _ => []

/-- A named list of parts, with gaps. -/
def optionalFields (n : Node) (key : String) : List (Option Node) :=
  match n.dialect with
  | .compact => n.optionalNodes key
  | .legacy => n.legacyFields key

/-- A named list of parts. -/
def fields (n : Node) (key : String) : List Node := (n.optionalFields key).filterMap id

/-- The members of a definition. -/
def members (n : Node) : List Node :=
  match n.dialect with
  | .compact => n.nodes "nodes"
  | .legacy => n.children

/-- The parameters of a definition.  Legacy definitions have parameter lists by position: first
the parameters, then the return parameters. -/
def parameterList (n : Node) (key : String) (position : Nat) : List Node :=
  match n.dialect with
  | .compact => ((n.child? key).map (·.nodes "parameters")).getD []
  | .legacy =>
      (((n.children.filter (·.is "ParameterList"))[position]?).map (·.children)).getD []

/-! ## Parts are smaller than their node -/

/-- The node `c` was found inside the node `n`. -/
abbrev IsPart (c n : Node) : Prop := sizeOf c.json < sizeOf n.json

theorem isPart_of_slot {n c : Node} {j : Json} (h : n.slot j = some c) : c = n.part j := by
  simp only [slot] at h
  split at h
  · exact (Option.some.inj h).symm
  · cases h

theorem isPart_of_items {n : Node} {key : String} {j : Json} (h : j ∈ n.items key) :
    IsPart (n.part j) n := by
  simp only [items] at h
  cases hg : n.json.get? key with
  | none => simp [hg] at h
  | some v =>
      cases ha : v.asArray? with
      | none => simp [hg, ha] at h
      | some xs =>
          simp only [hg, ha, Option.bind_some, Option.getD_some] at h
          exact Nat.lt_trans (Json.sizeOf_item ha h) (Json.sizeOf_get? hg)

theorem isPart_of_child? {n c : Node} {key : String} (h : n.child? key = some c) :
    IsPart c n := by
  simp only [child?] at h
  obtain ⟨j, hj, hs⟩ := Option.bind_eq_some_iff.1 h
  rw [isPart_of_slot hs]
  exact Json.sizeOf_get? hj

theorem isPart_of_optionalNodes {n c : Node} {key : String}
    (h : some c ∈ n.optionalNodes key) : IsPart c n := by
  obtain ⟨j, hj, hs⟩ := List.mem_map.1 h
  rw [isPart_of_slot hs]
  exact isPart_of_items hj

theorem isPart_of_children {n c : Node} (h : c ∈ n.children) : IsPart c n := by
  obtain ⟨j, hj, hs⟩ := List.mem_map.1 (List.mem_filter.1 h).1
  rw [← hs]
  exact isPart_of_items hj

theorem isPart_of_slots {n c : Node} (h : some c ∈ n.slots) : IsPart c n :=
  isPart_of_optionalNodes (List.mem_filter.1 h).1

theorem mem_of_headPart? {n c : Node} {key : String} {keys : List String} {remaining : List Node}
    (h : n.headPart? key keys remaining = some c) : c ∈ remaining := by
  induction keys generalizing remaining with
  | nil => simp [headPart?] at h
  | cons k keys ih =>
      simp only [headPart?] at h
      split at h
      · split at h
        · cases h
        · exact ih h
      · split at h
        · exact List.mem_of_head? h
        · exact List.mem_of_mem_tail (ih h)

theorem mem_of_forPart? {n c : Node} {key : String} (h : n.forPart? key = some c) :
    c ∈ n.children := by
  simp only [forPart?] at h
  split at h
  · exact List.mem_of_getLast? h
  · exact (List.dropLast_sublist _).subset (mem_of_headPart? h)

theorem mem_of_legacyField? {n c : Node} {key : String} (h : n.legacyField? key = some c) :
    c ∈ n.children := by
  simp only [legacyField?] at h
  split at h
  · exact List.mem_of_getLast? (Option.filter_eq_some_iff.1 h).1
  · exact List.mem_of_getLast? (Option.filter_eq_some_iff.1 h).1
  · exact List.mem_of_getLast? (Option.filter_eq_some_iff.1 h).1
  · exact List.mem_of_head? (Option.filter_eq_some_iff.1 h).1
  · exact List.mem_of_getLast? (Option.filter_eq_some_iff.1 h).1
  · exact mem_of_forPart? h
  · obtain ⟨i, _, hi⟩ := Option.bind_eq_some_iff.1 h
    exact List.mem_of_getElem? hi

/-- A named part is a part. -/
theorem isPart_of_field? {n c : Node} {key : String} (h : n.field? key = some c) :
    IsPart c n := by
  simp only [field?] at h
  split at h
  · exact isPart_of_child? h
  · exact isPart_of_children (mem_of_legacyField? h)

theorem mem_of_spread {c : Node} {assignments : List Json} {declarations : List Node}
    (h : some c ∈ spread assignments declarations) : c ∈ declarations := by
  induction assignments generalizing declarations with
  | nil => simp [spread] at h
  | cons id ids ih =>
      simp only [spread] at h
      split at h
      · exact ih ((List.mem_cons.1 h).resolve_left nofun)
      · cases List.mem_cons.1 h with
        | inl hd => exact List.mem_of_head? hd.symm
        | inr ht => exact List.mem_of_mem_tail (ih ht)

theorem isPart_of_legacyDeclarations {n c : Node} (h : some c ∈ n.legacyDeclarations) :
    IsPart c n := by
  have hc : c ∈ (n.slots.filterMap id).filter (·.is "VariableDeclaration") := by
    simp only [legacyDeclarations] at h
    split at h
    · exact mem_of_spread h
    · obtain ⟨d, hd, he⟩ := List.mem_map.1 h
      exact Option.some.inj he ▸ hd
  obtain ⟨s, hs, he⟩ := List.mem_filterMap.1 (List.mem_filter.1 hc).1
  exact isPart_of_slots ((show s = some c from he) ▸ hs)

theorem isPart_of_legacyFields {n c : Node} {key : String} (h : some c ∈ n.legacyFields key) :
    IsPart c n := by
  simp only [legacyFields] at h
  split at h
  · exact isPart_of_slots h
  · exact isPart_of_slots h
  · exact isPart_of_slots h
  · exact isPart_of_slots h
  · exact isPart_of_slots (List.mem_of_mem_drop h)
  · exact isPart_of_slots (List.mem_of_mem_drop h)
  · exact isPart_of_slots (List.mem_of_mem_drop h)
  · exact isPart_of_legacyDeclarations h
  · cases h

/-- An item of a named list is a part. -/
theorem isPart_of_optionalFields {n c : Node} {key : String}
    (h : some c ∈ n.optionalFields key) : IsPart c n := by
  simp only [optionalFields] at h
  split at h
  · exact isPart_of_optionalNodes h
  · exact isPart_of_legacyFields h

/-- The only component of a tuple that has just one and no gap. -/
def parenthesized? (n : Node) : Option Node :=
  if n.is "TupleExpression" then
    match n.optionalFields "components" with
    | [some inner] => some inner
    | _ => none
  else none

theorem isPart_of_parenthesized? {n c : Node} (h : n.parenthesized? = some c) : IsPart c n := by
  simp only [parenthesized?] at h
  split at h
  · split at h
    · next inner hf =>
        cases h
        exact isPart_of_optionalFields (hf ▸ List.mem_singleton.2 rfl)
    · cases h
  · cases h

/-! ## Mapping over parts -/

/-- Maps over a named part, which is smaller than the node. -/
def mapField {α : Type} (n : Node) (key : String) (f : (c : Node) → IsPart c n → α) : Option α :=
  match h : n.field? key with
  | some c => some (f c (isPart_of_field? h))
  | none => none

/-- Maps over a named list with gaps, whose items are smaller than the node. -/
def mapOptionalFields {α : Type} (n : Node) (key : String) (f : (c : Node) → IsPart c n → α) :
    List (Option α) :=
  (n.optionalFields key).attach.map fun
    | ⟨some c, h⟩ => some (f c (isPart_of_optionalFields h))
    | ⟨none, _⟩ => none

/-- Maps over a named list, whose items are smaller than the node. -/
def mapFields {α : Type} (n : Node) (key : String) (f : (c : Node) → IsPart c n → α) : List α :=
  (n.mapOptionalFields key f).filterMap id

end Node

end ContractCalls.Solidity
