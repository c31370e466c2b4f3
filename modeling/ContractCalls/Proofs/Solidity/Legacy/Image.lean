/-
# The legacy image of a compact tree

A compact node keeps attributes and parts as named fields.  Its legacy image
has the type of the node as its name, the attributes under `attributes` and the
parts, in the order of their roles, under `children`.  Some attributes go by
another name there: the type, the name of an identifier or member, and the kind
of a call; the positions of declarations and the missing parts of a loop head
are attributes of their own.

A node fits the grammar if parts that others follow are there and every part is
of a kind that its role admits.  Of such a node, the image has the same
attributes and the images of the same parts.
-/
import ContractCalls.Proofs.Solidity.Node
import ContractCalls.Solidity.Decode
import Mathlib

namespace ContractCalls

namespace Json

theorem find?_put (key other : String) (value : Json) (fields : List (String × Json)) :
    find? other (Ordered.put key value fields) =
      if key = other then some value else find? other fields := by
  induction fields with
  | nil => rfl
  | cons field rest ih =>
      obtain ⟨k, v⟩ := field
      unfold Ordered.put
      split
      · rfl
      · next h =>
          obtain rfl : key = k := Std.LawfulEqOrd.compare_eq_iff_eq.1 h
          by_cases ho : key = other <;> simp [find?, ho]
      · next h =>
          have hne : k ≠ key := by
            rintro rfl
            simp at h
          by_cases ho : k = other
          · subst ho
            simp [find?, Ne.symm hne]
          · simp [find?, ho, ih]

/-- Of the fields of an object with one key, the last counts. -/
theorem get?_ofFields (fields : List (String × Json)) (key : String) :
    (ofFields fields).get? key = find? key fields.reverse := by
  have hfold (sorted : List (String × Json)) :
      find? key (fields.foldl (fun sorted field => Ordered.put field.1 field.2 sorted) sorted) =
        (find? key fields.reverse).or (find? key sorted) := by
    induction fields using List.reverseRecOn with
    | nil => rfl
    | append_singleton fields field ih =>
        obtain ⟨k, v⟩ := field
        rw [List.foldl_append, List.foldl_cons, List.foldl_nil, find?_put, ih, List.reverse_append]
        by_cases hk : k = key <;> simp [find?, hk]
  have h := hfold []
  rw [find?, Option.or_none] at h
  exact h

theorem find?_append (key : String) (xs ys : List (String × Json)) :
    find? key (xs ++ ys) = (find? key xs).or (find? key ys) := by
  induction xs with
  | nil => rfl
  | cons field rest ih =>
      obtain ⟨k, v⟩ := field
      by_cases hk : k = key <;> simp [find?, hk, ih]

/-- A choice of fields by their keys. -/
theorem find?_filter (chosen : String → Bool) (key : String) (fields : List (String × Json)) :
    find? key (fields.filter fun field => chosen field.1) =
      if chosen key then find? key fields else none := by
  induction fields with
  | nil => simp [find?]
  | cons field rest ih =>
      obtain ⟨k, v⟩ := field
      by_cases hk : k = key
      · subst hk
        by_cases hchosen : chosen k <;> simp [find?, hchosen, ih]
      · by_cases hchosen : chosen k <;> simp [find?, hk, hchosen, ih]

end Json

namespace Solidity

/-! ## Roles -/

/-- How the parts in a field stand among the children. -/
inductive Shape where
  /-- One part; others follow, so it has to be there. -/
  | leading
  /-- One part, or none. -/
  | single
  /-- Any number of parts. -/
  | list
  /-- Any number of parts with gaps between them. -/
  | sparse
deriving DecidableEq, Repr

/-- What the parts in a field are to their node. -/
structure Role where
  key : String
  shape : Shape
  /-- The kinds of parts, by their node types. -/
  admits : String → Bool
  /-- Lowering reads the parts. -/
  isRead : Bool

namespace Role

/-- The node type of comments, which are passed over among children. -/
def comment : String := "StructuredDocumentation"

/-- Parts of any kind. -/
def of (shape : Shape) (key : String) : Role := ⟨key, shape, (· != comment), true⟩

/-- Parts of one kind. -/
def only (kind : String) (shape : Shape) (key : String) : Role := ⟨key, shape, (· == kind), true⟩

/-- Parts that are not read. -/
def aside (r : Role) : Role := { r with isRead := false }

/-- The parts of a node in a role. -/
def parts (r : Role) (n : Node) : List Node :=
  match r.shape with
  | .leading | .single => (n.child? r.key).toList
  | .list | .sparse => n.nodes r.key

/-- The converted parts in a role as they stand among the children. -/
def place (r : Role) (converted : List (String × Json)) : List Json :=
  match r.shape, Json.find? r.key converted with
  | .leading, some (.object fields) | .single, some (.object fields) => [.object fields]
  | .list, some (.array items) => items.filter (·.isObject)
  | .sparse, some (.array items) => items
  | _, _ => []

end Role

open Role Shape in
/-- The roles of the parts of a node, in the order of legacy children. -/
def roles : (nodeType : String) → List Role
  | "FunctionDefinition" | "ModifierDefinition" =>
      [aside (only comment single "documentation"),
        aside (only "OverrideSpecifier" single "overrides"),
        only "ParameterList" leading "parameters", only "ParameterList" single "returnParameters",
        aside (only "ModifierInvocation" list "modifiers"), only "Block" single "body"]
  | "ParameterList" => [only "VariableDeclaration" list "parameters"]
  | "Block" | "UncheckedBlock" => [of list "statements"]
  | "ExpressionStatement" | "Return" | "MemberAccess" => [of single "expression"]
  | "EmitStatement" => [of single "eventCall"]
  | "RevertStatement" => [of single "errorCall"]
  | "VariableDeclarationStatement" =>
      [only "VariableDeclaration" list "declarations",
        ⟨"initialValue", single, fun kind => kind != comment && kind != "VariableDeclaration", true⟩]
  | "IfStatement" => [of leading "condition", of leading "trueBody", of single "falseBody"]
  | "WhileStatement" | "DoWhileStatement" => [of leading "condition", of single "body"]
  | "ForStatement" =>
      [of single "initializationExpression", of single "condition", of single "loopExpression",
        of leading "body"]
  | "TryStatement" => [of leading "externalCall", only "TryCatchClause" list "clauses"]
  | "TryCatchClause" => [only "ParameterList" single "parameters", only "Block" single "block"]
  | "FunctionCall" => [of leading "expression", of list "arguments"]
  | "FunctionCallOptions" => [of leading "expression", of list "options"]
  | "IndexAccess" => [of leading "baseExpression", of single "indexExpression"]
  | "IndexRangeAccess" =>
      [of leading "baseExpression", of single "startExpression", of single "endExpression"]
  | "BinaryOperation" => [of leading "leftExpression", of single "rightExpression"]
  | "Assignment" => [of leading "leftHandSide", of single "rightHandSide"]
  | "UnaryOperation" => [of single "subExpression"]
  | "Conditional" =>
      [of leading "condition", of leading "trueExpression", of single "falseExpression"]
  | "TupleExpression" => [of sparse "components"]
  | "NewExpression" | "ElementaryTypeNameExpression" => [aside (of single "typeName")]
  | "VariableDeclaration" => [aside (of single "typeName"), aside (of single "value")]
  | "UserDefinedTypeName" => [of single "pathNode"]
  | "Mapping" => [of single "keyType", of single "valueType"]
  | "ArrayTypeName" => [of single "baseType", of single "length"]
  | "FunctionTypeName" => [of single "parameterTypes", of single "returnParameterTypes"]
  | "ModifierInvocation" => [of single "modifierName", of list "arguments"]
  | "OverrideSpecifier" => [of list "overrides"]
  | _ => []

/-! ## The image -/

namespace Node

/-- The parts of the head of a loop. -/
def headKeys : List String := ["initializationExpression", "condition", "loopExpression"]

/-- The mark of a declaration among the assignments of its statement; a gap is null. -/
def declarationMark : Option Node → Json
  | some d => .ofInt (d.id?.getD 0)
  | none => .null

/-- The attributes that go by another name in the legacy dialect. -/
def renamed (n : Node) : List (String × Json) :=
  ("type", .ofOption .string n.typeText?) ::
    match n.nodeType with
    | "Identifier" => [("value", .ofOption .string n.identifierName?)]
    | "MemberAccess" => [("member_name", .ofOption .string n.memberName?)]
    | "FunctionCall" =>
        [("isStructConstructorCall", .bool (n.callKind == "structConstructorCall")),
          ("type_conversion", .bool (n.callKind == "typeConversion"))]
    | "VariableDeclarationStatement" =>
        [("assignments", .array ((n.optionalNodes "declarations").map declarationMark))]
    | "ForStatement" => (headKeys.filter fun key => (n.child? key).isNone).map (·, .null)
    | _ => []

/-- The fields that are no attributes of the image, or not by their names. -/
def reserved (nodeType : String) : List String :=
  ["id", "nodeType", "src", "typeDescriptions"] ++
    match nodeType with
    | "Identifier" => ["name"]
    | "MemberAccess" => ["memberName"]
    | "FunctionCall" => ["kind"]
    | _ => []

/-- The field holds parts, or a gap where a part could be. -/
def holdsParts (n : Node) (key : String) : Bool :=
  (roles n.nodeType).any (·.key == key) &&
    match n.json.get? key with
    | some (.object _) | some (.array _) | some .null => true
    | _ => false

/-- The field is an attribute of the image under its own name. -/
def isMoved (n : Node) (key : String) : Bool :=
  !(reserved n.nodeType).contains key && !n.holdsParts key

/-- The attributes of the image. -/
def legacyAttributes (n : Node) : Json :=
  .ofFields (n.renamed ++ (n.json.asObject?.getD []).filter fun field => n.isMoved field.1).reverse

/-- The image of a node whose parts are converted. -/
def assemble (n : Node) (converted : List (String × Json)) : Json :=
  .ofFields ([("attributes", n.legacyAttributes),
    ("children", .array ((roles n.nodeType).flatMap (·.place converted))),
    ("name", .string n.nodeType)] ++
    ((n.json.get? "id").toList.map ("id", ·) ++ (n.json.get? "src").toList.map ("src", ·)))

end Node

mutual

/-- The legacy image of a compact tree. -/
def legacyOf : Json → Json
  | .object fields => Node.assemble ⟨.compact, .object fields⟩ (legacyOfFields fields)
  | .array items => .array (legacyOfItems items)
  | other => other

def legacyOfFields : List (String × Json) → List (String × Json)
  | [] => []
  | (key, value) :: rest => (key, legacyOf value) :: legacyOfFields rest

def legacyOfItems : List Json → List Json
  | [] => []
  | item :: rest => legacyOf item :: legacyOfItems rest

end

/-- The legacy image of a compact node. -/
def Node.legacy (n : Node) : Node := ⟨.legacy, legacyOf n.json⟩

theorem legacyOfItems_eq (items : List Json) : legacyOfItems items = items.map legacyOf := by
  induction items with
  | nil => rw [legacyOfItems, List.map_nil]
  | cons item rest ih => rw [legacyOfItems, ih, List.map_cons]

theorem find?_legacyOfFields (key : String) (fields : List (String × Json)) :
    Json.find? key (legacyOfFields fields) = (Json.find? key fields).map legacyOf := by
  induction fields with
  | nil => rw [legacyOfFields, Json.find?, Option.map_none]
  | cons field rest ih =>
      obtain ⟨k, v⟩ := field
      rw [legacyOfFields, Json.find?, Json.find?, ih]
      split <;> rfl

theorem isObject_legacyOf (j : Json) : (legacyOf j).isObject = j.isObject := by
  cases j <;> simp [legacyOf, Node.assemble, Json.ofFields, Json.isObject]

/-! ## Attributes of the image -/

namespace Node

/-- A node of the compact dialect, with fields. -/
def IsPlain (n : Node) : Prop := ∃ fields, n = ⟨.compact, .object fields⟩

variable {n : Node}

/-- The parts of a node as they stand among the children of the image. -/
def placed (n : Node) (r : Role) : List Json :=
  match r.shape with
  | .sparse => (n.items r.key).map legacyOf
  | _ => (r.parts n).map fun c => legacyOf c.json

/-- The nodes among converted items are the converted nodes. -/
theorem map_filterMap_slot (n : Node) (items : List Json) :
    (items.map legacyOf).filter (·.isObject) =
      (items.filterMap n.slot).map fun c => legacyOf c.json := by
  induction items with
  | nil => rfl
  | cons item rest ih =>
      rw [List.map_cons, List.filter_cons, isObject_legacyOf, List.filterMap_cons, slot, ih]
      split <;> rfl

theorem place_legacyOfFields (r : Role) (fields : List (String × Json)) :
    r.place (legacyOfFields fields) = placed ⟨.compact, .object fields⟩ r := by
  obtain ⟨key, shape, admits, isRead⟩ := r
  have hfind := find?_legacyOfFields key fields
  cases hv : Json.find? key fields with
  | none =>
      cases shape <;> simp [Role.place, placed, Role.parts, child?, nodes, items, Json.get?, hfind, hv]
  | some v =>
      cases v with
      | array items =>
          cases shape with
          | list =>
              simp only [Role.place, placed, Role.parts, nodes, Node.items, Json.get?, hfind, hv,
                Json.asArray?, legacyOf, legacyOfItems_eq, Option.map_some, Option.bind_some,
                Option.getD_some]
              exact map_filterMap_slot _ items
          | _ => simp [Role.place, placed, Role.parts, child?, Node.items, Json.get?, hfind, hv,
              Json.asArray?, legacyOf, legacyOfItems_eq, slot, Json.isObject]
      | object inner =>
          cases shape <;> simp [Role.place, placed, Role.parts, child?, nodes, Node.items, Json.get?,
            hfind, hv, Json.asArray?, legacyOf, assemble, Json.ofFields, slot, part, Json.isObject]
      | _ =>
          cases shape <;> simp [Role.place, placed, Role.parts, child?, nodes, Node.items, Json.get?,
            hfind, hv, Json.asArray?, legacyOf, slot, Json.isObject]

/-- What the image of a node holds. -/
theorem get?_legacy (hn : n.IsPlain) :
    n.legacy.json.get? "name" = some (.string n.nodeType) ∧
    n.legacy.json.get? "attributes" = some n.legacyAttributes ∧
    n.legacy.json.get? "children" = some (.array ((roles n.nodeType).flatMap n.placed)) ∧
    n.legacy.json.get? "id" = n.json.get? "id" ∧
    n.legacy.json.get? "src" = n.json.get? "src" := by
  obtain ⟨fields, rfl⟩ := hn
  have hplace : (fun r : Role => r.place (legacyOfFields fields)) =
      placed ⟨.compact, .object fields⟩ := funext fun r => place_legacyOfFields r fields
  simp only [legacy, legacyOf, assemble, Json.get?_ofFields, hplace]
  generalize Json.get? (.object fields) "id" = id
  generalize Json.get? (.object fields) "src" = src
  cases id <;> cases src <;> simp [Json.find?]

theorem nodeType_legacy (hn : n.IsPlain) : n.legacy.nodeType = n.nodeType := by
  have hname := (get?_legacy hn).1
  simp only [nodeType, legacy] at hname ⊢
  rw [hname]
  rfl

theorem is_legacy (hn : n.IsPlain) (kind : String) : n.legacy.is kind = n.is kind := by
  rw [is, is, nodeType_legacy hn]

theorem id?_legacy (hn : n.IsPlain) : n.legacy.id? = n.id? := by
  rw [id?, id?, (get?_legacy hn).2.2.2.1]

theorem span?_legacy (hn : n.IsPlain) (files : List String) (file : String) :
    n.legacy.span? files file = n.span? files file := by
  rw [span?, span?, src?, src?, (get?_legacy hn).2.2.2.2]

theorem items_legacy (hn : n.IsPlain) :
    n.legacy.items "children" = (roles n.nodeType).flatMap n.placed := by
  rw [items, (get?_legacy hn).2.2.1]
  rfl

/-- An attribute of the image is one by another name or by its own. -/
theorem get?_legacyAttributes (hn : n.IsPlain) (key : String) :
    n.legacyAttributes.get? key =
      (Json.find? key n.renamed).or (if n.isMoved key then n.json.get? key else none) := by
  obtain ⟨fields, rfl⟩ := hn
  rw [legacyAttributes, Json.get?_ofFields, List.reverse_reverse, Json.find?_append,
    Json.find?_filter]
  rfl

theorem attribute?_legacy (hn : n.IsPlain) (key : String) :
    n.legacy.attribute? key =
      ((Json.find? key n.renamed).or (if n.isMoved key then n.json.get? key else none)).filter
        fun v => !v.isNull := by
  rw [← get?_legacyAttributes hn]
  show ((n.legacy.json.get? "attributes").bind (·.get? key)).filter _ = _
  rw [(get?_legacy hn).2.1]
  rfl

/-- The names under which the image has attributes of its own. -/
def renamedKeys (nodeType : String) : List String :=
  "type" ::
    match nodeType with
    | "Identifier" => ["value"]
    | "MemberAccess" => ["member_name"]
    | "FunctionCall" => ["isStructConstructorCall", "type_conversion"]
    | "VariableDeclarationStatement" => ["assignments"]
    | "ForStatement" => headKeys
    | _ => []

/-- The attribute has the same name in both dialects. -/
def keepsName (nodeType key : String) : Bool :=
  !(renamedKeys nodeType).contains key && !(reserved nodeType).contains key

theorem find?_eq_none {key : String} {fields : List (String × Json)} (h : key ∉ fields.map Prod.fst) :
    Json.find? key fields = none := by
  induction fields with
  | nil => rfl
  | cons field rest ih =>
      obtain ⟨k, v⟩ := field
      simp only [List.map_cons, List.mem_cons, not_or] at h
      rw [Json.find?, if_neg (Ne.symm h.1), ih h.2]

theorem map_fst_renamed_subset (n : Node) : n.renamed.map Prod.fst ⊆ renamedKeys n.nodeType := by
  unfold renamed renamedKeys
  rw [List.map_cons]
  refine List.cons_subset_cons _ ?_
  split
  case h_5 => simp [List.map_map, Function.comp_def]
  all_goals exact List.Subset.refl _

/-- An attribute that keeps its name, read in a way that takes no parts. -/
theorem attribute?_bind_legacy {α : Type} (hn : n.IsPlain) {kind key : String}
    {f : Json → Option α} (hf : ∀ v, v.isObject ∨ v.asArray?.isSome → f v = none)
    (hkind : n.nodeType = kind) (hkeeps : keepsName kind key) :
    (n.legacy.attribute? key).bind f = (n.attribute? key).bind f := by
  subst hkind
  simp only [keepsName, Bool.and_eq_true, Bool.not_eq_true', List.contains_eq_mem,
    decide_eq_false_iff_not] at hkeeps
  have hcompact : n.attribute? key = (n.json.get? key).filter fun v => !v.isNull := by
    obtain ⟨fields, rfl⟩ := hn
    rfl
  have hrenamed : Json.find? key n.renamed = none :=
    find?_eq_none fun h => hkeeps.1 (n.map_fst_renamed_subset h)
  have hkept : (reserved n.nodeType).contains key = false := by simpa using hkeeps.2
  rw [attribute?_legacy hn, hrenamed, Option.none_or, hcompact, isMoved, hkept]
  by_cases hparts : n.holdsParts key
  · simp only [hparts]
    unfold holdsParts at hparts
    cases hv : n.json.get? key with
    | none => rfl
    | some v =>
        have hnone : v.isNull ∨ f v = none := by
          rw [hv] at hparts
          cases v with
          | null => exact .inl rfl
          | object fields => exact .inr (hf _ (.inl rfl))
          | array items => exact .inr (hf _ (.inr rfl))
          | _ => simp at hparts
        rcases hnone with hnull | hnone
        · simp [Option.filter, hnull]
        · by_cases hnull : v.isNull <;> simp [Option.filter, hnull, hnone]
  · simp [hparts]

section Reading

variable (hn : n.IsPlain) {kind key : String} (hkind : n.nodeType = kind)
  (hkeeps : keepsName kind key)

include hn hkind hkeeps

theorem text?_legacy : n.legacy.text? key = n.text? key := by
  refine attribute?_bind_legacy hn ?_ hkind hkeeps
  rintro v (h | h) <;> cases v <;> first | rfl | cases h

theorem flag_legacy : n.legacy.flag key = n.flag key := by
  refine congrArg (Option.getD · false) (attribute?_bind_legacy hn ?_ hkind hkeeps)
  rintro v (h | h) <;> cases v <;> first | rfl | cases h

theorem int?_legacy : n.legacy.int? key = n.int? key := by
  refine attribute?_bind_legacy hn ?_ hkind hkeeps
  rintro v (h | h) <;> cases v <;> first | rfl | cases h

end Reading

/-- An attribute by another name. -/
theorem text?_renamed (hn : n.IsPlain) {key : String} {value : Option String}
    (hrenamed : Json.find? key n.renamed = some (.ofOption .string value)) :
    n.legacy.text? key = value := by
  rw [text?, attribute?_legacy hn, hrenamed]
  cases value <;> rfl

theorem typeText?_legacy (hn : n.IsPlain) : n.legacy.typeText? = n.typeText? :=
  text?_renamed hn rfl

theorem ty_legacy (hn : n.IsPlain) : n.legacy.ty = n.ty := by
  rw [ty, ty, typeText?_legacy hn]

theorem identifierName?_legacy (hn : n.IsPlain) (hkind : n.nodeType = "Identifier") :
    n.legacy.identifierName? = n.identifierName? := by
  have hname : n.legacy.text? "name" = none := by
    rw [text?, attribute?_legacy hn]
    simp [renamed, hkind, Json.find?, isMoved, reserved]
  have hvalue : n.legacy.text? "value" = n.identifierName? :=
    text?_renamed hn (by simp [renamed, hkind, Json.find?])
  have hpath : n.legacy.text? "namePath" = n.text? "namePath" :=
    text?_legacy hn hkind (by decide)
  rw [identifierName?, hname, hvalue, hpath, Option.none_or, identifierName?]
  cases n.text? "name" <;> cases n.text? "value" <;> cases n.text? "namePath" <;> rfl

theorem memberName?_legacy (hn : n.IsPlain) (hkind : n.nodeType = "MemberAccess") :
    n.legacy.memberName? = n.memberName? := by
  have hname : n.legacy.text? "memberName" = none := by
    rw [text?, attribute?_legacy hn]
    simp [renamed, hkind, Json.find?, isMoved, reserved]
  have hvalue : n.legacy.text? "member_name" = n.memberName? :=
    text?_renamed hn (by simp [renamed, hkind, Json.find?])
  rw [memberName?, hname, hvalue, Option.none_or]

theorem callForm_legacy (hn : n.IsPlain) (hkind : n.nodeType = "FunctionCall") :
    CallForm.ofNode n.legacy = CallForm.ofNode n := by
  have hname : n.legacy.text? "kind" = none := by
    rw [text?, attribute?_legacy hn]
    simp [renamed, hkind, Json.find?, isMoved, reserved]
  have hflag (key : String) (value : Bool) (hrenamed : Json.find? key n.renamed = some (.bool value)) :
      n.legacy.flag key = value := by
    rw [flag, attribute?_legacy hn, hrenamed]
    rfl
  have hconversion := hflag "type_conversion" (n.callKind == "typeConversion")
    (by simp [renamed, hkind, Json.find?])
  have hconstruction := hflag "isStructConstructorCall" (n.callKind == "structConstructorCall")
    (by simp [renamed, hkind, Json.find?])
  have hcall : n.legacy.callKind = if n.callKind == "typeConversion" then "typeConversion"
      else if n.callKind == "structConstructorCall" then "structConstructorCall"
      else "functionCall" := by
    rw [callKind, hname, hconversion, hconstruction]
  unfold CallForm.ofNode
  rw [hcall]
  by_cases h : n.callKind = "typeConversion"
  · simp [h]
  · by_cases h' : n.callKind = "structConstructorCall"
    · simp [h']
    · simp [h, h']

end Node

end Solidity

end ContractCalls
