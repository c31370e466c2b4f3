/-
# Both dialects read expressions alike

The expression read from a compact tree that fits the grammar is the expression
read from its legacy image.  What is found in the image is said once for any
function of parts (`Node.PartsAlike`); an expression, a place and a callee then
read alike if those of the parts do, and the rest is induction over the tree.

There is one exception.  The legacy dialect knows no position for the name of
an elementary type, so the name of a type in front of a member, as in
`bytes.concat`, is lost in the image if it is a node of its own.
-/
import ContractCalls.Proofs.Solidity.Decode
import ContractCalls.Proofs.Solidity.Legacy.Parts

namespace ContractCalls.Solidity

open Role

namespace Node

variable {n c : Node}

/-- No type in front of a member is named by a node of its own. -/
def NamesNoType (n : Node) : Prop :=
  n.nodeType = "MemberAccess" → ∀ c ∈ n.child? "expression",
    c.nodeType = "ElementaryTypeNameExpression" → (c.child? "typeName").bind (·.name?) = none

instance (n : Node) : Decidable n.NamesNoType :=
  inferInstanceAs (Decidable (n.nodeType = "MemberAccess" → ∀ c ∈ n.child? "expression",
    c.nodeType = "ElementaryTypeNameExpression" → (c.child? "typeName").bind (·.name?) = none))

/-- The parts of a node that lowering reads. -/
def readParts (n : Node) : List Node :=
  ((roles n.nodeType).filter (·.isRead)).flatMap (·.parts n)

/-- A compact tree that fits the grammar in all that is read of it, with no type in front of a
member named by a node. -/
inductive Grammatical : Node → Prop where
  | node {n : Node} : n.IsPlain → n.Fits → n.NamesNoType → (∀ c ∈ n.readParts, Grammatical c) →
      Grammatical n

theorem Grammatical.isPlain (h : Grammatical n) : n.IsPlain := by
  cases h with
  | node hn => exact hn

theorem Grammatical.fits (h : Grammatical n) : n.Fits := by
  cases h with
  | node _ hfits => exact hfits

theorem Grammatical.parts (h : Grammatical n) (hc : c ∈ n.readParts) : Grammatical c := by
  cases h with
  | node _ _ _ hparts => exact hparts c hc

theorem mem_readParts {r : Role} (hr : r ∈ roles n.nodeType) (hread : r.isRead) (hc : c ∈ r.parts n) :
    c ∈ n.readParts :=
  List.mem_flatMap.2 ⟨r, List.mem_filter.2 ⟨hr, hread⟩, hc⟩

/-- The node type has a role for a single part under the key, and the part is read. -/
def readsOne (nodeType key : String) : Bool :=
  (roles nodeType).any fun r =>
    r.key == key && r.isRead && (r.shape == .leading || r.shape == .single)

theorem mem_readParts_of_child? {kind key : String} (hkind : n.nodeType = kind)
    (hreads : readsOne kind key) (hc : n.child? key = some c) : c ∈ n.readParts := by
  obtain ⟨r, hr, hrole⟩ := List.any_eq_true.1 hreads
  simp only [Bool.and_eq_true, Bool.or_eq_true, beq_iff_eq] at hrole
  obtain ⟨⟨rfl, hread⟩, hshape⟩ := hrole
  refine mem_readParts (hkind ▸ hr) hread ?_
  rcases hshape with hshape | hshape <;> simp [Role.parts, hshape, hc]

theorem mem_readParts_of_fields {kind key : String} (hn : n.IsPlain) (hkind : n.nodeType = kind)
    (hlist : hasList kind key) (hc : c ∈ n.fields key) : c ∈ n.readParts := by
  obtain ⟨before, hmem⟩ := mem_lists_of_hasList hlist
  obtain ⟨r, hroles, -, hread, hnodes⟩ := roles_of_mem_lists hmem
  have hr : r ∈ roles n.nodeType := by
    rw [hkind, hroles]
    exact List.mem_append_right _ (List.mem_singleton_self _)
  rw [fields_eq_nodes hn, ← hnodes] at hc
  exact mem_readParts hr hread hc

/-! ## Attributes that are read whole -/

theorem argumentNames_legacy (hn : n.IsPlain) (hkind : n.nodeType = "FunctionCall") :
    argumentNames n.legacy = argumentNames n := by
  have hcompact : n.attribute? "names" = (n.json.get? "names").filter fun v => !v.isNull := by
    obtain ⟨fields, rfl⟩ := hn
    rfl
  have hrenamed : Json.find? "names" n.renamed = none := by
    refine find?_eq_none fun h => ?_
    have hkeys := n.map_fst_renamed_subset h
    rw [hkind] at hkeys
    exact absurd hkeys (by decide)
  have hmoved : n.isMoved "names" = true := by
    rw [isMoved, holdsParts, hkind]
    rfl
  have hnames : n.legacy.attribute? "names" = n.attribute? "names" := by
    rw [attribute?_legacy hn, hcompact, hrenamed, hmoved]
    rfl
  rw [argumentNames, argumentNames, hnames]

theorem literal_legacy (hn : n.IsPlain) (hkind : n.nodeType = "Literal") :
    Literal.value n.legacy = Literal.value n := by
  have htext (key : String) (hkeeps : keepsName "Literal" key) : n.legacy.text? key = n.text? key :=
    text?_legacy hn hkind hkeeps
  unfold Literal.value
  rw [htext "value" (by decide), htext "kind" (by decide), htext "token" (by decide),
    htext "hexValue" (by decide), htext "hexvalue" (by decide), htext "subdenomination" (by decide),
    ty_legacy hn]

theorem typeExpressionName?_legacy (hn : n.IsPlain)
    (hkind : n.nodeType = "ElementaryTypeNameExpression")
    (hname : (n.child? "typeName").bind (·.name?) = none) :
    typeExpressionName? n.legacy = typeExpressionName? n := by
  have hlegacy : n.legacy.field? "typeName" = none := by
    show n.legacy.legacyField? "typeName" = none
    unfold legacyField?
    rw [nodeType_legacy hn, hkind]
    rfl
  rw [typeExpressionName?, typeExpressionName?, hlegacy, field?_eq_child? hn, hname,
    text?_legacy hn hkind (by decide), text?_legacy hn hkind (by decide)]
  rfl

theorem unknown_legacy (hn : n.IsPlain) : Expr.unknown n.legacy = Expr.unknown n := by
  have hlabel : (if n.legacy.is "IdentifierPath" then n.legacy.identifierName?.getD ""
        else n.legacy.typeText?.getD n.legacy.nodeType) =
      if n.is "IdentifierPath" then n.identifierName?.getD "" else n.typeText?.getD n.nodeType := by
    rw [is_legacy hn, typeText?_legacy hn, nodeType_legacy hn]
    split
    · next h =>
        have hkind : n.nodeType = "IdentifierPath" := eq_of_beq h
        rw [identifierName?, identifierName?, text?_legacy hn hkind (by decide),
          text?_legacy hn hkind (by decide), text?_legacy hn hkind (by decide)]
    · rfl
  unfold Expr.unknown
  rw [typeText?_legacy hn, nodeType_legacy hn]
  rw [typeText?_legacy hn, nodeType_legacy hn] at hlabel
  simp only [hlabel]

end Node

/-! ## Parts that read alike -/

/-- The parts of a node that are read give what their images give. -/
def Node.PartsAlike {α : Type} (f : Node → α) (n : Node) : Prop :=
  ∀ c ∈ n.readParts, f c.legacy = f c

section Parts

variable {α : Type} {f : Node → α} {n : Node} {kind key : String} (hn : n.IsPlain) (hfits : n.Fits)
  (halike : n.PartsAlike f)

include hn halike

/-- A part that is found in the image. -/
theorem map_field?_of_partsAlike (hkind : n.nodeType = kind)
    (hfield : n.legacy.field? key = (n.field? key).map Node.legacy) (hreads : Node.readsOne kind key) :
    (n.legacy.field? key).map f = (n.field? key).map f := by
  rw [hfield, Option.map_map, Node.field?_eq_child? hn]
  cases hc : n.child? key with
  | none => rfl
  | some c => exact congrArg some (halike c (Node.mem_readParts_of_child? hkind hreads hc))

include hfits

/-- A part at a position. -/
theorem map_field?_legacy (hkind : n.nodeType = kind) (key : String)
    (hposition : Node.isPositional kind key) (hreads : Node.readsOne kind key) :
    (n.legacy.field? key).map f = (n.field? key).map f :=
  map_field?_of_partsAlike hn halike hkind (Node.field?_legacy hn hfits hkind hposition) hreads

theorem map_fields_legacy (hkind : n.nodeType = kind) (hlist : Node.hasList kind key) :
    (n.legacy.fields key).map f = (n.fields key).map f := by
  rw [Node.fields_legacy hn hfits hkind hlist, List.map_map]
  exact List.map_congr_left fun c hc => halike c (Node.mem_readParts_of_fields hn hkind hlist hc)

theorem map_components_legacy (hkind : n.nodeType = "TupleExpression") :
    (n.legacy.optionalFields "components").map (Option.map f) =
      (n.optionalFields "components").map (Option.map f) := by
  have hrole : of .sparse "components" ∈ roles n.nodeType := by
    rw [hkind]
    exact .head _
  rw [Node.optionalFields_legacy_tuple hn hfits hkind, List.map_map]
  refine List.map_congr_left fun c hc => ?_
  cases c with
  | none => rfl
  | some c =>
      have hmem : c ∈ n.fields "components" := List.mem_filterMap.2 ⟨some c, hc, rfl⟩
      rw [Node.fields_eq_nodes hn] at hmem
      exact congrArg some (halike c (Node.mem_readParts hrole rfl hmem))

end Parts

/-! ## Expressions -/

/-- An expression, a place, a callee and the targets of an assignment are read from a node as from
its image. -/
structure Node.ReadsAlike (n : Node) : Prop where
  expression : Expr.ofNode n.legacy = Expr.ofNode n
  place : Expr.placeOfNode n.legacy = Expr.placeOfNode n
  callee : Expr.calleeOfNode n.legacy = Expr.calleeOfNode n
  targets : n.nodeType = "TupleExpression" →
    (n.legacy.optionalFields "components").map (Option.map Expr.placeOfNode) =
      (n.optionalFields "components").map (Option.map Expr.placeOfNode)

theorem required_legacy {n : Node} {kind : String} (hn : n.IsPlain) (hfits : n.Fits)
    (halike : n.PartsAlike Expr.ofNode) (hkind : n.nodeType = kind) (key : String)
    (hposition : Node.isPositional kind key) (hreads : Node.readsOne kind key) :
    Expr.required n.legacy key = Expr.required n key := by
  rw [Expr.required_eq, Expr.required_eq,
    map_field?_legacy hn hfits halike hkind key hposition hreads, Node.nodeType_legacy hn]

section Step

variable {n : Node} (hn : n.IsPlain) (hfits : n.Fits)
  (ih : ∀ c ∈ n.readParts, c.ReadsAlike)

include hn hfits ih

theorem placeOfNode_legacy (hexpression : Expr.ofNode n.legacy = Expr.ofNode n) :
    Expr.placeOfNode n.legacy = Expr.placeOfNode n := by
  rw [Expr.placeOfNode_eq, Expr.placeOfNode_eq n, Node.parenthesized?_legacy hn hfits, hexpression]
  cases hinner : n.parenthesized? with
  | none => rfl
  | some inner =>
      obtain ⟨hkind, hcomponents⟩ := Node.components_of_parenthesized? hinner
      have hplace : n.PartsAlike Expr.placeOfNode := fun c hc => (ih c hc).place
      have htargets := map_components_legacy hn hfits hplace hkind
      rw [Node.optionalFields_legacy_tuple hn hfits hkind, hcomponents] at htargets
      simpa using htargets

theorem calleeOfNode_legacy (hexpression : Expr.ofNode n.legacy = Expr.ofNode n) :
    Expr.calleeOfNode n.legacy = Expr.calleeOfNode n := by
  rw [Expr.calleeOfNode, Expr.calleeOfNode, Node.is_legacy hn]
  simp only [Node.mapField_eq, Node.mapFields_eq]
  have hparts : n.PartsAlike Expr.ofNode := fun c hc => (ih c hc).expression
  have hcallees : n.PartsAlike Expr.calleeOfNode := fun c hc => (ih c hc).callee
  split
  · next h =>
      have hkind : n.nodeType = "FunctionCallOptions" := eq_of_beq h
      rw [map_field?_legacy hn hfits hcallees hkind "expression" (by decide) (by decide),
        map_fields_legacy hn hfits hparts hkind (by decide), Node.nodeType_legacy hn]
  · rw [hexpression]

theorem ofNode_legacy_member (hkind : n.nodeType = "MemberAccess") (hnames : n.NamesNoType) :
    Expr.ofNode n.legacy = Expr.ofNode n := by
  have hreceiver (c : Node) (hc : n.child? "expression" = some c) :
      Expr.receiverOfNode c.legacy = Expr.receiverOfNode c := by
    have hplain := Node.isPlain_of_child? hn hc
    have halike : c.ReadsAlike := ih c (Node.mem_readParts_of_child? hkind (by decide) hc)
    rw [Expr.receiverOfNode, Expr.receiverOfNode, Node.is_legacy hplain,
      Node.typeText?_legacy hplain, halike.expression]
    split
    · next h =>
        have helementary : c.nodeType = "ElementaryTypeNameExpression" := eq_of_beq h
        rw [Node.typeExpressionName?_legacy hplain helementary (hnames hkind c hc helementary)]
    · rfl
  have hbase : (n.legacy.field? "expression").map Expr.receiverOfNode =
      (n.field? "expression").map Expr.receiverOfNode := by
    rw [Node.field?_legacy hn hfits hkind (by decide), Option.map_map, Node.field?_eq_child? hn]
    cases hc : n.child? "expression" with
    | none => rfl
    | some c => exact congrArg some (hreceiver c hc)
  rw [Expr.ofNode_member ((Node.nodeType_legacy hn).trans hkind), Expr.ofNode_member hkind, hbase,
    Node.typeText?_legacy hn, Node.nodeType_legacy hn, Node.memberName?_legacy hn hkind,
    Node.referencedDeclaration?, Node.int?_legacy hn hkind (by decide)]
  rfl

theorem ofNode_legacy_assignment (hkind : n.nodeType = "Assignment") :
    Expr.ofNode n.legacy = Expr.ofNode n := by
  have hparts : n.PartsAlike Expr.ofNode := fun c hc => (ih c hc).expression
  rw [Expr.ofNode_assignment ((Node.nodeType_legacy hn).trans hkind), Expr.ofNode_assignment hkind,
    Node.field?_legacy hn hfits hkind (by decide), Node.typeText?_legacy hn,
    Node.nodeType_legacy hn, Node.text?_legacy hn hkind (by decide),
    required_legacy hn hfits hparts hkind "rightHandSide" (by decide) (by decide), Node.field?_eq_child? hn]
  cases hc : n.child? "leftHandSide" with
  | none => rfl
  | some c =>
      have hplain := Node.isPlain_of_child? hn hc
      have halike : c.ReadsAlike := ih c (Node.mem_readParts_of_child? hkind (by decide) hc)
      simp only [Option.map_some]
      rw [Node.is_legacy hplain, Node.typeText?_legacy hplain, halike.place]
      by_cases htuple : c.nodeType = "TupleExpression"
      · have htargets := halike.targets htuple
        have hlength : (c.legacy.optionalFields "components").length =
            (c.optionalFields "components").length := by
          simpa using congrArg List.length htargets
        rw [htargets, hlength]
      · simp [Node.is, htuple]

theorem ofNode_legacy_range (hkind : n.nodeType = "IndexRangeAccess") :
    Expr.ofNode n.legacy = Expr.ofNode n := by
  have halike (c : Node)
      (hc : c ∈ (n.field? "startExpression").toList ++ (n.field? "endExpression").toList) :
      c.ReadsAlike := by
    rw [Node.field?_eq_child? hn, Node.field?_eq_child? hn] at hc
    refine ih c ?_
    rcases List.mem_append.1 hc with hc | hc
    · exact Node.mem_readParts_of_child? hkind (by decide) (Option.mem_toList.1 hc)
    · exact Node.mem_readParts_of_child? hkind (by decide) (Option.mem_toList.1 hc)
  have hbounds : ((n.legacy.field? "startExpression").map Expr.ofNode).toList ++
        ((n.legacy.field? "endExpression").map Expr.ofNode).toList =
      ((n.field? "startExpression").map Expr.ofNode).toList ++
        ((n.field? "endExpression").map Expr.ofNode).toList := by
    simp only [Option.toList_map, ← List.map_append]
    rw [Node.bounds_legacy hn hfits hkind, List.map_map]
    exact List.map_congr_left fun c hc => (halike c hc).expression
  have hparts : n.PartsAlike Expr.ofNode := fun c hc => (ih c hc).expression
  rw [Expr.ofNode, Expr.ofNode]
  simp only [Node.nodeType_legacy hn, hkind, Node.mapField_eq, Node.typeText?_legacy hn, hbounds,
    map_field?_legacy hn hfits hparts hkind "baseExpression" (by decide) (by decide)]

theorem ofNode_legacy (hnames : n.NamesNoType) : Expr.ofNode n.legacy = Expr.ofNode n := by
  by_cases hmember : n.nodeType = "MemberAccess"
  · exact ofNode_legacy_member hn hfits ih hmember hnames
  by_cases hassignment : n.nodeType = "Assignment"
  · exact ofNode_legacy_assignment hn hfits ih hassignment
  by_cases hrange : n.nodeType = "IndexRangeAccess"
  · exact ofNode_legacy_range hn hfits ih hrange
  have hparts : n.PartsAlike Expr.ofNode := fun c hc => (ih c hc).expression
  have hplaces : n.PartsAlike Expr.placeOfNode := fun c hc => (ih c hc).place
  have hcallees : n.PartsAlike Expr.calleeOfNode := fun c hc => (ih c hc).callee
  have hpart {kind : String} (hkind : n.nodeType = kind) (key : String)
      (hposition : Node.isPositional kind key) (hreads : Node.readsOne kind key) :=
    map_field?_legacy hn hfits hparts hkind key hposition hreads
  rw [Expr.ofNode, Expr.ofNode]
  simp only [Node.nodeType_legacy hn, Node.typeText?_legacy hn, Node.mapField_eq, Node.mapFields_eq,
    Node.mapOptionalFields_eq]
  -- the kinds of expressions in the order in which they are read
  split
  case h_1 hkind => rw [Node.literal_legacy hn hkind]
  case h_2 hkind =>
    rw [Node.identifierName?_legacy hn hkind, Node.referencedDeclaration?,
      Node.int?_legacy hn hkind (by decide)]
    rfl
  case h_3 hkind => exact absurd hkind hmember
  case h_4 hkind =>
    rw [hpart hkind "baseExpression" (by decide) (by decide),
      hpart hkind "indexExpression" (by decide) (by decide)]
  case h_5 hkind => exact absurd hkind hrange
  case h_6 hkind =>
    rw [hpart hkind "leftExpression" (by decide) (by decide),
      hpart hkind "rightExpression" (by decide) (by decide),
      Node.text?_legacy hn hkind (by decide)]
  case h_7 hkind =>
    have hplace := map_field?_legacy hn hfits hplaces hkind "subExpression" (by decide) (by decide)
    have hform : UnaryForm.ofNode n.legacy = UnaryForm.ofNode n := by
      unfold UnaryForm.ofNode
      rw [Node.text?_legacy hn hkind (by decide), Node.flag_legacy hn hkind (by decide)]
    rw [hpart hkind "subExpression" (by decide) (by decide), hplace, hform]
  case h_8 hkind => exact absurd hkind hassignment
  case h_9 hkind =>
    rw [hpart hkind "condition" (by decide) (by decide),
      hpart hkind "trueExpression" (by decide) (by decide),
      hpart hkind "falseExpression" (by decide) (by decide)]
  case h_10 hkind =>
    rw [Node.flag_legacy hn hkind (by decide),
      map_components_legacy hn hfits hparts hkind]
  case h_11 hkind =>
    rw [map_field?_legacy hn hfits hcallees hkind "expression" (by decide) (by decide),
      Node.callForm_legacy hn hkind, Node.argumentNames_legacy hn hkind,
      map_fields_legacy hn hfits hparts hkind (by decide)]
  case h_12 hkind => rw [hpart hkind "expression" (by decide) (by decide)]
  case h_13 => rfl
  case h_14 hkind =>
    rw [Node.field?_legacy hn hfits hkind (by decide), Option.map_map, Node.field?_eq_child? hn]
    cases hc : n.child? "typeName" with
    | none => rfl
    | some c => simp [Node.ty_legacy (Node.isPlain_of_child? hn hc)]
  case h_15 => exact Node.unknown_legacy hn

/-- A node is read as in the image if its parts are. -/
theorem readsAlike_of_parts (hnames : n.NamesNoType) : n.ReadsAlike := by
  have hexpression := ofNode_legacy hn hfits ih hnames
  exact
    { expression := hexpression
      place := placeOfNode_legacy hn hfits ih hexpression
      callee := calleeOfNode_legacy hn hfits ih hexpression
      targets := map_components_legacy hn hfits fun c hc => (ih c hc).place }

end Step

theorem Node.Grammatical.readsAlike {n : Node} (h : n.Grammatical) : n.ReadsAlike := by
  induction h with
  | node hn hfits hnames _ ih => exact readsAlike_of_parts hn hfits ih hnames

end ContractCalls.Solidity
