/-
# Both dialects lower alike

The statements of a tree that fits the grammar read as those of its legacy
image, with the same source positions.  Main statement: lowering a definition
gives the same body, or the same failure, and the same counters in both
dialects.

The tree at the end breaks the one condition that the grammar does not ask for:
a type in front of a member is named by a node of its own.  The name is lost in
the image, and with it the function that is called.
-/
import ContractCalls.Proofs.Body.Calls
import ContractCalls.Proofs.Solidity.Legacy.Reading
import ContractCalls.Solidity.Loader

namespace ContractCalls.Solidity

open Role

/-! ## Variables -/

theorem VarDecl.ofNode_legacy {n : Node} (hn : n.IsPlain)
    (hkind : n.nodeType = "VariableDeclaration") : VarDecl.ofNode n.legacy = VarDecl.ofNode n := by
  rw [VarDecl.ofNode, VarDecl.ofNode, Node.name?, Node.text?_legacy hn hkind (by decide),
    Node.ty_legacy hn, Node.id?_legacy hn]
  rfl

theorem map_parameters_legacy {n : Node} (hn : n.IsPlain) (hfits : n.Fits)
    (hkind : n.nodeType = "ParameterList") :
    ((n.nodes "parameters").map Node.legacy).map VarDecl.ofNode =
      (n.nodes "parameters").map VarDecl.ofNode := by
  have hrole : only "VariableDeclaration" .list "parameters" ∈ roles n.nodeType := by
    rw [hkind]
    exact .head _
  rw [List.map_map]
  refine List.map_congr_left fun c hc => ?_
  exact VarDecl.ofNode_legacy (Node.isPlain_of_nodes hn hc) (eq_of_beq ((hfits _ hrole).2 c hc))

theorem declarations_legacy {n : Node} (hn : n.IsPlain) (hfits : n.Fits)
    (hkind : n.nodeType = "VariableDeclarationStatement") :
    ((n.legacy.optionalFields "declarations").map fun d => d.map VarDecl.ofNode) =
      (n.optionalFields "declarations").map fun d => d.map VarDecl.ofNode := by
  have hrole : only "VariableDeclaration" .list "declarations" ∈ roles n.nodeType := by
    rw [hkind]
    exact .head _
  rw [Node.optionalFields_legacy_declarations hn hfits hkind, List.map_map]
  refine List.map_congr_left fun d hd => ?_
  cases d with
  | none => rfl
  | some c =>
      have hmem : c ∈ n.fields "declarations" := List.mem_filterMap.2 ⟨some c, hd, rfl⟩
      rw [Node.fields_eq_nodes hn] at hmem
      exact congrArg some (VarDecl.ofNode_legacy (Node.isPlain_of_nodes hn hmem)
        (eq_of_beq ((hfits _ hrole).2 c hmem)))

theorem clauseParameters_legacy {n : Node} (h : n.Grammatical) (hkind : n.nodeType = "TryCatchClause") :
    clauseParameters n.legacy = clauseParameters n := by
  have hrole : only "ParameterList" .single "parameters" ∈ roles n.nodeType := by
    rw [hkind]
    exact .head _
  rw [clauseParameters, clauseParameters, Node.field?_legacy_parameters h.isPlain h.fits hkind,
    Option.map_map, Node.field?_eq_child? h.isPlain]
  cases hc : n.child? "parameters" with
  | none => rfl
  | some c =>
      have hmem : c ∈ (only "ParameterList" .single "parameters").parts n := by
        simp [Role.parts, only, hc]
      have hlist := h.parts (Node.mem_readParts hrole rfl hmem)
      have hlistKind : c.nodeType = "ParameterList" := eq_of_beq ((h.fits _ hrole).2 c hmem)
      simp only [Option.map_some, Option.getD_some, Function.comp_apply]
      rw [Node.fields_legacy hlist.isPlain hlist.fits hlistKind (by decide),
        Node.fields_eq_nodes hlist.isPlain,
        map_parameters_legacy hlist.isPlain hlist.fits hlistKind]

/-! ## Statements -/

theorem Node.Grammatical.partsAlike {n : Node} (h : n.Grammatical) : n.PartsAlike Expr.ofNode :=
  fun _ hc => (h.parts hc).readsAlike.expression

theorem returnValues?_legacy {n : Node} (h : n.Grammatical) (hkind : n.nodeType = "Return") :
    returnValues? n.legacy = returnValues? n := by
  rw [returnValues?, returnValues?, Node.field?_legacy h.isPlain h.fits hkind (by decide),
    Option.map_map, Node.field?_eq_child? h.isPlain]
  cases hc : n.child? "expression" with
  | none => rfl
  | some c =>
      have hvalue := h.parts (Node.mem_readParts_of_child? hkind (by decide) hc)
      refine congrArg some ?_
      simp only [Function.comp_apply]
      rw [Node.is_legacy hvalue.isPlain, hvalue.readsAlike.expression]
      split
      · next htuple =>
          have hcomponents := map_components_legacy hvalue.isPlain hvalue.fits hvalue.partsAlike
            (eq_of_beq htuple)
          rw [← Node.mapFields_eq, ← Node.mapFields_eq, Node.mapFields, Node.mapFields,
            Node.mapOptionalFields_eq, Node.mapOptionalFields_eq, hcomponents]
      · rfl

/-- What a clause reads as. -/
def Clause.ofNode (locate : Node → Option Span) (n : Node) : Clause :=
  .clause (clauseParameters n) (((n.field? "block").map (Stmt.ofNode locate)).getD .skip)

/-- A statement and a clause are read from a node as from its image. -/
structure Node.RunsAlike (locate : Node → Option Span) (n : Node) : Prop where
  statement : Stmt.ofNode locate n.legacy = Stmt.ofNode locate n
  clause : n.nodeType = "TryCatchClause" → Clause.ofNode locate n.legacy = Clause.ofNode locate n

/-- The clauses behind a call that is tried. -/
theorem map_clauses_legacy {locate : Node → Option Span} {n : Node} (hn : n.IsPlain) (hfits : n.Fits)
    (ih : ∀ c ∈ n.readParts, c.RunsAlike locate) (hkind : n.nodeType = "TryStatement") :
    (n.legacy.fields "clauses").map (Clause.ofNode locate) =
      (n.fields "clauses").map (Clause.ofNode locate) := by
  have hrole : only "TryCatchClause" .list "clauses" ∈ roles n.nodeType := by
    rw [hkind]
    exact .tail _ (.head _)
  rw [Node.fields_legacy hn hfits hkind (by decide), List.map_map, Node.fields_eq_nodes hn]
  refine List.map_congr_left fun c hc => ?_
  exact (ih c (Node.mem_readParts hrole rfl hc)).clause (eq_of_beq ((hfits _ hrole).2 c hc))

section Statements

variable {locate : Node → Option Span}
  (hlocate : ∀ n : Node, n.IsPlain → locate n.legacy = locate n)
  {n : Node} (h : n.Grammatical) (ih : ∀ c ∈ n.readParts, c.RunsAlike locate)

include hlocate h ih

theorem stmtOfNode_legacy : Stmt.ofNode locate n.legacy = Stmt.ofNode locate n := by
  have hn := h.isPlain
  have hfits := h.fits
  have hstatements : n.PartsAlike (Stmt.ofNode locate) := fun c hc => (ih c hc).statement
  have hexpression {kind : String} (hkind : n.nodeType = kind) (key : String)
      (hposition : Node.isPositional kind key) (hreads : Node.readsOne kind key) :
      Expr.part? n.legacy key = Expr.part? n key :=
    map_field?_legacy hn hfits h.partsAlike hkind key hposition hreads
  have hrequired {kind : String} (hkind : n.nodeType = kind) (key : String)
      (hposition : Node.isPositional kind key) (hreads : Node.readsOne kind key) :=
    required_legacy hn hfits h.partsAlike hkind key hposition hreads
  have hstatement {kind : String} (hkind : n.nodeType = kind) (key : String)
      (hposition : Node.isPositional kind key) (hreads : Node.readsOne kind key) :=
    map_field?_legacy hn hfits hstatements hkind key hposition hreads
  rw [Stmt.ofNode, Stmt.ofNode, hlocate n hn]
  refine congrArg (Stmt.located _) ?_
  simp only [Node.nodeType_legacy hn, Node.mapField_eq, Node.mapFields_eq]
  -- the kinds of statements in the order in which they are read; what has no parts is left for last
  split
  case h_1 hkind | h_2 hkind => rw [map_fields_legacy hn hfits hstatements hkind (by decide)]
  case h_3 hkind => rw [Stmt.ofPart, Stmt.ofPart, hexpression hkind "expression" (by decide) (by decide)]
  case h_4 hkind =>
    have hinitial : Expr.part? n.legacy "initialValue" = Expr.part? n "initialValue" :=
      map_field?_of_partsAlike hn h.partsAlike hkind
        (Node.field?_legacy_initialValue hn hfits hkind) (by decide)
    rw [declarations_legacy hn hfits hkind, hinitial]
  case h_5 hkind =>
    rw [hrequired hkind "condition" (by decide) (by decide),
      hstatement hkind "trueBody" (by decide) (by decide),
      hstatement hkind "falseBody" (by decide) (by decide)]
  case h_6 hkind | h_7 hkind =>
    rw [hrequired hkind "condition" (by decide) (by decide),
      hstatement hkind "body" (by decide) (by decide)]
  case h_8 hkind =>
    have hpart (key : String) (hkey : key = "body" ∨ key ∈ Node.headKeys) :=
      map_field?_of_partsAlike hn hstatements hkind (Node.forPart_legacy hn hfits hkind hkey)
    have hcondition : Expr.part? n.legacy "condition" = Expr.part? n "condition" :=
      map_field?_of_partsAlike hn h.partsAlike hkind
        (Node.forPart_legacy hn hfits hkind (.inr (by decide))) (by decide)
    rw [hpart "initializationExpression" (.inr (by decide)) (by decide), hcondition,
      hpart "loopExpression" (.inr (by decide)) (by decide), hpart "body" (.inl rfl) (by decide)]
  case h_11 hkind => rw [returnValues?_legacy h hkind]
  case h_12 hkind => rw [Stmt.ofPart, Stmt.ofPart, hexpression hkind "eventCall" (by decide) (by decide)]
  case h_13 hkind => rw [hexpression hkind "errorCall" (by decide) (by decide)]
  case h_15 hkind =>
    rw [hrequired hkind "externalCall" (by decide) (by decide)]
    exact congrArg (Stmt.tryCatch _) (map_clauses_legacy hn hfits ih hkind)
  all_goals rfl

omit hlocate in
theorem clauseOfNode_legacy (hkind : n.nodeType = "TryCatchClause") :
    Clause.ofNode locate n.legacy = Clause.ofNode locate n := by
  have hblock : (n.legacy.field? "block").map (Stmt.ofNode locate) =
      (n.field? "block").map (Stmt.ofNode locate) :=
    map_field?_of_partsAlike h.isPlain (fun c hc => (ih c hc).statement) hkind
      (Node.field?_legacy_block h.isPlain h.fits hkind) (by decide)
  rw [Clause.ofNode, Clause.ofNode, clauseParameters_legacy h hkind, hblock]

end Statements

theorem Node.Grammatical.runsAlike {locate : Node → Option Span}
    (hlocate : ∀ n : Node, n.IsPlain → locate n.legacy = locate n) {n : Node} (h : n.Grammatical) :
    n.RunsAlike locate := by
  induction h with
  | node hn hfits hnames hparts ih =>
      have hnode := Grammatical.node hn hfits hnames hparts
      exact ⟨stmtOfNode_legacy hlocate hnode ih, clauseOfNode_legacy hnode ih⟩

/-! ## Definitions -/

section Definitions

variable {n : Node} (h : n.Grammatical)
  (hkind : n.nodeType = "FunctionDefinition" ∨ n.nodeType = "ModifierDefinition")

include h hkind

/-- The parameters of a definition. -/
theorem map_parameterList_legacy :
    (n.legacy.parameterList "parameters" 0).map VarDecl.ofNode =
        (n.parameterList "parameters" 0).map VarDecl.ofNode ∧
      (n.legacy.parameterList "returnParameters" 1).map VarDecl.ofNode =
        (n.parameterList "returnParameters" 1).map VarDecl.ofNode := by
  have hlist (key : String) (hkey : key ∈ ["parameters", "returnParameters"]) (c : Node)
      (hc : n.child? key = some c) : c.Grammatical ∧ c.nodeType = "ParameterList" := by
    obtain ⟨shape, hrole, hmem⟩ := Node.exists_role_of_parameters hkind hkey hc
    exact ⟨h.parts (Node.mem_readParts hrole rfl hmem), eq_of_beq ((h.fits _ hrole).2 c hmem)⟩
  have hmap (key : String) (hkey : key ∈ ["parameters", "returnParameters"]) (position : Nat) :
      ((n.parameterList key position).map Node.legacy).map VarDecl.ofNode =
        (n.parameterList key position).map VarDecl.ofNode := by
    have hcompact : n.parameterList key position =
        ((n.child? key).map (·.nodes "parameters")).getD [] := by
      obtain ⟨fields, rfl⟩ := h.isPlain
      rfl
    rw [hcompact]
    cases hc : n.child? key with
    | none => rfl
    | some c =>
        obtain ⟨hgrammatical, hlistKind⟩ := hlist key hkey c hc
        exact map_parameters_legacy hgrammatical.isPlain hgrammatical.fits hlistKind
  obtain ⟨hparameters, hreturns⟩ := Node.parameterList_legacy h.isPlain h.fits hkind
    fun key hkey c hc => (hlist key hkey c hc).1.fits
  rw [hparameters, hreturns]
  exact ⟨hmap "parameters" (by simp) 0, hmap "returnParameters" (by simp) 1⟩

theorem definition_legacy {locate : Node → Option Span}
    (hlocate : ∀ n : Node, n.IsPlain → locate n.legacy = locate n) :
    Definition.ofNode? locate n.legacy = Definition.ofNode? locate n := by
  obtain ⟨hparameters, hreturns⟩ := map_parameterList_legacy h hkind
  rw [Definition.ofNode?, Definition.ofNode?, Node.field?_legacy_body h.isPlain h.fits hkind,
    Option.map_map, hparameters, hreturns, Node.field?_eq_child? h.isPlain]
  cases hc : n.child? "body" with
  | none => rfl
  | some c =>
      have hread : c ∈ n.readParts := by
        rcases hkind with hkind | hkind <;> exact Node.mem_readParts_of_child? hkind (by decide) hc
      have hbody : c.Grammatical := h.parts hread
      simp [(hbody.runsAlike hlocate).statement]

/-- A definition and its legacy image lower to the same body, or fail in the same way, and leave the
same counters. -/
theorem lowerDefinition_legacy (l : Loader) (context : Option ContractId) (file : String)
    (counters : Counters) :
    l.lowerDefinition context file n.legacy counters = l.lowerDefinition context file n counters := by
  have hdefinition : Definition.ofNode? (·.span? l.unit.sourceList file) n.legacy =
      Definition.ofNode? (·.span? l.unit.sourceList file) n :=
    definition_legacy h hkind fun c hc => Node.span?_legacy hc _ _
  rw [Loader.lowerDefinition, Loader.lowerDefinition, hdefinition]

end Definitions

/-! ## A type in front of a member -/

/-- A type with the given name. -/
def typeNode (name : Json) : Node :=
  ⟨.compact, .object [("nodeType", .string "ElementaryTypeNameExpression"), ("typeName", name)]⟩

/-- The member `concat` of a type. -/
def concatNode (name : Json) : Node :=
  ⟨.compact, .object [("expression", (typeNode name).json), ("memberName", .string "concat"),
    ("nodeType", .string "MemberAccess")]⟩

/-- A call of it. -/
def concatCall (name : Json) : Node :=
  ⟨.compact, .object [("arguments", .array []), ("expression", (concatNode name).json),
    ("kind", .string "functionCall"), ("nodeType", .string "FunctionCall")]⟩

/-- That call as a statement. -/
def concatStatement (name : Json) : Node :=
  ⟨.compact, .object [("expression", (concatCall name).json),
    ("nodeType", .string "ExpressionStatement")]⟩

/-- That statement in a block. -/
def concatBlock (name : Json) : Node :=
  ⟨.compact, .object [("nodeType", .string "Block"),
    ("statements", .array [(concatStatement name).json])]⟩

/-- A list of no parameters. -/
def noParameters : Node :=
  ⟨.compact, .object [("nodeType", .string "ParameterList"), ("parameters", .array [])]⟩

/-- A function with that block as its body. -/
def concatFunction (name : Json) : Node :=
  ⟨.compact, .object [("body", (concatBlock name).json), ("nodeType", .string "FunctionDefinition"),
    ("parameters", noParameters.json), ("returnParameters", noParameters.json)]⟩

namespace Node

/-- A node or its image. -/
def inDialect (n : Node) : Dialect → Node
  | .compact => n
  | .legacy => n.legacy

variable {n : Node} (hn : n.IsPlain) (dialect : Dialect)

include hn

theorem nodeType_inDialect : (n.inDialect dialect).nodeType = n.nodeType := by
  cases dialect with
  | compact => rfl
  | legacy => exact nodeType_legacy hn

theorem typeText?_inDialect : (n.inDialect dialect).typeText? = n.typeText? := by
  cases dialect with
  | compact => rfl
  | legacy => exact typeText?_legacy hn

theorem span?_inDialect (files : List String) (file : String) :
    (n.inDialect dialect).span? files file = n.span? files file := by
  cases dialect with
  | compact => rfl
  | legacy => exact span?_legacy hn files file

end Node

section Concat

variable (name : Json) (dialect : Dialect)

theorem ofNode_concatNode :
    Expr.ofNode ((concatNode name).inDialect dialect) =
      .member none (.typeName none (typeExpressionName? ((typeNode name).inDialect dialect)))
        "concat" none := by
  have hplain : (typeNode name).IsPlain := ⟨_, rfl⟩
  have hfield : ((concatNode name).inDialect dialect).field? "expression" =
      some ((typeNode name).inDialect dialect) := by
    cases dialect <;> rfl
  have hreceiver : Expr.receiverOfNode ((typeNode name).inDialect dialect) =
      .typeName none (typeExpressionName? ((typeNode name).inDialect dialect)) := by
    rw [Expr.receiverOfNode, Node.is, Node.nodeType_inDialect hplain, Node.typeText?_inDialect hplain]
    rfl
  rw [Expr.ofNode_member (Node.nodeType_inDialect ⟨_, rfl⟩ _), hfield, Option.map_some, hreceiver]
  cases dialect <;> rfl

theorem ofNode_concatCall :
    Expr.ofNode ((concatCall name).inDialect dialect) =
      .call none .ordinary [] (Expr.ofNode ((concatNode name).inDialect dialect)) [] [] := by
  have hplain : (concatCall name).IsPlain := ⟨_, rfl⟩
  have hcalled : (concatNode name).IsPlain := ⟨_, rfl⟩
  have hkind : ((concatCall name).inDialect dialect).nodeType = "FunctionCall" :=
    Node.nodeType_inDialect hplain _
  have hfield : ((concatCall name).inDialect dialect).field? "expression" =
      some ((concatNode name).inDialect dialect) := by
    cases dialect <;> rfl
  have harguments : ((concatCall name).inDialect dialect).fields "arguments" = [] := by
    cases dialect <;> rfl
  have hcallee : Expr.calleeOfNode ((concatNode name).inDialect dialect) =
      ([], Expr.ofNode ((concatNode name).inDialect dialect)) := by
    rw [Expr.calleeOfNode, Node.is, Node.nodeType_inDialect hcalled]
    rfl
  have hform : CallForm.ofNode ((concatCall name).inDialect dialect) = .ordinary := by
    cases dialect with
    | compact => rfl
    | legacy => exact Node.callForm_legacy hplain rfl
  have hnames : argumentNames ((concatCall name).inDialect dialect) = [] := by
    cases dialect with
    | compact => rfl
    | legacy => exact Node.argumentNames_legacy hplain rfl
  rw [Expr.ofNode]
  simp only [hkind, Node.mapField_eq, Node.mapFields_eq, hfield, harguments, hcallee, hform, hnames,
    Option.map_some, Option.getD_some, Node.typeText?_inDialect hplain, List.map_nil]
  rfl

/-- A function that calls `concat` of a type with the given name. -/
def concatDefinition (typeName : Option String) : Definition :=
  ⟨[], [], .located none (.block [.located none (.expression (.call none .ordinary []
    (.member none (.typeName none typeName) "concat" none) [] []))])⟩

theorem ofNode?_concatFunction (files : List String) :
    Definition.ofNode? (·.span? files "") ((concatFunction name).inDialect dialect) =
      some (concatDefinition (typeExpressionName? ((typeNode name).inDialect dialect))) := by
  have hstatement : (concatStatement name).IsPlain := ⟨_, rfl⟩
  have hblock : (concatBlock name).IsPlain := ⟨_, rfl⟩
  have hbody : ((concatFunction name).inDialect dialect).field? "body" =
      some ((concatBlock name).inDialect dialect) := by
    cases dialect <;> rfl
  have hstatements : ((concatBlock name).inDialect dialect).fields "statements" =
      [(concatStatement name).inDialect dialect] := by
    cases dialect <;> rfl
  have hexpression : ((concatStatement name).inDialect dialect).field? "expression" =
      some ((concatCall name).inDialect dialect) := by
    cases dialect <;> rfl
  have hparameters : ((concatFunction name).inDialect dialect).parameterList "parameters" 0 = [] ∧
      ((concatFunction name).inDialect dialect).parameterList "returnParameters" 1 = [] := by
    cases dialect <;> exact ⟨rfl, rfl⟩
  have hcall : Stmt.ofNode (·.span? files "") ((concatStatement name).inDialect dialect) =
      .located none (.expression (Expr.ofNode ((concatCall name).inDialect dialect))) := by
    rw [Stmt.ofNode, Node.span?_inDialect hstatement, Node.nodeType_inDialect hstatement]
    simp only [Stmt.ofPart, Expr.part?, hexpression, Option.map_some]
    rfl
  rw [Definition.ofNode?, hbody, hparameters.1, hparameters.2, Option.map_some, Stmt.ofNode,
    Node.span?_inDialect hblock, Node.nodeType_inDialect hblock]
  simp only [Node.mapFields_eq, hstatements]
  rw [List.map_singleton, hcall, ofNode_concatCall, ofNode_concatNode]
  rfl

end Concat

/-- The function fits the grammar if it names the type by a text. -/
theorem grammatical_concatFunction : (concatFunction (.string "bytes")).Grammatical := by
  have hlist : noParameters.Grammatical := .node ⟨_, rfl⟩ (by decide) (by decide) nofun
  have htype : (typeNode (.string "bytes")).Grammatical :=
    .node ⟨_, rfl⟩ (by decide) (by decide) nofun
  have hmember : (concatNode (.string "bytes")).Grammatical :=
    .node ⟨_, rfl⟩ (by decide) (by decide) (List.forall_mem_singleton.2 htype)
  have hcall : (concatCall (.string "bytes")).Grammatical :=
    .node ⟨_, rfl⟩ (by decide) (by decide) (List.forall_mem_singleton.2 hmember)
  have hstatement : (concatStatement (.string "bytes")).Grammatical :=
    .node ⟨_, rfl⟩ (by decide) (by decide) (List.forall_mem_singleton.2 hcall)
  have hblock : (concatBlock (.string "bytes")).Grammatical :=
    .node ⟨_, rfl⟩ (by decide) (by decide) (List.forall_mem_singleton.2 hstatement)
  refine .node ⟨_, rfl⟩ (by decide) (by decide) ?_
  show ∀ c ∈ [noParameters, noParameters, concatBlock (.string "bytes")], c.Grammatical
  simp [hlist, hblock]

/-- Nothing is declared around a definition that is lowered on its own. -/
def lone : Loader := .new "" [] .stopOnFirst

/-- The callees of a definition that is lowered on its own. -/
def loweredCallees (n : Node) : Option (List Callee) :=
  (lone.lowerDefinition none "" n .start).1.toOption.join.map Body.callees

theorem loweredCallees_inDialect {name : Json} (dialect : Dialect) {typeName : Option String}
    {callees : List Callee} (hname : typeExpressionName? ((typeNode name).inDialect dialect) = typeName)
    (hrun : (Build.runBody ((concatDefinition typeName).lower ⟨lone.unit, lone.index, none⟩)
      .start).1.toOption.map Body.callees = some callees) :
    loweredCallees ((concatFunction name).inDialect dialect) = some callees := by
  rw [loweredCallees, Loader.lowerDefinition, ofNode?_concatFunction, hname, ← hrun]
  dsimp only
  generalize Build.runBody ((concatDefinition typeName).lower ⟨lone.unit, lone.index, none⟩)
    .start = run
  obtain ⟨result, counters⟩ := run
  cases result <;> rfl

/-- The image of a function that names the type by a text calls what the function calls. -/
theorem concatFunction_lowers_alike :
    lone.lowerDefinition none "" (concatFunction (.string "bytes")).legacy .start =
      lone.lowerDefinition none "" (concatFunction (.string "bytes")) .start ∧
    loweredCallees (concatFunction (.string "bytes")).legacy = some [.builtin "bytes.concat()"] := by
  have hlower := lowerDefinition_legacy grammatical_concatFunction (.inl rfl) lone none "" .start
  have hcompact : loweredCallees (concatFunction (.string "bytes")) =
      some [.builtin "bytes.concat()"] :=
    loweredCallees_inDialect .compact rfl (by decide +kernel)
  exact ⟨hlower, by rwa [loweredCallees, hlower]⟩

/-- A type that is named by a node of its own. -/
def bytesName : Json :=
  .object [("name", .string "bytes"), ("nodeType", .string "ElementaryTypeName")]

/-- The image of a function that names the type by a node calls something else. -/
theorem concatFunction_lowers_apart :
    loweredCallees (concatFunction bytesName) = some [.builtin "bytes.concat()"] ∧
    loweredCallees (concatFunction bytesName).legacy =
      some [.builtin "ElementaryTypeNameExpression.concat()"] ∧
    lone.lowerDefinition none "" (concatFunction bytesName).legacy .start ≠
      lone.lowerDefinition none "" (concatFunction bytesName) .start := by
  have hcompact : loweredCallees (concatFunction bytesName) = some [.builtin "bytes.concat()"] :=
    loweredCallees_inDialect .compact rfl (by decide +kernel)
  have hlegacy : loweredCallees (concatFunction bytesName).legacy =
      some [.builtin "ElementaryTypeNameExpression.concat()"] :=
    loweredCallees_inDialect .legacy rfl (by decide +kernel)
  refine ⟨hcompact, hlegacy, fun h => ?_⟩
  rw [loweredCallees, h, ← loweredCallees, hcompact] at hlegacy
  exact absurd hlegacy (by decide)

end ContractCalls.Solidity
