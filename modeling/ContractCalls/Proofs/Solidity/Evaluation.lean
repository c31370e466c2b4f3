/-
# Lowered Solidity code calls what is evaluated

The syntax read from a tree has the callees of the calls in evaluated
positions.  Main statement: the callees of a lowered body are the targets of
the calls that count, each as often as it is evaluated, if what stands in front
of an event or an error that is called is left out.

Events and errors are named through the contract that declares them, so nothing
is evaluated in front of them in a tree that the compiler makes.  The tree at
the end has a value there: its call is lost.
-/
import ContractCalls.Proofs.Solidity.Decode
import ContractCalls.Proofs.Solidity.Position
import ContractCalls.Solidity.Loader

namespace ContractCalls.Solidity

/-! ## Reading expressions -/

namespace Expr

theorem isNamespace_ofNode (n : Node) : (ofNode n).isNamespace = n.isNamespace := by
  have hty : (ofNode n).ty = n.ty := by rw [ty, (outline_ofNode n).2.2, Node.ty]
  rw [Node.isNamespace, ← hty, Node.is, Node.is]
  by_cases helementary : n.nodeType = "ElementaryTypeNameExpression"
  · rw [ofNode_elementary helementary]
    simp [isNamespace, helementary]
  · by_cases hidentifier : n.nodeType = "Identifier"
    · rw [ofNode_identifier hidentifier]
      simp [isNamespace, hidentifier]
    · cases he : ofNode n with
      | typeName => exact absurd (nodeType_of_ofNode he) helementary
      | identifier => exact absurd (nodeType_of_ofNode he) hidentifier
      | _ => simp [isNamespace, beq_false_of_ne helementary, beq_false_of_ne hidentifier]

end Expr

/-- Whether a callee names an event or error is read off its node. -/
theorem Env.isSignal_ofNode (env : Env) (n : Node) :
    env.isSignal (Expr.ofNode n) = n.isSignal env.index := by
  rw [Node.isSignal, Node.is]
  by_cases hmember : n.nodeType = "MemberAccess"
  · rw [Expr.ofNode_member hmember]
    simp [Env.isSignal, hmember]
  · cases he : Expr.ofNode n with
    | member => exact absurd (Expr.nodeType_of_ofNode he) hmember
    | _ => simp [Env.isSignal, beq_false_of_ne hmember]

/-- The target of a call is read off the node of its callee. -/
theorem Env.targets_ofNode (env : Env) (n : Node) :
    env.targets (Expr.ofNode n) =
      if n.is "NewExpression" then [] else (env.resolve (Expr.ofNode n)).1.counted := by
  rw [Node.is]
  by_cases hcreation : n.nodeType = "NewExpression"
  · rw [Expr.ofNode_creation hcreation]
    simp [Env.targets, hcreation]
  · simp only [beq_iff_eq, hcreation, if_false]
    cases he : Expr.ofNode n with
    | creation => exact absurd (Expr.nodeType_of_ofNode he) hcreation
    | absent =>
        have hpresent := (Expr.outline_ofNode n).1
        rw [he] at hpresent
        cases hpresent
    | _ => rfl

/-- Options and callee of a call, read from the node of the function that is called. -/
theorem Expr.calleeOfNode_eq (n : Node) :
    calleeOfNode n = (n.optionsAround.map ofNode,
      (n.bare?.map ofNode).getD (.absent "expression" "FunctionCallOptions")) := by
  induction n using Node.partInduction with
  | step n ih =>
      rw [calleeOfNode, Node.optionsAround, Node.bare?]
      simp only [Node.mapField_eq, Node.mapFields_eq]
      split
      · next h =>
          have hkind : n.nodeType = "FunctionCallOptions" := by simpa [Node.is] using h
          cases hc : n.field? "expression" with
          | none => simp [hkind]
          | some c => simp [ih c (Node.isPart_of_field? hc)]
      · rfl

section Reading

variable (env : Env)

/-- The callees of the expressions of nodes. -/
def calleesAt (ns : List Node) : List Callee := ns.flatMap fun n => (Expr.ofNode n).callees env

theorem calleesAt_append (ms ns : List Node) :
    calleesAt env (ms ++ ns) = calleesAt env ms ++ calleesAt env ns :=
  List.flatMap_append

theorem calleesAt_singleton (n : Node) : calleesAt env [n] = (Expr.ofNode n).callees env :=
  List.flatMap_singleton ..

theorem calleesOf_map (ns : List Node) :
    calleesOf env (ns.map Expr.ofNode) = calleesAt env ns := by
  rw [calleesOf_eq, List.flatMap_map]
  rfl

/-- A missing part calls nobody. -/
theorem callees_getD (n : Node) (key nodeType : String) :
    (((n.field? key).map Expr.ofNode).getD (.absent key nodeType)).callees env =
      calleesAt env (n.one key) := by
  unfold Node.one
  cases n.field? key with
  | none => rfl
  | some c => exact (calleesAt_singleton env c).symm

theorem callees_required (n : Node) (key : String) :
    (Expr.required n key).callees env = calleesAt env (n.one key) := by
  rw [Expr.required_eq, callees_getD]

theorem calleesOf_part (n : Node) (key : String) :
    calleesOf env ((n.field? key).map Expr.ofNode).toList = calleesAt env (n.one key) := by
  unfold Node.one
  cases n.field? key with
  | none => rfl
  | some c => exact calleesOf_map env [c]

theorem calleesOf_append (es fs : List Expr) :
    calleesOf env (es ++ fs) = calleesOf env es ++ calleesOf env fs := by
  simp only [calleesOf_eq, List.flatMap_append]

theorem targets_of_called {n c : Node} (hkind : n.nodeType = "FunctionCall")
    (hform : CallForm.ofNode n = .ordinary) (hc : n.called? = some c) :
    Node.targets env [n] = env.targets (Expr.ofNode c) := by
  have hcalls : n.callsCode env =
      (!c.is "NewExpression" && !(env.resolve (Expr.ofNode c)).1.isIntrinsic) := by
    simp [Node.callsCode, Node.is, hkind, hform, hc]
  rw [env.targets_ofNode, Node.targets, List.filter_cons, hcalls, Callee.counted, List.filter_cons]
  by_cases hcreation : c.is "NewExpression" = true
  · simp [hcreation]
  · by_cases hform : (env.resolve (Expr.ofNode c)).1.isIntrinsic = true
    · simp [hcreation, hform]
    · simp [hcreation, hform, Node.classification?, hc]

theorem targets_of_ne {n : Node} (h : n.nodeType ≠ "FunctionCall") : Node.targets env [n] = [] := by
  simp [Node.targets, Node.callsCode, Node.is, h]

theorem callees_ofNode_tuple {n : Node} (h : n.nodeType = "TupleExpression") :
    (Expr.ofNode n).callees env = calleesAt env (n.fields "components") := by
  rw [Expr.ofNode]
  simp only [h, Node.mapOptionalFields_eq, Expr.callees, calleesOfPresent_eq]
  rw [← calleesOf_map, Node.fields, List.filterMap_map, List.map_filterMap]
  rfl

/-- Parentheses around a place change nothing about its calls. -/
theorem callees_placeOfNode (n : Node) :
    (Expr.placeOfNode n).callees env = (Expr.ofNode n).callees env := by
  induction n using Node.partInduction with
  | step n ih =>
      rw [Expr.placeOfNode]
      split
      · next inner hinner =>
          obtain ⟨hkind, hcomponents⟩ := Node.components_of_parenthesized? hinner
          rw [ih inner (Node.isPart_of_parenthesized? hinner), callees_ofNode_tuple env hkind,
            Node.fields, hcomponents]
          exact (calleesAt_singleton env inner).symm
      · rfl

theorem calleesOfPresent_places (components : List (Option Node)) :
    calleesOfPresent env (components.map (Option.map Expr.placeOfNode)) =
      calleesAt env (components.filterMap id) := by
  induction components with
  | nil => rfl
  | cons component rest ih =>
      cases component with
      | none => exact ih
      | some c =>
          rw [List.map_cons, Option.map_some, calleesOfPresent, callees_placeOfNode, ih]
          rfl

theorem callees_ofNode_assignment {n : Node} (h : n.nodeType = "Assignment") :
    (Expr.ofNode n).callees env =
      calleesAt env (n.one "rightHandSide") ++ calleesAt env (n.one "leftHandSide") := by
  have hone : n.one "leftHandSide" = (n.field? "leftHandSide").toList := rfl
  rw [Expr.ofNode_assignment h, hone]
  cases n.field? "leftHandSide" with
  | none =>
      simp only [Expr.callees, callees_required]
      rfl
  | some c =>
      rw [Option.toList_some, calleesAt_singleton]
      dsimp only
      split
      · next hseveral =>
          have hkind : c.nodeType = "TupleExpression" := by
            simpa [Node.is] using (Bool.and_eq_true_iff.1 hseveral).1
          rw [Expr.callees, callees_required, calleesOfPresent_places, callees_ofNode_tuple env hkind]
          rfl
      · rw [Expr.callees, callees_required, callees_placeOfNode]

theorem callees_ofNode_member {n : Node} (h : n.nodeType = "MemberAccess") :
    (Expr.ofNode n).callees env =
      calleesAt env ((n.one "expression").filter fun c => !c.isNamespace) := by
  rw [Expr.ofNode_member h, Expr.callees, Node.one]
  cases n.field? "expression" with
  | none =>
      simp [Expr.callees, calleesAt]
  | some c =>
      simp only [Option.map_some, Option.getD_some, Option.toList_some, Expr.receiverOfNode]
      by_cases helementary : c.is "ElementaryTypeNameExpression" = true
      · simp [helementary, Expr.isNamespace, Node.isNamespace, calleesAt]
      · simp only [helementary, Bool.false_eq_true, if_false, Expr.isNamespace_ofNode]
        by_cases hnamespace : c.isNamespace = true
        · simp [hnamespace, calleesAt]
        · simp [hnamespace, calleesAt]

/-- What a call reads as. -/
theorem Expr.ofNode_call {n : Node} (h : n.nodeType = "FunctionCall") :
    ∃ nodeType, Expr.ofNode n = .call n.typeText? (CallForm.ofNode n)
      (n.callOptions.map Expr.ofNode)
      ((n.called?.map Expr.ofNode).getD (.absent "expression" nodeType))
      ((n.fields "arguments").map Expr.ofNode) (argumentNames n) := by
  rw [Expr.ofNode]
  simp only [h, Node.mapField_eq, Node.mapFields_eq, Expr.calleeOfNode_eq]
  unfold Node.callOptions Node.called?
  cases n.field? "expression" with
  | none => exact ⟨n.nodeType, by rw [h]; rfl⟩
  | some c => exact ⟨"FunctionCallOptions", rfl⟩

theorem callees_ofNode_call {n : Node} (h : n.nodeType = "FunctionCall") :
    (Expr.ofNode n).callees env =
      calleesAt env (n.operands (·.isSignal env.index)) ++ Node.targets env [n] := by
  obtain ⟨nodeType, hcall⟩ := Expr.ofNode_call h
  have hcalled : env.called (CallForm.ofNode n)
      ((n.called?.map Expr.ofNode).getD (.absent "expression" nodeType))
      (((n.called?.map Expr.ofNode).getD (.absent "expression" nodeType)).callees env) =
      calleesAt env (n.calleePart (·.isSignal env.index)) ++ Node.targets env [n] := by
    rw [Node.calleePart]
    cases hform : CallForm.ofNode n with
    | conversion | construction => simp [Env.called, Node.targets, Node.callsCode, hform, calleesAt]
    | ordinary =>
        cases hc : n.called? with
        | none =>
            simp [Env.called, Node.targets, Node.callsCode, hc, calleesAt, Env.targets, Env.isSignal,
              Expr.callees]
        | some c =>
            rw [targets_of_called env h hform hc]
            simp only [Env.called, Option.map_some, Option.getD_some, env.isSignal_ofNode]
            by_cases hsignal : c.isSignal env.index = true
            · simp [hsignal, calleesAt]
            · simp [hsignal, calleesAt]
  rw [hcall, Expr.callees, hcalled, calleesOf_map, calleesOf_map]
  simp only [Node.operands, h, calleesAt_append, List.append_assoc]

/-- The callees of an expression are those of its operands and its own. -/
theorem callees_ofNode (n : Node) :
    (Expr.ofNode n).callees env =
      calleesAt env (n.operands (·.isSignal env.index)) ++ Node.targets env [n] := by
  by_cases hcall : n.nodeType = "FunctionCall"
  · exact callees_ofNode_call env hcall
  · rw [targets_of_ne env hcall, List.append_nil, Node.operands]
    split
    case h_1 h => exact callees_ofNode_member env h
    case h_6 h => rw [callees_ofNode_assignment env h, calleesAt_append]
    case h_8 h => exact callees_ofNode_tuple env h
    case h_9 h => exact absurd h hcall
    case h_11 =>
      rw [Expr.ofNode]
      split
      case h_1 | h_2 | h_13 | h_14 | h_15 => rfl
      all_goals contradiction
    all_goals
      rename_i h
      rw [Expr.ofNode]
      simp only [h, Node.mapField_eq, calleesAt_append]
    case h_2 =>
      cases n.field? "indexExpression" with
      | none => rfl
      | some key => simp only [Option.map_some, Expr.callees, callees_getD, calleesAt_append,
          calleesAt_singleton]
    case h_3 => simp only [Expr.callees, callees_getD, calleesOf_append, calleesOf_part]
    case h_5 =>
      split
      · rw [Expr.callees, Node.one]
        cases n.field? "subExpression" with
        | none => rfl
        | some c => exact (callees_placeOfNode env c).trans (calleesAt_singleton env c).symm
      · simp only [Expr.callees, callees_getD]
    all_goals simp only [Expr.callees, callees_getD]

/-- An expression has the callees of the calls that are evaluated with it. -/
theorem callees_eq_targets (n : Node) :
    (Expr.ofNode n).callees env = Node.targets env (n.evaluated (·.isSignal env.index)) := by
  induction n using Node.partInduction with
  | step n ih =>
      rw [callees_ofNode, Node.evaluated_eq, Node.targets_append, Node.targets_flatMap, calleesAt]
      congr 1
      exact List.flatMap_congr fun p hp => ih p (Node.isPart_of_operands hp)

/-! ## Reading statements -/

/-- The callees of the statements of nodes. -/
def calleesIn (locate : Node → Option Span) (ns : List Node) : List Callee :=
  ns.flatMap fun n => (Stmt.ofNode locate n).callees env

theorem calleesIn_append (locate : Node → Option Span) (ms ns : List Node) :
    calleesIn env locate (ms ++ ns) = calleesIn env locate ms ++ calleesIn env locate ns :=
  List.flatMap_append

theorem calleesOfBlock_map (locate : Node → Option Span) (ns : List Node) :
    calleesOfBlock env (ns.map (Stmt.ofNode locate)) = calleesIn env locate ns := by
  rw [calleesOfBlock_eq, List.flatMap_map]
  rfl

theorem callees_ofPart (n : Node) (key : String) :
    (Stmt.ofPart n key).callees env = calleesAt env (n.one key) := by
  unfold Stmt.ofPart Expr.part? Node.one
  cases n.field? key with
  | none => rfl
  | some c => exact (calleesAt_singleton env c).symm

/-- A statement that is missing calls nobody. -/
theorem callees_getD_skip (locate : Node → Option Span) (n : Node) (key : String) :
    (((n.field? key).map (Stmt.ofNode locate)).getD .skip).callees env =
      calleesIn env locate (n.one key) := by
  unfold Node.one
  cases n.field? key with
  | none => rfl
  | some c => exact (List.flatMap_singleton ..).symm

/-- Returning a tuple is evaluating it. -/
theorem calleesOf_returnValues (n : Node) :
    calleesOf env ((returnValues? n).getD []) = calleesAt env (n.one "expression") := by
  unfold returnValues? Node.one
  cases n.field? "expression" with
  | none => rfl
  | some result =>
      rw [Option.toList_some, calleesAt_singleton, Option.map_some, Option.getD_some]
      split
      · next htuple =>
          have hkind : result.nodeType = "TupleExpression" := by simpa [Node.is] using htuple
          rw [calleesOf_map, callees_ofNode_tuple env hkind]
      · exact calleesOf_singleton env _

theorem calleesOfClauses_map (locate : Node → Option Span) (ns : List Node) :
    calleesOfClauses env (ns.map fun c => .clause (clauseParameters c)
        (((c.field? "block").map (Stmt.ofNode locate)).getD .skip)) =
      calleesIn env locate (ns.flatMap (·.one "block")) := by
  induction ns with
  | nil => rfl
  | cons c rest ih =>
      rw [List.map_cons, calleesOfClauses, ih, callees_getD_skip, List.flatMap_cons, calleesIn_append]

/-- The callees of a statement are those of its expressions and of its blocks. -/
theorem callees_ofStatement (locate : Node → Option Span) (n : Node) :
    ((Stmt.ofNode locate n).callees env).Perm
      (calleesAt env n.expressions ++ calleesIn env locate n.blocks) := by
  rw [Stmt.ofNode, Stmt.callees]
  simp only [Node.mapField_eq, Node.mapFields_eq]
  unfold Node.expressions Node.blocks
  split
  case h_5 h =>
    simp only [h, calleesIn_append]
    rw [← callees_required, ← callees_getD_skip, ← callees_getD_skip]
    cases n.field? "falseBody" with
    | none => exact .of_eq (congrArg (_ ++ ·) (List.append_nil _).symm)
    | some no => rfl
  case h_7 h =>
    simp only [h, Stmt.callees, callees_required, callees_getD_skip]
    exact List.perm_append_comm
  case h_8 h =>
    simp only [h, Stmt.callees, callees_getD_skip, Expr.part?, calleesOf_part, calleesIn_append]
    exact List.perm_append_comm_assoc ..
  all_goals simp [*, Stmt.callees, callees_ofPart, callees_required, callees_getD_skip,
    calleesOfBlock_map, calleesOfClauses_map, calleesOf_returnValues, Expr.part?, calleesOf_part,
    calleesAt, calleesIn, calleesOf]

/-- A statement has the callees of the calls that are evaluated in it. -/
theorem callees_perm_targets (locate : Node → Option Span) (n : Node) :
    ((Stmt.ofNode locate n).callees env).Perm
      (Node.targets env (n.executed (·.isSignal env.index))) := by
  induction n using Node.partInduction with
  | step n ih =>
      refine (callees_ofStatement env locate n).trans ?_
      rw [Node.executed_eq, Node.targets_append, Node.targets_flatMap, Node.targets_flatMap]
      refine List.Perm.append ?_ ?_
      · rw [calleesAt]
        refine List.Perm.of_eq (List.flatMap_congr fun p _ => callees_eq_targets env p)
      · exact List.Perm.flatMap_left _ fun p hp => ih p (Node.isPart_of_blocks hp)

end Reading

/-- The calls of a lowered body are the calls of code in the evaluated positions of its definition,
each as often as it is evaluated; what stands in front of an event or error that is called is left
out. -/
theorem lowered_calls {l : Loader} {context : Option ContractId} {file : String} {n : Node}
    {counters after : Counters} {body : Body}
    (h : l.lowerDefinition context file n counters = (.ok (some body), after)) :
    ∃ code, n.field? "body" = some code ∧
      body.callees.length = ((code.executed (·.isSignal l.index)).filter
        (·.callsCode ⟨l.unit, l.index, context⟩)).length ∧
      body.callees.Perm
        (Node.targets ⟨l.unit, l.index, context⟩ (code.executed (·.isSignal l.index))) := by
  unfold Loader.lowerDefinition at h
  cases hdefinition : Definition.ofNode? (·.span? l.unit.sourceList file) n with
  | none =>
      rw [hdefinition] at h
      cases h
  | some definition =>
      rw [hdefinition] at h
      cases hrun : Build.runBody (definition.lower ⟨l.unit, l.index, context⟩) counters with
      | mk result rest =>
          simp only [hrun] at h
          cases result with
          | error e => cases h
          | ok lowered =>
              cases h
              obtain ⟨code, hcode, rfl⟩ := Option.map_eq_some_iff.1 hdefinition
              have hperm := (Build.callees_runBody_perm (Definition.adds_lower _ _) hrun).trans
                (callees_perm_targets _ _ code)
              exact ⟨code, hcode, hperm.length_eq.trans (Node.length_targets _ _), hperm⟩

/-! ## An event behind a value -/

/-- The tree of a name that refers to a declaration. -/
def nameTree (name : String) (reference : Int) : Json :=
  .object [("name", .string name), ("nodeType", .string "Identifier"),
    ("referencedDeclaration", .ofInt reference)]

/-- The tree of a member that refers to a declaration. -/
def memberTree (base : Json) (name : String) (reference : Int) : Json :=
  .object [("expression", base), ("memberName", .string name), ("nodeType", .string "MemberAccess"),
    ("referencedDeclaration", .ofInt reference)]

/-- The tree of a call without arguments. -/
def callTree (callee : Json) : Json :=
  .object [("expression", callee), ("kind", .string "functionCall"),
    ("nodeType", .string "FunctionCall")]

/-- The tree of an expression as a statement. -/
def effectTree (e : Json) : Json :=
  .object [("expression", e), ("nodeType", .string "ExpressionStatement")]

/-- The tree of `{ h(); g().Ev(); }`. -/
def signalBlock : Json :=
  .object [("nodeType", .string "Block"), ("statements", .array [
    effectTree (callTree (nameTree "h" 13)),
    effectTree (callTree (memberTree (callTree (nameTree "g" 12)) "Ev" 11))])]

/-- The tree of a function without parameters. -/
def functionTree (id : Int) (kind name : String) (body : Json) : Json :=
  .object [("body", body), ("id", .ofInt id), ("implemented", .bool true),
    ("kind", .string kind), ("name", .string name), ("nodeType", .string "FunctionDefinition")]

/-- The tree of `{ }`. -/
def emptyBlock : Json := .object [("nodeType", .string "Block"), ("statements", .array [])]

/-- Free functions `g` and `h`, and a contract with an event `Ev` and a function `f` with that
block. -/
def signalling : SourceUnit :=
  ⟨"c.sol", none, .object [("nodeType", .string "SourceUnit"), ("nodes", .array [
    functionTree 12 "freeFunction" "g" emptyBlock, functionTree 13 "freeFunction" "h" emptyBlock,
    .object [("contractKind", .string "contract"), ("id", .ofInt 10),
      ("linearizedBaseContracts", .ofList .ofInt [10]), ("name", .string "C"),
      ("nodeType", .string "ContractDefinition"), ("nodes", .array [
        .object [("id", .ofInt 11), ("name", .string "Ev"), ("nodeType", .string "EventDefinition")],
        functionTree 14 "function" "f" signalBlock])]])]⟩

/-- That unit when its bodies are about to be lowered. -/
@[irreducible] def signallingLoader : Loader :=
  ((do Loader.parse; Loader.resolve : Load Unit).run (.new "" [signalling] .stopOnFirst)).2

/-- The function `f`. -/
def signallingFunction : Node := ⟨.compact, functionTree 14 "function" "f" signalBlock⟩

/-- Where the body of `f` is lowered. -/
def signallingEnv : Env := ⟨signallingLoader.unit, signallingLoader.index, some ⟨0⟩⟩

theorem called?_callTree {callee : Json} (hobject : callee.isObject)
    (hkind : (Node.mk .compact callee).nodeType ≠ "FunctionCallOptions") :
    Node.called? ⟨.compact, callTree callee⟩ = some ⟨.compact, callee⟩ ∧
      Node.callOptions ⟨.compact, callTree callee⟩ = [] := by
  have hfield : Node.field? ⟨.compact, callTree callee⟩ "expression" = some ⟨.compact, callee⟩ := by
    show (if callee.isObject then _ else _) = _
    rw [if_pos hobject]
    rfl
  rw [Node.called?, Node.callOptions, hfield, Option.bind_some, Option.map_some, Node.bare?,
    Node.optionsAround]
  simp [Node.is, hkind]

theorem ofNode_callTree {callee : Json} (hobject : callee.isObject)
    (hkind : (Node.mk .compact callee).nodeType ≠ "FunctionCallOptions") :
    Expr.ofNode ⟨.compact, callTree callee⟩ =
      .call none .ordinary [] (Expr.ofNode ⟨.compact, callee⟩) [] [] := by
  obtain ⟨hcalled, hoptions⟩ := called?_callTree hobject hkind
  obtain ⟨nodeType, hcall⟩ := Expr.ofNode_call (n := ⟨.compact, callTree callee⟩) rfl
  rw [hcall, hcalled, hoptions]
  rfl

theorem ofNode_g : Expr.ofNode ⟨.compact, nameTree "g" 12⟩ = .identifier none "g" (some 12) := by
  rw [Expr.ofNode_identifier rfl]
  rfl

theorem ofNode_h : Expr.ofNode ⟨.compact, nameTree "h" 13⟩ = .identifier none "h" (some 13) := by
  rw [Expr.ofNode_identifier rfl]
  rfl

theorem ofNode_signal : Expr.ofNode ⟨.compact, memberTree (callTree (nameTree "g" 12)) "Ev" 11⟩ =
    .member none (.call none .ordinary [] (.identifier none "g" (some 12)) [] []) "Ev" (some 11) := by
  have hbase : Node.field? ⟨.compact, memberTree (callTree (nameTree "g" 12)) "Ev" 11⟩ "expression" =
      some ⟨.compact, callTree (nameTree "g" 12)⟩ := rfl
  rw [Expr.ofNode_member rfl, hbase, Option.map_some, Expr.receiverOfNode, if_neg (by decide),
    ofNode_callTree rfl (by decide), ofNode_g]
  rfl

theorem ofNode?_signallingFunction (files : List String) :
    Definition.ofNode? (·.span? files "") signallingFunction =
      some ⟨[], [], .located none (.block [
        .located none (.expression (.call none .ordinary [] (.identifier none "h" (some 13)) [] [])),
        .located none (.expression (.call none .ordinary []
          (.member none (.call none .ordinary [] (.identifier none "g" (some 12)) [] []) "Ev" (some 11))
          [] []))])⟩ := by
  have hbody : signallingFunction.field? "body" = some ⟨.compact, signalBlock⟩ := rfl
  have hstatements : Node.fields ⟨.compact, signalBlock⟩ "statements" =
      [⟨.compact, effectTree (callTree (nameTree "h" 13))⟩,
        ⟨.compact, effectTree (callTree (memberTree (callTree (nameTree "g" 12)) "Ev" 11))⟩] := rfl
  have heffect (e : Json) (he : e.isObject) : Stmt.ofNode (·.span? files "") ⟨.compact, effectTree e⟩ =
      .located none (.expression (.ofNode ⟨.compact, e⟩)) := by
    have hpart : Stmt.ofPart ⟨.compact, effectTree e⟩ "expression" =
        .expression (.ofNode ⟨.compact, e⟩) := by
      have hfield : Node.field? ⟨.compact, effectTree e⟩ "expression" = some ⟨.compact, e⟩ := if_pos he
      rw [Stmt.ofPart, Expr.part?, hfield]
      rfl
    rw [Stmt.ofNode, ← hpart]
    rfl
  rw [Definition.ofNode?, hbody, Option.map_some, Stmt.ofNode]
  simp only [Node.mapFields_eq, hstatements]
  rw [List.map_cons, List.map_singleton, heffect _ rfl, heffect _ rfl, ofNode_callTree rfl (by decide),
    ofNode_callTree rfl (by decide), ofNode_h, ofNode_signal]
  rfl

theorem signallingFunction_run : ∃ body after,
    signallingLoader.lowerDefinition (some ⟨0⟩) "" signallingFunction .start =
      (.ok (some body), after) ∧ body.callees = [.internal ⟨2⟩] := by
  have hcallees : (signallingLoader.lowerDefinition (some ⟨0⟩) "" signallingFunction
      .start).1.toOption.join.map Body.callees = some [.internal ⟨2⟩] := by
    unfold Loader.lowerDefinition
    rw [ofNode?_signallingFunction]
    decide +kernel
  cases hrun : signallingLoader.lowerDefinition (some ⟨0⟩) "" signallingFunction .start with
  | mk result after =>
      rw [hrun] at hcallees
      match result, hcallees with
      | .ok (some body), hcallees => exact ⟨body, after, rfl, Option.some.inj hcallees⟩

/-- The body of `f` calls `h`; the call in front of the event is left out. -/
theorem signallingFunction_lowered_calls : ∃ body after,
    signallingLoader.lowerDefinition (some ⟨0⟩) "" signallingFunction .start =
      (.ok (some body), after) ∧ body.callees = [.internal ⟨2⟩] ∧
    ∃ code, signallingFunction.field? "body" = some code ∧
      body.callees.length = ((code.executed (·.isSignal signallingLoader.index)).filter
        (·.callsCode signallingEnv)).length ∧
      body.callees.Perm (Node.targets signallingEnv
        (code.executed (·.isSignal signallingLoader.index))) := by
  obtain ⟨body, after, hrun, hcallees⟩ := signallingFunction_run
  exact ⟨body, after, hrun, hcallees, lowered_calls hrun⟩

/-! ### Its positions if nothing is hidden -/

theorem evaluated_callTree {callee : Json} (hobject : callee.isObject)
    (hkind : (Node.mk .compact callee).nodeType ≠ "FunctionCallOptions") :
    Node.evaluated (fun _ => false) ⟨.compact, callTree callee⟩ =
      Node.evaluated (fun _ => false) ⟨.compact, callee⟩ ++ [⟨.compact, callTree callee⟩] := by
  obtain ⟨hcalled, hoptions⟩ := called?_callTree hobject hkind
  have hoperands : Node.operands (fun _ => false) ⟨.compact, callTree callee⟩ =
      [⟨.compact, callee⟩] := by
    show Node.callOptions _ ++ ([] ++ (Node.called? _).toList.filter fun _ => !false) = _
    rw [hcalled, hoptions]
    rfl
  rw [Node.evaluated_eq, hoperands, List.flatMap_singleton]

theorem evaluated_nameTree (name : String) (reference : Int) :
    Node.evaluated (fun _ => false) ⟨.compact, nameTree name reference⟩ =
      [⟨.compact, nameTree name reference⟩] := by
  rw [Node.evaluated_eq]
  rfl

theorem evaluated_signal :
    Node.evaluated (fun _ => false) ⟨.compact, memberTree (callTree (nameTree "g" 12)) "Ev" 11⟩ =
      Node.evaluated (fun _ => false) ⟨.compact, callTree (nameTree "g" 12)⟩ ++
        [⟨.compact, memberTree (callTree (nameTree "g" 12)) "Ev" 11⟩] := by
  have hoperands : Node.operands (fun _ => false)
      ⟨.compact, memberTree (callTree (nameTree "g" 12)) "Ev" 11⟩ =
        [⟨.compact, callTree (nameTree "g" 12)⟩] := rfl
  rw [Node.evaluated_eq, hoperands, List.flatMap_singleton]

theorem executed_effectTree {e : Json} (he : e.isObject) :
    Node.executed (fun _ => false) ⟨.compact, effectTree e⟩ =
      Node.evaluated (fun _ => false) ⟨.compact, e⟩ := by
  have hexpressions : Node.expressions ⟨.compact, effectTree e⟩ = [⟨.compact, e⟩] := by
    show (Option.toList (if e.isObject then _ else _)) = _
    rw [if_pos he]
    rfl
  have hblocks : Node.blocks ⟨.compact, effectTree e⟩ = [] := rfl
  rw [Node.executed_eq, hexpressions, hblocks, List.flatMap_singleton, List.flatMap_nil,
    List.append_nil]

theorem callsCode_callTree {callee : Json} (hobject : callee.isObject)
    (hoptions : (Node.mk .compact callee).nodeType ≠ "FunctionCallOptions")
    (hcreation : (Node.mk .compact callee).nodeType ≠ "NewExpression") :
    Node.callsCode signallingEnv ⟨.compact, callTree callee⟩ =
      !(signallingEnv.resolve (.ofNode ⟨.compact, callee⟩)).1.isIntrinsic := by
  show (true && (Node.called? _).any _) = _
  rw [(called?_callTree hobject hoptions).1]
  simp [Node.is, hcreation]

/-- Two calls of code are evaluated in `f` if the receiver of the event counts. -/
theorem length_positions_signalBlock :
    ((Node.executed (fun _ => false) ⟨.compact, signalBlock⟩).filter
      (·.callsCode signallingEnv)).length = 2 := by
  have hblocks : Node.blocks ⟨.compact, signalBlock⟩ =
      [⟨.compact, effectTree (callTree (nameTree "h" 13))⟩,
        ⟨.compact, effectTree (callTree (memberTree (callTree (nameTree "g" 12)) "Ev" 11))⟩] := rfl
  have hexpressions : Node.expressions ⟨.compact, signalBlock⟩ = [] := rfl
  have hname (name : String) (reference : Int) :
      Node.callsCode signallingEnv ⟨.compact, nameTree name reference⟩ = false := rfl
  have hsignal : Node.callsCode signallingEnv
      ⟨.compact, memberTree (callTree (nameTree "g" 12)) "Ev" 11⟩ = false := rfl
  have hh : Node.callsCode signallingEnv ⟨.compact, callTree (nameTree "h" 13)⟩ = true := by
    rw [callsCode_callTree rfl (by decide) (by decide), ofNode_h]
    decide +kernel
  have hg : Node.callsCode signallingEnv ⟨.compact, callTree (nameTree "g" 12)⟩ = true := by
    rw [callsCode_callTree rfl (by decide) (by decide), ofNode_g]
    decide +kernel
  have hemit : Node.callsCode signallingEnv
      ⟨.compact, callTree (memberTree (callTree (nameTree "g" 12)) "Ev" 11)⟩ = false := by
    rw [callsCode_callTree rfl (by decide) (by decide), ofNode_signal]
    decide +kernel
  rw [Node.executed_eq, hexpressions, hblocks, List.flatMap_cons, List.flatMap_singleton,
    executed_effectTree rfl, executed_effectTree rfl, evaluated_callTree rfl (by decide),
    evaluated_callTree rfl (by decide), evaluated_signal, evaluated_callTree rfl (by decide),
    evaluated_nameTree, evaluated_nameTree]
  simp [hname, hsignal, hh, hg, hemit]

/-- The call in front of an event that is called is evaluated and not lowered. -/
theorem signal_receiver_not_lowered :
    ¬ ∀ (l : Loader) (context : Option ContractId) (file : String) (n code : Node)
        (counters after : Counters) (body : Body),
      l.lowerDefinition context file n counters = (.ok (some body), after) →
      n.field? "body" = some code →
      body.callees.length = ((code.executed fun _ => false).filter
        (·.callsCode ⟨l.unit, l.index, context⟩)).length := by
  intro h
  obtain ⟨body, after, hrun, hcallees⟩ := signallingFunction_run
  have hlength := h _ _ _ _ ⟨.compact, signalBlock⟩ _ _ _ hrun rfl
  have htwo := length_positions_signalBlock
  rw [hcallees, ← signallingEnv, htwo] at hlength
  cases hlength

end ContractCalls.Solidity
