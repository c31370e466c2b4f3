/-
What definitions say in their headers: state variables, linearizations,
function instances per context, and the modifiers and base constructors they
invoke.
-/
import ContractCalls.Solidity.Index

namespace ContractCalls.Solidity

/-! ## State variables -/

/-- The variable a declaration declares. -/
def stateVariable (n : Node) (declarer : String) : StateVariable :=
  let mutability := (n.text? "mutability").getD "mutable"
  { name := n.name?.getD ""
    ty := n.ty
    visibility := ((n.text? "visibility").bind Visibility.parse?).getD .internal
    declarer
    isConstant := n.flag "constant" || mutability == "constant"
    isImmutable := mutability == "immutable"
    astId := n.id? }

/-- Gives a contract its linearization and state variables. -/
def resolveContract (index : Index) (u : Compilation) (definition : ContractDefinition) :
    Compilation :=
  let linearization := definition.linearized.filterMap index.contractOf?
  u.modifyContract definition.id fun c =>
    { c with
      linearization := if linearization.isEmpty then c.linearization else linearization
      stateVariables := definition.stateVariables.map (stateVariable · c.name) }

/-- Gives a file scope one of its constants. -/
def resolveConstant (u : Compilation) (entry : ScopeId × Node) : Compilation :=
  u.modifyScope entry.1 fun scope =>
    let declared := stateVariable entry.2 scope.filename
    { scope with constants := scope.constants.insert declared.name declared }

/-- Resolves the state variables of all contracts and the constants of all files. -/
def resolveVariables (index : Index) (u : Compilation) : Compilation :=
  index.fileConstants.foldl resolveConstant (index.contracts.foldl (resolveContract index) u)

/-! ## Function headers -/

/-- The kind of a function whose definition does not name it. -/
def inferKind (n : Node) (declarer : Option String) : FunctionKind :=
  let name := n.name?.getD ""
  if n.flag "isConstructor" || declarer == some name then .constructor
  else if name.isEmpty then .fallback
  else if declarer.isNone then .free
  else .function

/-- The kind of a function. -/
def functionKind (n : Node) (declarer : Option String) : FunctionKind :=
  if n.is "ModifierDefinition" then .modifier
  else
    match n.text? "kind" with
    | some "constructor" => .constructor
    | some "fallback" => .fallback
    | some "receive" => .receive
    | some "freeFunction" => .free
    | some _ => .function
    | none => inferKind n declarer

/-- The name of a function of a kind. -/
def functionName (n : Node) : FunctionKind → String
  | .constructor => "constructor"
  | .fallback => "fallback"
  | .receive => "receive"
  | _ => n.name?.getD ""

/-- The visibility of a function of a kind. -/
def functionVisibility (n : Node) : FunctionKind → Visibility
  | .modifier | .free => .internal
  | _ => ((n.text? "visibility").bind Visibility.parse?).getD .pub

/-- The definition has a body. -/
def hasBody (n : Node) : Bool :=
  match n.dialect with
  | .compact => (n.child? "body").isSome
  | .legacy => n.children.any (·.is "Block")

/-- Parameters by their declarations. -/
def parametersOf (nodes : List Node) : List Parameter :=
  nodes.map fun p => ⟨p.name?.getD "", p.ty⟩

/-- The header of a definition as seen from a context. -/
def functionOf (n : Node) (context declarer : Option String) (files : List String)
    (file : String) : Function :=
  let kind := functionKind n declarer
  let header : Function :=
    { Function.new (functionName n kind) kind with
      context
      declarer
      visibility := functionVisibility n kind
      isImplemented := ((n.attribute? "implemented").bind Json.asBool?).getD (hasBody n) }
  { header.withSignature (parametersOf (n.parameterList "parameters" 0)) with
    returns := parametersOf (n.parameterList "returnParameters" 1)
    source := n.span? files file
    astId := n.id? }

/-- What a definition shares with those it shadows: its full name, or its name for modifiers. -/
def shadowKey (f : Function) : String :=
  if f.isModifier then "modifier " ++ f.name else f.fullName

/-- Headers under construction. -/
structure Headers where
  unit : Compilation
  index : Index

/-- The headers of one context under construction. -/
structure ContextHeaders where
  headers : Headers
  /-- The keys of the definitions so far. -/
  seen : List String

/-- Adds the instance of a definition to a context.  A constructor is only instantiated in its own
contract; a definition is shadowed if a more derived contract has one of the same key. -/
def addInstance (context base : Contract) (file : String) (s : ContextHeaders) (definition : Int) :
    ContextHeaders :=
  match s.headers.index.definitions.get? definition with
  | none => s
  | some n =>
      let u := s.headers.unit
      let f := functionOf n (some context.name) (some base.name) u.sourceList file
      if f.isConstructor && base.id != context.id then s
      else
        let key := shadowKey f
        let isKnown := s.seen.contains key
        let (id, u) := u.addFunction { f with isShadowed := isKnown && !f.isConstructor }
        let u := u.modifyContract context.id fun c =>
          { c with
            functions := c.functions ++ [id]
            functionsDeclared :=
              if base.id = context.id then c.functionsDeclared ++ [id] else c.functionsDeclared }
        { headers := ⟨u, s.headers.index.setInstance ⟨some context.id, definition⟩ id⟩
          seen := if isKnown then s.seen else key :: s.seen }

/-- Adds the definitions of a contract of the linearization to a context. -/
def addBase (context : Contract) (s : ContextHeaders) (base : ContractId) : ContextHeaders :=
  match s.headers.index.contract? base, s.headers.unit.contract? base with
  | some definition, some contract =>
      definition.definitions.foldl (addInstance context contract definition.file) s
  | _, _ => s

/-- Adds the functions that a contract sees, most derived first. -/
def addContext (h : Headers) (id : ContractId) : Headers :=
  match h.unit.contract? id with
  | some context => (context.linearization.foldl (addBase context) ⟨h, []⟩).headers
  | none => h

/-- Adds a function outside every contract. -/
def addFree (h : Headers) (free : FreeFunction) : Headers :=
  match h.index.definitions.get? free.definition with
  | none => h
  | some n =>
      let f := functionOf n none none h.unit.sourceList free.file
      let (id, u) := h.unit.addFunction { f with kind := .free }
      { unit := u.modifyScope free.scope fun s =>
          { s with functions := s.functions.insert f.fullName id }
        index := h.index.setInstance ⟨none, free.definition⟩ id }

/-- Adds all function instances. -/
def buildHeaders (h : Headers) : Headers :=
  h.index.freeFunctions.foldl addFree (h.index.contracts.foldl (fun h c => addContext h c.id) h)

/-! ## Header calls -/

/-- The name nodes of the modifiers and base constructors a definition invokes. -/
def invocations (n : Node) : List Node :=
  match n.dialect with
  | .compact => (n.nodes "modifiers").filterMap (·.child? "modifierName")
  | .legacy =>
      (n.children.filter (·.is "ModifierInvocation")).filterMap fun i => i.children.head?

/-- The constructor a contract declares. -/
def ownConstructor? (u : Compilation) (id : ContractId) : Option FunctionId := do
  let contract ← u.contract? id
  contract.functionsDeclared.find? fun f => ((u.function? f).map (·.isConstructor)).getD false

/-- The base of an entry of the inheritance list that has constructor arguments. -/
def suppliedBase? (spec : Node) : Option Node :=
  match spec.dialect with
  | .compact => if (spec.nodes "arguments").isEmpty then none else spec.child? "baseName"
  | .legacy => if spec.children.length > 1 then spec.children.head? else none

/-- The bases that get constructor arguments in the inheritance list of a contract. -/
def suppliedBases (index : Index) (contract : ContractId) : List ContractId :=
  match index.contract? contract with
  | none => []
  | some definition =>
      definition.inheritance.filterMap fun spec => do
        let base ← suppliedBase? spec
        index.contractOf? (← base.referencedDeclaration?)

/-- The modifiers and base constructors a header invokes. -/
structure HeaderCalls where
  modifiers : List FunctionId
  baseConstructors : List FunctionId

/-- Adds one invocation: a contract means its constructor, anything else a modifier. -/
def addInvocation (u : Compilation) (index : Index) (context : Option ContractId)
    (calls : HeaderCalls) (name : Node) : HeaderCalls :=
  let declaration := name.referencedDeclaration?
  match index.declaration? declaration with
  | some (.contract base) =>
      { calls with baseConstructors := calls.baseConstructors ++ (ownConstructor? u base).toList }
  | _ =>
      let applied := context.bind fun c => name.identifierName?.bind (dispatchModifier? u c)
      let referred := declaration.bind (index.instance? context)
      { calls with modifiers := calls.modifiers ++ (applied.or referred).toList }

/-- Adds the constructor of a base that gets arguments, unless it is there. -/
def addSupplied (u : Compilation) (calls : HeaderCalls) (base : ContractId) : HeaderCalls :=
  match ownConstructor? u base with
  | none => calls
  | some id =>
      if calls.baseConstructors.contains id then calls
      else { calls with baseConstructors := calls.baseConstructors ++ [id] }

/-- The header calls of an instance. -/
def headerCalls (u : Compilation) (index : Index) (context : Option ContractId) (id : FunctionId)
    (n : Node) : HeaderCalls :=
  let calls := (invocations n).foldl (addInvocation u index context) ⟨[], []⟩
  let isOwn := ((u.function? id).map fun f => f.isConstructor && f.declarer == f.context).getD false
  match context with
  | some c => if isOwn then (suppliedBases index c).foldl (addSupplied u) calls else calls
  | none => calls

/-- Records the header calls of an instance. -/
def resolveInstance (index : Index) (u : Compilation) (entry : Seat × FunctionId) : Compilation :=
  match index.definitions.get? entry.1.definition with
  | none => u
  | some n =>
      let calls := headerCalls u index entry.1.context entry.2 n
      u.modifyFunction entry.2 fun f =>
        { f with
          calls := { f.calls with
            modifiers := calls.modifiers, baseConstructors := calls.baseConstructors } }

/-- Records the header calls of all instances. -/
def resolveHeaderCalls (index : Index) (u : Compilation) : Compilation :=
  index.orderedInstances.foldl (resolveInstance index) u

end ContractCalls.Solidity
