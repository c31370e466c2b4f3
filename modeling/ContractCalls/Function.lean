/-
Functions as seen from a contract, with their call sites.
-/
import ContractCalls.Body.Basic

namespace ContractCalls

/-- What a function is in its language. -/
inductive FunctionKind where
  | function
  | constructor
  | fallback
  | receive
  | modifier
  /-- A function outside every contract. -/
  | free
deriving DecidableEq, Repr

/-- Who may call a function. -/
inductive Visibility where
  | external
  | pub
  | internal
  | priv
deriving DecidableEq, Repr

namespace Visibility

/-- All visibilities, from the widest. -/
def all : List Visibility := [.external, .pub, .internal, .priv]

/-- The keyword of a visibility. -/
def render : Visibility → String
  | .external => "external"
  | .pub => "public"
  | .internal => "internal"
  | .priv => "private"

/-- The visibility of a keyword. -/
def parse? : String → Option Visibility
  | "external" => some .external
  | "public" => some .pub
  | "internal" => some .internal
  | "private" => some .priv
  | _ => none

end Visibility

/-- The calls a function makes, by how they were resolved. -/
structure CallSites where
  modifiers : List FunctionId
  baseConstructors : List FunctionId
  /-- Internal, builtin and internal unresolved callees. -/
  internal : List Callee
  /-- Library and library unresolved callees. -/
  library : List Callee
  /-- Callees on other contracts. -/
  highLevel : List Callee
deriving DecidableEq, Repr

namespace CallSites

/-- No calls. -/
def none : CallSites := ⟨[], [], [], [], []⟩

instance : Inhabited CallSites := ⟨none⟩

/-- There are no calls. -/
def isEmpty (c : CallSites) : Bool :=
  c.modifiers.isEmpty && c.baseConstructors.isEmpty && c.internal.isEmpty && c.library.isEmpty &&
    c.highLevel.isEmpty

end CallSites

/-- A parameter or return value. -/
structure Parameter where
  name : String
  ty : Ty
deriving DecidableEq, Repr

/-- A function in the context of a contract. -/
structure Function where
  id : FunctionId
  name : String
  /-- `name(type,...)`. -/
  fullName : String
  /-- `Declarer.name(type,...)`. -/
  canonicalName : String
  /-- The contract the function is looked at from. -/
  context : Option String
  /-- The contract that declares it. -/
  declarer : Option String
  kind : FunctionKind
  visibility : Visibility
  /-- The source gives no visibility. -/
  visibilityDefaulted : Bool
  isImplemented : Bool
  /-- A more derived contract redefines it. -/
  isShadowed : Bool
  parameters : List Parameter
  returns : List Parameter
  calls : CallSites
  body : Option Body
  source : Option Span
  /-- Id of the definition in the compiler's tree. -/
  astId : Option Int
deriving Repr

namespace Function

/-- A function of which only name and kind are known. -/
def new (name : String) (kind : FunctionKind) : Function :=
  { id := ⟨0⟩
    name
    fullName := name ++ "()"
    canonicalName := name ++ "()"
    context := none
    declarer := none
    kind
    visibility := .pub
    visibilityDefaulted := false
    isImplemented := false
    isShadowed := false
    parameters := []
    returns := []
    calls := .none
    body := none
    source := none
    astId := none }

/-- `name(type,...)`. -/
def signatureOf (name : String) (parameters : List Parameter) : String :=
  name ++ "(" ++ ",".intercalate (parameters.map (·.ty.render)) ++ ")"

/-- Sets the parameters and the names that show them. -/
def withSignature (f : Function) (parameters : List Parameter) : Function :=
  let fullName := signatureOf f.name parameters
  { f with
    fullName
    canonicalName := match f.declarer with
      | some declarer => declarer ++ "." ++ fullName
      | none => fullName
    parameters }

/-- Names the function by its name alone. -/
def withBareNames (f : Function) : Function :=
  { f with fullName := f.name, canonicalName := f.name }

/-- The name of the function in its compilation. -/
def uid (f : Function) : String :=
  match f.context with
  | some context => context ++ "::" ++ f.canonicalName
  | none => f.fullName

/-- The name of the function for readers. -/
def displayName (f : Function) : String :=
  match f.context with
  | some context => context ++ "." ++ f.fullName
  | none => f.fullName

def isConstructor (f : Function) : Bool := f.kind == .constructor

def isFallback (f : Function) : Bool := f.kind == .fallback

def isReceive (f : Function) : Bool := f.kind == .receive

def isModifier (f : Function) : Bool := f.kind == .modifier

/-! ## Call sites -/

/-- The list with a callee added at its end, unless it is there. -/
def addOnce (callees : List Callee) (callee : Callee) : List Callee :=
  if callees.contains callee then callees else callees ++ [callee]

/-- The call sites with one more callee of a body. -/
def recordCallee (calls : CallSites) (callee : Callee) : CallSites :=
  match callee with
  | .internal _ | .builtin _ | .unresolved .internal _ =>
      { calls with internal := addOnce calls.internal callee }
  | .library _ | .unresolved .library _ => { calls with library := addOnce calls.library callee }
  | .highLevel _ _ => { calls with highLevel := addOnce calls.highLevel callee }
  | .intrinsic _ => calls

/-- Refills the internal, library and high-level calls from the body, if there is one; modifiers
and base constructors belong to the header and stay. -/
def collectCalls (f : Function) : Function :=
  match f.body with
  | none => f
  | some body =>
      let header : CallSites :=
        { f.calls with internal := [], library := [], highLevel := [] }
      { f with calls := (body.operations.filterMap (·.callee?)).foldl recordCallee header }

end Function

end ContractCalls
