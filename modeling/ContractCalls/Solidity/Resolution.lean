/-
Whom a call calls.

Calls are classified at the call site.  An internal call goes to the most
derived override the context sees; `super` and `Base.f` bind the instance of
the definition in the same context; a library call binds the library's own
instance; a call on a value of contract type is a high-level call.
-/
import ContractCalls.Solidity.Index
import ContractCalls.Solidity.Syntax

namespace ContractCalls.Solidity

/-- Where a body is lowered: what is known, and the contract that looks at it. -/
structure Env where
  unit : Compilation
  index : Index
  context : Option ContractId

/-- What happens to the receiver of a call. -/
inductive ReceiverUse where
  | unused
  /-- It is evaluated for its effects. -/
  | evaluated
  /-- Its value is passed as the first argument. -/
  | attached
deriving DecidableEq, Repr

/-- The members of addresses that call other code. -/
def lowLevelMembers : List String :=
  ["call", "delegatecall", "staticcall", "callcode", "send", "transfer"]

namespace Env

/-- An internal call that could not be resolved. -/
def unresolved (label : String) : Callee := .unresolved .internal label

/-- An internal call to an instance, or an unresolved one. -/
def internalOr (target : Option FunctionId) (label : String) : Callee :=
  match target with
  | some id => .internal id
  | none => unresolved label

/-- An internal call of a definition: the most derived override in the context, or else the
instance in the contract that declares it. -/
def virtual (env : Env) (definition : Int) (name : String) : Callee :=
  let overriding := env.context.bind fun context => do
    let id ← env.index.instance? (some context) definition
    let f ← env.unit.function? id
    dispatch? env.unit context f.fullName
  match overriding with
  | some id => .internal id
  | none =>
      match env.index.declaration? (some definition) with
      | some (.function (some declarer)) =>
          internalOr (env.index.instance? (some declarer) definition) name
      | _ => unresolved name

/-- The callee of a call by name. -/
def identifierCallee (env : Env) (text : TypeText) (name : String) (declaration : Option Int) :
    Callee :=
  match env.index.declaration? declaration, declaration with
  | some (.function none), some definition =>
      internalOr (env.index.instance? none definition) name
  | some (.function (some _)), some definition => env.virtual definition name
  | some (.event event), _ => .intrinsic (.emit event)
  | some (.error _), _ => .builtin ("revert " ++ Ty.signature name text)
  | some (.contract _), _ => .intrinsic .conversion
  | none, _ =>
      if Expr.isPredeclared declaration then .builtin (Ty.signature name text)
      else unresolved name
  | _, _ => unresolved name

/-- The instance of a definition in the context. -/
def inContext? (env : Env) (definition : Int) : Option FunctionId :=
  env.context.bind fun context => env.index.instance? (some context) definition

/-- The declarer of a function, if it is a library. -/
def library? (env : Env) (declarer : ContractId) : Option Contract :=
  (env.unit.contract? declarer).filter (·.isLibrary)

/-- What a call of a member lands on when the receiver is a value of contract type. -/
def highLevelTarget (env : Env) (contract : String) (text : TypeText) (name : String)
    (declaration : Option Int) : HighLevelTarget :=
  let unknown := .unresolved (Ty.signature name text)
  match env.index.declaration? declaration, declaration with
  | some (.function _), some definition =>
      let found := (env.unit.contractByName? contract).bind fun c =>
        env.index.instance? (some c.id) definition
      match found with
      | some id => .function id
      | none => unknown
  | some (.stateVariable _ getter _), _ => .getter getter
  | _, _ => unknown

/-- The callee of a member whose declaration does not decide: by the type of the receiver. -/
def receiverCallee (env : Env) (text : TypeText) (base : Expr) (name : String)
    (declaration : Option Int) : Callee × ReceiverUse :=
  match base.ty with
  | .contract contract =>
      (.highLevel (some contract) (env.highLevelTarget contract text name declaration), .evaluated)
  | ty =>
      if base.isNamespace then
        (.builtin (Ty.signature (base.namespaceLabel ++ "." ++ name) text), .unused)
      else if ty.isAddress && lowLevelMembers.contains name then
        (.intrinsic (.lowLevel name), .attached)
      else (.intrinsic (.member name), .attached)

/-- The callee of a call of a member. -/
def memberCallee (env : Env) (text : TypeText) (base : Expr) (name : String)
    (declaration : Option Int) : Callee × ReceiverUse :=
  let attach : ReceiverUse := if base.ty.isTypeOf then .unused else .attached
  if base.isSuper then
    (internalOr (declaration.bind env.inContext?) ("super." ++ name), .unused)
  else
    match env.index.declaration? declaration, declaration with
    | some (.function none), some definition =>
        (internalOr (env.index.instance? none definition) name, attach)
    | some (.function (some declarer)), some definition =>
        match env.library? declarer with
        | some library =>
            match env.index.instance? (some declarer) definition with
            | some id => (.library id, attach)
            | none => (.unresolved .library (library.name ++ "." ++ name), attach)
        | none =>
            if base.ty.isTypeOf then
              (internalOr (env.inContext? definition) (base.namespaceLabel ++ "." ++ name),
                .unused)
            else env.receiverCallee text base name declaration
    | some (.event event), _ => (.intrinsic (.emit event), .unused)
    | some (.error _), _ => (.builtin ("revert " ++ Ty.signature name text), .unused)
    | _, _ => env.receiverCallee text base name declaration

/-- Whom a call of an expression calls, and what happens to the receiver: the base of a member,
or else the expression itself. -/
def resolve (env : Env) (callee : Expr) : Callee × ReceiverUse :=
  match callee with
  | .identifier text name declaration => (env.identifierCallee text name declaration, .unused)
  | .member text base name declaration => env.memberCallee text base name declaration
  | other => (unresolved other.label, .evaluated)

end Env

end ContractCalls.Solidity
