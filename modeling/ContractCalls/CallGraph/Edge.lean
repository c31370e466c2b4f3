/-
The call-graph record of a function: its calls without duplicates, sorted.
-/
import ContractCalls.CallGraph.Target
import ContractCalls.Ordered

namespace ContractCalls

/-- One outgoing call of a function. -/
inductive CallEntry where
  | function (edge : EdgeKind) (id name display : String) (visibility : Option Visibility)
      (context declaredIn : Option String)
  | getter (edge : EdgeKind) (name display : String) (contract : Option String)
  | solidity (edge : EdgeKind) (name : String)
  | unknown (edge : EdgeKind) (display : String)
deriving DecidableEq, Repr

namespace CallEntry

def edge : CallEntry → EdgeKind
  | .function edge .. | .getter edge .. | .solidity edge _ | .unknown edge _ => edge

def kind : CallEntry → TargetKind
  | .function .. => .function
  | .getter .. => .stateVar
  | .solidity .. => .solidity
  | .unknown .. => .unknown

/-- The text for readers. -/
def label : CallEntry → String
  | .function _ _ _ display .. | .getter _ _ display _ | .unknown _ display => display
  | .solidity _ name => name

/-- The uid of a function entry. -/
def id? : CallEntry → Option String
  | .function _ id .. => some id
  | _ => none

/-- The entry of a call to an implemented function. -/
def ofFunction (edge : EdgeKind) (callee : Function) : CallEntry :=
  .function edge callee.uid callee.fullName callee.displayName (some callee.visibility)
    callee.context callee.declarer

/-- What tells entries apart: the edge, the kind, and the uid of a function or the text. -/
structure Key where
  edge : EdgeKind
  kind : TargetKind
  identity : String
deriving DecidableEq, Repr

/-- The key and the entry of a target.  A function without a body is an unknown target. -/
def ofTarget? (u : Compilation) (target : CallTarget) : Option (Key × CallEntry) :=
  let unknown := fun (label : String) =>
    (Key.mk target.edge .unknown label, CallEntry.unknown target.edge label)
  match target.kind, target.target with
  | .function, .function id =>
      match u.function? id with
      | none => none
      | some callee =>
          if callee.isImplemented then
            some (⟨target.edge, .function, callee.uid⟩, ofFunction target.edge callee)
          else some (unknown callee.displayName)
  | .stateVar, .getter name =>
      some (⟨target.edge, .stateVar, target.label⟩,
        .getter target.edge name target.label target.contract)
  | .solidity, .builtin name =>
      some (⟨target.edge, .solidity, name⟩, .solidity target.edge name)
  | _, _ => some (unknown target.label)

/-- The order of entries: by edge, kind and text. -/
def order : Ordered.Comparison CallEntry :=
  Ordered.lexically (Ordered.comparing edge)
    (Ordered.lexically (Ordered.comparing kind) (Ordered.comparing label))

/-- The entries whose key comes first, in order. -/
def dedup : (seen : List Key) → List (Key × CallEntry) → List CallEntry
  | _, [] => []
  | seen, (key, entry) :: rest =>
      if seen.contains key then dedup seen rest else entry :: dedup (key :: seen) rest

end CallEntry

/-- A function with its direct calls. -/
structure FunctionNode where
  id : String
  name : String
  display : String
  visibility : Option Visibility
  visibilityDefaulted : Bool
  context : Option String
  declaredIn : Option String
  isConstructor : Bool
  isFallback : Bool
  isReceive : Bool
  isShadowed : Bool
  calls : List CallEntry
deriving DecidableEq, Repr

/-- The record of a function with the given calls. -/
def FunctionNode.ofFunction (f : Function) (calls : List CallEntry) : FunctionNode :=
  { id := f.uid
    name := f.fullName
    display := f.displayName
    visibility := some f.visibility
    visibilityDefaulted := f.visibilityDefaulted
    context := f.context
    declaredIn := f.declarer
    isConstructor := f.isConstructor
    isFallback := f.isFallback
    isReceive := f.isReceive
    isShadowed := f.isShadowed
    calls }

namespace Compilation

/-- The calls of a function over the kept edges, each once, in order. -/
def callEntries (u : Compilation) (filters : CallFilters) (f : Function) : List CallEntry :=
  Ordered.sort CallEntry.order
    (CallEntry.dedup [] ((u.keptTargets filters f).filterMap (CallEntry.ofTarget? u)))

/-- The call-graph record of a function. -/
def callEdges (u : Compilation) (root : FunctionId) (filters : CallFilters) :
    Except ModelError FunctionNode :=
  match u.function? root with
  | some f => .ok (.ofFunction f (u.callEntries filters f))
  | none => .error (.resolution ("no function with id " ++ root.render))

end Compilation

end ContractCalls
