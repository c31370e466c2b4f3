/-
Direct call targets of a function.
-/
import ContractCalls.Compilation

namespace ContractCalls

/-- What a call lands on, in the order of the words for it. -/
inductive TargetKind where
  | function
  | solidity
  | unknown
  | stateVar
deriving DecidableEq, Repr, Ord

/-- The word for a kind of target. -/
def TargetKind.render : TargetKind → String
  | .function => "function"
  | .solidity => "solidity"
  | .unknown => "unknown"
  | .stateVar => "variable"

/-- How a call is made, in the order of the words for it. -/
inductive EdgeKind where
  | baseConstructor
  | external
  | internal
  | library
  | modifier
  | solidity
deriving DecidableEq, Repr, Ord

namespace EdgeKind

/-- All kinds of edges. -/
def all : List EdgeKind := [.baseConstructor, .external, .internal, .library, .modifier, .solidity]

/-- The word for a kind of edge. -/
def render : EdgeKind → String
  | .baseConstructor => "base-constructor"
  | .external => "external"
  | .internal => "internal"
  | .library => "library"
  | .modifier => "modifier"
  | .solidity => "solidity"

end EdgeKind

/-- What a call target refers to. -/
inductive TargetRef where
  | function (id : FunctionId)
  | getter (name : String)
  | builtin (name : String)
  | unknown
deriving DecidableEq, Repr

/-- One direct call of a function. -/
structure CallTarget where
  kind : TargetKind
  label : String
  edge : EdgeKind
  target : TargetRef
  /-- The contract a call on another contract names. -/
  contract : Option String
deriving DecidableEq, Repr

namespace CallTarget

/-- A target that names nothing known. -/
def unknown (label : String) (edge : EdgeKind) : CallTarget :=
  ⟨.unknown, label, edge, .unknown, none⟩

/-- A target that names a function, if there is one of that id. -/
def function (u : Compilation) (id : FunctionId) (edge : EdgeKind) : CallTarget :=
  match u.function? id with
  | some callee => ⟨.function, callee.displayName, edge, .function id, none⟩
  | none => unknown id.render edge

/-- The target of a callee in the internal list. -/
def ofInternal? (u : Compilation) : Callee → Option CallTarget
  | .internal id => some (function u id .internal)
  | .builtin name => some ⟨.solidity, name, .solidity, .builtin name, none⟩
  | .unresolved .internal label => some (unknown label .internal)
  | _ => none

/-- The target of a callee in the library list. -/
def ofLibrary? (u : Compilation) : Callee → Option CallTarget
  | .library id => some (function u id .library)
  | .unresolved .library label => some (unknown label .library)
  | _ => none

/-- A name with the contract it belongs to. -/
def qualified (contract : Option String) (name : String) : String :=
  match contract with
  | some contract => contract ++ "." ++ name
  | none => name

/-- The target of a callee in the high-level list. -/
def ofHighLevel? (u : Compilation) : Callee → Option CallTarget
  | .highLevel contract (.function id) => some { function u id .external with contract }
  | .highLevel contract (.getter name) =>
      some ⟨.stateVar, qualified contract name, .external, .getter name, contract⟩
  | .highLevel contract (.unresolved label) =>
      some ⟨.unknown, qualified contract label, .external, .unknown, contract⟩
  | _ => none

end CallTarget

/-- The direct call targets of a function: modifiers, base constructors, internal calls, library
calls, calls on other contracts. -/
def Compilation.callTargets (u : Compilation) (f : Function) : List CallTarget :=
  f.calls.modifiers.map (CallTarget.function u · .modifier) ++
    f.calls.baseConstructors.map (CallTarget.function u · .baseConstructor) ++
    f.calls.internal.filterMap (CallTarget.ofInternal? u) ++
    f.calls.library.filterMap (CallTarget.ofLibrary? u) ++
    f.calls.highLevel.filterMap (CallTarget.ofHighLevel? u)

/-- Which edges a call graph keeps; internal ones always. -/
structure CallFilters where
  external : Bool
  library : Bool
  solidity : Bool
  modifiers : Bool
  baseConstructors : Bool
deriving DecidableEq, Repr

namespace CallFilters

/-- Every edge but those to builtins. -/
def default : CallFilters := ⟨true, true, false, true, true⟩

instance : Inhabited CallFilters := ⟨default⟩

/-- The edge is kept. -/
def keeps (filters : CallFilters) : EdgeKind → Bool
  | .external => filters.external
  | .library => filters.library
  | .solidity => filters.solidity
  | .modifier => filters.modifiers
  | .baseConstructor => filters.baseConstructors
  | .internal => true

end CallFilters

/-- The direct call targets of a function over the kept edges. -/
def Compilation.keptTargets (u : Compilation) (filters : CallFilters) (f : Function) :
    List CallTarget :=
  (u.callTargets f).filter fun target => filters.keeps target.edge

end ContractCalls
