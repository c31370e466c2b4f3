/-
The functions of a contract by visibility.
-/
import ContractCalls.Compilation
import ContractCalls.Ordered

namespace ContractCalls

/-- Which functions of a contract are asked for. -/
structure VisibilityQuery where
  includeInherited : Bool
  includeShadowed : Bool
  /-- None: every visibility. -/
  visibilities : Option (List Visibility)
deriving DecidableEq, Repr

namespace VisibilityQuery

/-- All functions but shadowed ones. -/
def default : VisibilityQuery := ⟨true, false, none⟩

instance : Inhabited VisibilityQuery := ⟨default⟩

/-- The visibility is asked for. -/
def wants (query : VisibilityQuery) (visibility : Visibility) : Bool :=
  match query.visibilities with
  | some visibilities => visibilities.contains visibility
  | none => true

/-- The function is asked for: implemented, no modifier, of a wanted visibility, and not shadowed
unless that is asked for or it is a fallback. -/
def selects (query : VisibilityQuery) (f : Function) : Bool :=
  !f.isModifier && query.wants f.visibility && f.isImplemented &&
    (query.includeShadowed || !f.isShadowed || f.isFallback)

end VisibilityQuery

namespace Compilation

/-- The order of functions in a group: by display name, uid and id. -/
def groupOrder : Ordered.Comparison Function :=
  Ordered.lexically (Ordered.comparing Function.displayName)
    (Ordered.lexically (Ordered.comparing Function.uid)
      (Ordered.comparing fun f => f.id.index))

/-- The functions of a contract that a query is about. -/
def candidates (u : Compilation) (contract : Contract) (query : VisibilityQuery) :
    List Function :=
  let ids := if query.includeInherited then contract.functions else contract.functionsDeclared
  ids.filterMap u.function?

/-- The selected functions of a contract in the four groups, each sorted. -/
def groups (u : Compilation) (contract : Contract) (query : VisibilityQuery) :
    List (Visibility × List FunctionId) :=
  let selected := (u.candidates contract query).filter query.selects
  Visibility.all.map fun visibility =>
    (visibility,
      (Ordered.sort groupOrder (selected.filter (·.visibility == visibility))).map (·.id))

end Compilation

end ContractCalls
