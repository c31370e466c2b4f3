/-
# Parts of nodes of a Solidity syntax tree

The functions that map over the parts of a node hand on that a part is smaller
than the node.  A function that does not look at that is mapped over the parts
themselves.
-/
import ContractCalls.Solidity.Node

namespace ContractCalls.Solidity.Node

/-- What passes from the parts of a node to the node holds of all nodes. -/
@[elab_as_elim]
theorem partInduction {motive : Node → Prop}
    (step : ∀ n, (∀ c, IsPart c n → motive c) → motive n) (n : Node) : motive n :=
  step n fun c _ => partInduction step c
termination_by sizeOf n.json

theorem components_of_parenthesized? {n c : Node} (h : n.parenthesized? = some c) :
    n.nodeType = "TupleExpression" ∧ n.optionalFields "components" = [some c] := by
  unfold parenthesized? at h
  split at h
  · next hkind =>
      refine ⟨by simpa [is] using hkind, ?_⟩
      split at h
      · next inner hfields => rw [hfields, Option.some.inj h]
      · cases h
  · cases h

variable {α : Type} (n : Node) (key : String) (f : Node → α)

theorem mapField_eq : n.mapField key (fun c _ => f c) = (n.field? key).map f := by
  unfold mapField
  split
  · next c h => exact (congrArg (Option.map f) h).symm
  · next h => exact (congrArg (Option.map f) h).symm

theorem mapOptionalFields_eq :
    n.mapOptionalFields key (fun c _ => f c) = (n.optionalFields key).map (Option.map f) := by
  calc n.mapOptionalFields key (fun c _ => f c)
      = (n.optionalFields key).attach.map fun x => Option.map f x.1 := by
        refine List.map_congr_left ?_
        rintro ⟨c, hc⟩ -
        cases c <;> rfl
    _ = (n.optionalFields key).map (Option.map f) := List.attach_map_val

theorem mapFields_eq : n.mapFields key (fun c _ => f c) = (n.fields key).map f := by
  rw [mapFields, mapOptionalFields_eq, fields, List.filterMap_map, List.map_filterMap]
  rfl

end ContractCalls.Solidity.Node
