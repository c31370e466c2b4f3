/-
The operands of one body.

Operands are only added.  Beside that, a reference is bound once to the
operand it aliases, a number may be changed, and each operand remembers its
single-assignment renamings.  An operation on the arena that fails leaves
nothing behind.
-/
import ContractCalls.Error
import ContractCalls.Operand.Basic

namespace ContractCalls

/-- An operand with its renamings. -/
structure Slot where
  operand : Operand
  /-- The single-assignment form of a temporary, reference or tuple. -/
  variant : Option OperandId
  /-- Version 0 of a variable. -/
  entryVersion : Option OperandId
  /-- How many further versions of a variable exist. -/
  versions : Nat
deriving DecidableEq, Repr

/-- The operands of a body. -/
structure Arena where
  slots : Array Slot
  /-- How many of them are references. -/
  references : Nat
deriving DecidableEq, Repr

namespace Arena

/-- No operands. -/
def empty : Arena := ⟨#[], 0⟩

instance : Inhabited Arena := ⟨empty⟩

/-- Number of operands. -/
def size (a : Arena) : Nat := a.slots.size

/-- Adds an operand. -/
def add (a : Arena) (operand : Operand) : OperandId × Arena :=
  (⟨a.slots.size⟩,
    { slots := a.slots.push ⟨operand, none, none, 0⟩
      references := if operand.isReference then a.references + 1 else a.references })

/-- Adds an operand that renames nothing. -/
def addKind (a : Arena) (kind : OperandKind) (ty : Ty) : OperandId × Arena :=
  a.add ⟨kind, ty, none⟩

/-- The slot of an operand. -/
def slot (a : Arena) (id : OperandId) : Except ModelError Slot :=
  match a.slots[id.index]? with
  | some slot => .ok slot
  | none => .error (.unknownOperand id.index)

/-- An operand. -/
def get (a : Arena) (id : OperandId) : Except ModelError Operand :=
  (a.slot id).map (·.operand)

/-- An operand, if the id names one. -/
def get? (a : Arena) (id : OperandId) : Option Operand :=
  a.slots[id.index]?.map (·.operand)

/-- Changes one slot. -/
def modifySlot (a : Arena) (id : OperandId) (f : Slot → Slot) : Arena :=
  { a with slots := a.slots.modify id.index f }

/-- Text of an operand, or of its id if there is none. -/
def display (a : Arena) (id : OperandId) : String :=
  match a.get? id with
  | some operand => operand.render
  | none => id.render

/-- Type of an operand. -/
def tyOf (a : Arena) (id : OperandId) : Ty :=
  match a.get? id with
  | some operand => operand.ty
  | none => .unknown

/-- The failure of an operand that may not be written. -/
def notLvalue {α : Type} (operand : Operand) : Except ModelError α :=
  .error (.invalidLvalue operand.render operand.kind.name)

/-- Binds a reference, once, to the operand it aliases. -/
def bindReference (a : Arena) (reference target : OperandId) : Except ModelError Arena := do
  let _ ← a.get target
  let operand ← a.get reference
  match operand.kind with
  | .reference index none =>
      return a.modifySlot reference fun slot =>
        { slot with operand := { slot.operand with kind := .reference index (some target) } }
  | .reference _ (some _) =>
      throw (.sequencing (operand.render ++ " is already bound to an operand"))
  | _ => notLvalue operand

/-- Follows bound references for at most `hops` steps; `start` is where the walk began. -/
def follow (a : Arena) (start : OperandId) : (hops : Nat) → OperandId →
    Except ModelError OperandId
  | hops, current => do
      match (← a.get current).kind with
      | .reference _ (some next) =>
          match hops with
          | 0 => throw (.referenceCycle (a.display start) a.references)
          | hops + 1 => follow a start hops next
      | _ => return current

/-- The end of a chain of references: the first operand that is not a bound reference.  No chain
without a cycle has more hops than there are references. -/
def resolve (a : Arena) (id : OperandId) : Except ModelError OperandId :=
  a.follow id a.references id

/-- The kind of the single-assignment form of an operand the lowering introduced; a reference
starts unbound. -/
def variantKind? : OperandKind → Option OperandKind
  | .temporary index => some (.temporary index)
  | .tuple index => some (.tuple index)
  | .reference index _ => some (.reference index none)
  | _ => none

/-- The single-assignment form of a temporary, reference or tuple, made on first use. -/
def variantOf (a : Arena) (id : OperandId) : Except ModelError (OperandId × Arena) := do
  let slot ← a.slot id
  match slot.variant with
  | some existing => return (existing, a)
  | none =>
      if slot.operand.ssa.isSome then return (id, a)
      else
        match variantKind? slot.operand.kind with
        | none => notLvalue slot.operand
        | some kind =>
            let (variant, a) := a.add ⟨kind, slot.operand.ty, some (.variant id)⟩
            return (variant, a.modifySlot id fun slot => { slot with variant := some variant })

/-- Adds a version of a variable. -/
def addVersion (a : Arena) (base : OperandId) (number : Nat) :
    Except ModelError (OperandId × Arena) := do
  let operand ← a.get base
  if operand.kind.isVariable && operand.ssa.isNone then
    return a.add ⟨operand.kind, operand.ty, some (.version base number)⟩
  else notLvalue operand

/-- Version 0 of a variable, its value on entry, made on first use. -/
def entryVersionOf (a : Arena) (base : OperandId) : Except ModelError (OperandId × Arena) := do
  match (← a.slot base).entryVersion with
  | some existing => return (existing, a)
  | none =>
      let (version, a) ← a.addVersion base 0
      return (version, a.modifySlot base fun slot => { slot with entryVersion := some version })

/-- A fresh version of a variable, numbered from 1. -/
def freshVersionOf (a : Arena) (base : OperandId) : Except ModelError (OperandId × Arena) := do
  let number := (← a.slot base).versions + 1
  let (version, a) ← a.addVersion base number
  return (version, a.modifySlot base fun slot => { slot with versions := number })

/-- The operand that a single-assignment operand renames, or the operand itself. -/
def nonSsa (a : Arena) (id : OperandId) : OperandId :=
  match (a.get? id).bind (·.ssa) with
  | some (.variant of) => of
  | some (.version base _) => base
  | none => id

/-- The kind with another number, if it has one. -/
def renumber? (number : Nat) : OperandKind → Option OperandKind
  | .temporary _ => some (.temporary number)
  | .reference _ pointsTo => some (.reference number pointsTo)
  | .tuple _ => some (.tuple number)
  | _ => none

/-- Gives an operand the lowering introduced another number. -/
def reindex (a : Arena) (id : OperandId) (number : Nat) : Except ModelError Arena := do
  let operand ← a.get id
  match renumber? number operand.kind with
  | some kind =>
      return a.modifySlot id fun slot => { slot with operand := { slot.operand with kind } }
  | none => notLvalue operand

/-- Fails unless the operand may be written. -/
def ensureLvalue (a : Arena) (id : OperandId) : Except ModelError Unit := do
  let operand ← a.get id
  if operand.isLvalue then return () else notLvalue operand

/-- Fails unless the operand may be read. -/
def ensureRvalue (a : Arena) (id : OperandId) : Except ModelError Unit := do
  let operand ← a.get id
  if operand.isRvalue then return ()
  else throw (.invalidRvalue operand.render operand.kind.name)

/-- Adds a temporary with the next number. -/
def temporary (a : Arena) (counters : Counters) (ty : Ty) : OperandId × Arena × Counters :=
  let (id, a) := a.addKind (.temporary counters.temporary) ty
  (id, a, { counters with temporary := counters.temporary + 1 })

/-- Adds an unbound reference with the next number. -/
def reference (a : Arena) (counters : Counters) (ty : Ty) : OperandId × Arena × Counters :=
  let (id, a) := a.addKind (.reference counters.reference none) ty
  (id, a, { counters with reference := counters.reference + 1 })

/-- Adds a tuple with the next number. -/
def tuple (a : Arena) (counters : Counters) (ty : Ty) : OperandId × Arena × Counters :=
  let (id, a) := a.addKind (.tuple counters.tuple) ty
  (id, a, { counters with tuple := counters.tuple + 1 })

end Arena

end ContractCalls
