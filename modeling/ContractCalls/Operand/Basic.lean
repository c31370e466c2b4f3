/-
Operands: what the operations of a body read and write.
-/
import ContractCalls.Constant
import ContractCalls.Ty.Basic

namespace ContractCalls

/-- Position of an operand in its arena. -/
structure OperandId where
  index : Nat
deriving DecidableEq, Repr, Inhabited, Ord

/-- Text of an operand id that names no operand. -/
def OperandId.render (id : OperandId) : String := "%" ++ toString id.index

/-- What an operand is. -/
inductive OperandKind where
  | stateVar (name : String)
  | localVar (name : String)
  | temporary (index : Nat)
  /-- A reference to storage, with the operand it aliases once bound. -/
  | reference (index : Nat) (pointsTo : Option OperandId)
  | tuple (index : Nat)
  | constant (value : Constant)
  | builtin (name : String)
deriving DecidableEq, Repr

namespace OperandKind

/-- The word for a kind in messages. -/
def name : OperandKind → String
  | .stateVar _ => "state"
  | .localVar _ => "local"
  | .temporary _ => "temporary"
  | .reference _ _ => "reference"
  | .tuple _ => "tuple"
  | .constant _ => "constant"
  | .builtin _ => "builtin"

/-- The operand was introduced by the lowering. -/
def isIntroduced : OperandKind → Bool
  | .temporary _ | .reference _ _ | .tuple _ => true
  | _ => false

/-- The operand is a variable of the program. -/
def isVariable : OperandKind → Bool
  | .stateVar _ | .localVar _ => true
  | _ => false

/-- Name of a variable of the program. -/
def variableName? : OperandKind → Option String
  | .stateVar name | .localVar name => some name
  | _ => none

end OperandKind

/-- Link from a single-assignment operand back to the operand it renames. -/
inductive SsaLink where
  /-- The one renaming of a temporary, reference or tuple. -/
  | variant (of : OperandId)
  /-- A numbered version of a variable; number 0 is its value on entry. -/
  | version (base : OperandId) (number : Nat)
deriving DecidableEq, Repr

/-- An operand with its type. -/
structure Operand where
  kind : OperandKind
  ty : Ty
  ssa : Option SsaLink
deriving DecidableEq, Repr

namespace Operand

/-- The operand may be written: every kind but constants and builtins. -/
def isLvalue (o : Operand) : Bool := o.kind.isVariable || o.kind.isIntroduced

/-- The operand may be read: every kind. -/
def isRvalue (o : Operand) : Bool :=
  o.isLvalue ||
    match o.kind with
    | .constant _ | .builtin _ => true
    | _ => false

/-- The operand is a reference. -/
def isReference (o : Operand) : Bool :=
  match o.kind with
  | .reference _ _ => true
  | _ => false

/-- Name of a variable or builtin. -/
def name? (o : Operand) : Option String :=
  match o.kind with
  | .stateVar name | .localVar name | .builtin name => some name
  | _ => none

/-- Text of an operand; a version shows its number. -/
def render (o : Operand) : String :=
  match o.kind with
  | .stateVar name | .localVar name =>
      match o.ssa with
      | some (.version _ number) => name ++ "_" ++ toString number
      | _ => name
  | .temporary index => "TMP_" ++ toString index
  | .reference index _ => "REF_" ++ toString index
  | .tuple index => "TUPLE_" ++ toString index
  | .constant value => value.render
  | .builtin name => name

end Operand

/-- The next free numbers of operands that the lowering introduces, shared by all bodies of a
compilation. -/
structure Counters where
  temporary : Nat
  reference : Nat
  tuple : Nat
deriving DecidableEq, Repr

/-- Counters that have numbered nothing. -/
def Counters.start : Counters := ⟨0, 0, 0⟩

end ContractCalls
