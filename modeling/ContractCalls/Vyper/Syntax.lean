/-
Syntax of Vyper function bodies.

Expressions and statements keep what the lowering needs.  A part that the
language requires and the tree does not have is the expression `absent`: it
fails where its value is asked for.  A node of a kind the lowering does not
know is `unlisted`: only its children matter.
-/
import ContractCalls.Constant
import ContractCalls.Error
import ContractCalls.Source
import ContractCalls.Ty.Basic

namespace ContractCalls.Vyper

/-- What a unary operator does. -/
inductive UnaryForm where
  | not
  | invert
  | negate
deriving DecidableEq, Repr

/-- An expression. -/
inductive Expr where
  /-- A required part of a node that is not there. -/
  | absent (field nodeType : String)
  | literal (value : Constant) (ty : Ty)
  | name (id : String)
  | member (base : Expr) (name : String)
  | subscript (base key : Expr)
  /-- A call with its arguments, those by keyword last.  The label is the callee as it reads in
  source. -/
  | call (callee : Expr) (label : String) (arguments : List Expr)
  /-- The construction of a structure from named members. -/
  | construct (typeName : String) (names : List String) (values : List Expr)
  /-- A call marked with the kind of node it is wrapped in. -/
  | marked (nodeType : String) (inner : Expr)
  | binary (operator : String) (left right : Expr)
  | compare (operator : String) (left right : Expr)
  /-- A chain of one logical operator. -/
  | logical (operator : String) (operands : List Expr)
  | unary (form : UnaryForm) (operand : Expr)
  | tuple (elements : List Expr)
  | list (elements : List Expr)
  | conditional (test yes no : Expr)
  | dict (values : List Expr)
  /-- A node of a kind the lowering does not know. -/
  | unlisted (nodeType : String) (children : List Expr)

namespace Expr

instance : Inhabited Expr := ⟨.absent "" ""⟩

/-- The name of the syntax of an expression that may have no result. -/
def callType : Expr → String
  | .marked nodeType _ => nodeType
  | _ => "Call"

/-- The expression names the contract itself. -/
def isSelf : Expr → Bool
  | .name id => id == "self"
  | _ => false

end Expr

/-- A variable with its type. -/
structure Binding where
  name : String
  ty : Ty
deriving DecidableEq, Repr

/-- A statement.  A declaration that cannot be read is kept as the reason. -/
inductive Stmt where
  /-- A statement with its source position. -/
  | located (span : Option Span) (inner : Stmt)
  /-- Nothing to do. -/
  | skip
  | expression (e : Expr)
  | declare (binding : Except FrontEndError Binding) (initial : Option Expr)
  | assign (target value : Expr)
  /-- An assignment of the components of a value. -/
  | assignAll (targets : List Expr) (value : Expr)
  /-- An assignment with an operator in front of the `=`. -/
  | update (operator : String) (target value : Expr)
  | ret (values : List Expr)
  /-- A conditional; without statements in it there is no other branch. -/
  | ifElse (test : Expr) (yes no : List Stmt)
  | forEach (binding : Except FrontEndError Binding) (iterable : Expr) (body : List Stmt)
  | assert (test : Expr) (message : Option Expr)
  | raise (exception : Option Expr)
  | breakLoop
  | continueLoop
  | nop

instance : Inhabited Stmt := ⟨.skip⟩

/-- The definition of a function. -/
structure Definition where
  parameters : Except FrontEndError (List Binding)
  body : List Stmt

end ContractCalls.Vyper
