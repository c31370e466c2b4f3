/-
Syntax of Solidity function bodies, the same for both dialects.

Expressions and statements keep what the lowering needs and nothing of the
dialect.  A part that the language requires and the tree does not have is the
expression `absent`: it fails where its value is asked for.  Parentheses
around a place that is written to are gone.
-/
import ContractCalls.Constant
import ContractCalls.Source
import ContractCalls.Ty.Parser

namespace ContractCalls.Solidity

/-- The type of an expression as the compiler prints it, if it does. -/
abbrev TypeText := Option String

/-- What a unary operator does. -/
inductive UnaryForm where
  /-- An operator with an operation of its own. -/
  | direct (token : String)
  | negate
  /-- Increment or decrement by a binary operator. -/
  | step (operator : String) (givesOld : Bool)
  | delete
  /-- An operator without effect. -/
  | plain
deriving DecidableEq, Repr

/-- What the syntax of a call says about it. -/
inductive CallForm where
  | conversion
  | construction
  | ordinary
deriving DecidableEq, Repr

/-- An expression. -/
inductive Expr where
  /-- A required part of a node that is not there. -/
  | absent (field nodeType : String)
  | literal (text : TypeText) (value : Constant)
  | identifier (text : TypeText) (name : String) (declaration : Option Int)
  | member (text : TypeText) (base : Expr) (name : String) (declaration : Option Int)
  | index (text : TypeText) (base key : Expr)
  /-- An array type written as an index access without an index. -/
  | arrayType (text : TypeText) (base : Expr)
  | range (text : TypeText) (base : Expr) (bounds : List Expr)
  | binary (text : TypeText) (operator : String) (left right : Expr)
  | unary (text : TypeText) (form : UnaryForm) (operand : Expr)
  /-- An assignment; the operator is the one in front of `=`, if any. -/
  | assign (text : TypeText) (operator : Option String) (targetText : TypeText)
      (target value : Expr)
  /-- An assignment to several places, some of them left out. -/
  | assignAll (text : TypeText) (targets : List (Option Expr)) (value : Expr)
  | conditional (text : TypeText) (condition yes no : Expr)
  | tuple (text : TypeText) (isArray : Bool) (components : List (Option Expr))
  /-- A call.  The options of the callee stand apart, outermost first. -/
  | call (text : TypeText) (form : CallForm) (options : List Expr) (callee : Expr)
      (arguments : List Expr) (names : List String)
  /-- A function with call options that is not called. -/
  | withOptions (text : TypeText) (function : Expr)
  /-- An elementary type; in front of a member with its name, if that is known. -/
  | typeName (text : TypeText) (name : Option String)
  /-- A `new` expression, with the created type if that is known. -/
  | creation (text : TypeText) (created : Option Ty)
  /-- An expression the lowering does not know. -/
  | unsupported (text : TypeText) (nodeType label : String)

namespace Expr

instance : Inhabited Expr := ⟨.absent "" ""⟩

/-- The text of the type of an expression. -/
def typeText : Expr → TypeText
  | .absent _ _ => none
  | .literal text _ | .identifier text _ _ | .member text _ _ _ | .index text _ _
  | .arrayType text _ | .range text _ _ | .binary text _ _ _ | .unary text _ _
  | .assign text _ _ _ _ | .assignAll text _ _ | .conditional text _ _ _ | .tuple text _ _
  | .call text _ _ _ _ _ | .withOptions text _ | .typeName text _ | .creation text _
  | .unsupported text _ _ => text

/-- The type of an expression. -/
def ty (e : Expr) : Ty := Ty.ofText? e.typeText

/-- The name of the syntax of an expression. -/
def nodeType : Expr → String
  | .absent _ _ => ""
  | .literal _ _ => "Literal"
  | .identifier _ _ _ => "Identifier"
  | .member _ _ _ _ => "MemberAccess"
  | .index _ _ _ | .arrayType _ _ => "IndexAccess"
  | .range _ _ _ => "IndexRangeAccess"
  | .binary _ _ _ _ => "BinaryOperation"
  | .unary _ _ _ => "UnaryOperation"
  | .assign _ _ _ _ _ | .assignAll _ _ _ => "Assignment"
  | .conditional _ _ _ _ => "Conditional"
  | .tuple _ _ _ => "TupleExpression"
  | .call _ _ _ _ _ _ => "FunctionCall"
  | .withOptions _ _ => "FunctionCallOptions"
  | .typeName _ _ => "ElementaryTypeNameExpression"
  | .creation _ _ => "NewExpression"
  | .unsupported _ nodeType _ => nodeType

/-- The expression is not there. -/
def isAbsent : Expr → Bool
  | .absent _ _ => true
  | _ => false

/-- An expression as it reads in source, as far as that is known. -/
def label : Expr → String
  | .identifier _ name _ => name
  | .member _ base name _ => if base.isAbsent then name else base.label ++ "." ++ name
  | .index _ base _ | .arrayType _ base =>
      if base.isAbsent then "[...]" else base.label ++ "[...]"
  | .unsupported _ _ label => label
  | e => e.typeText.getD e.nodeType

/-- The expression names the contract that follows in the linearization. -/
def isSuper : Expr → Bool
  | .identifier _ name _ => name == "super"
  | _ => false

/-- A declaration the compiler itself makes: it has no id, or a negative one. -/
def isPredeclared (declaration : Option Int) : Bool :=
  match declaration with
  | some id => id < 0
  | none => true

/-- The receiver is no value: a predeclared name such as `msg`, or a type. -/
def isNamespace (e : Expr) : Bool :=
  match e with
  | .typeName _ _ => true
  | .identifier _ name declaration =>
      e.ty.isTypeOf || (name != "this" && isPredeclared declaration)
  | _ => e.ty.isTypeOf

/-- The name of a receiver that is no value. -/
def namespaceLabel : Expr → String
  | .typeName text name => name.getD (label (.typeName text name))
  | e => e.label

end Expr

/-- The declaration of a variable; a variable without a name cannot be referred to. -/
structure VarDecl where
  name : String
  ty : Ty
  id : Option Int
deriving DecidableEq, Repr

mutual

/-- A statement. -/
inductive Stmt where
  /-- A statement with its source position. -/
  | located (span : Option Span) (inner : Stmt)
  /-- Nothing to do. -/
  | skip
  | block (body : List Stmt)
  | expression (e : Expr)
  | declare (declarations : List (Option VarDecl)) (initial : Option Expr)
  | ifThen (condition : Expr) (yes : Stmt)
  | ifElse (condition : Expr) (yes no : Stmt)
  | whileLoop (condition : Expr) (body : Stmt)
  | doWhile (body : Stmt) (condition : Expr)
  | forLoop (start : Stmt) (condition : Option Expr) (next body : Stmt)
  | continueLoop
  | breakLoop
  /-- A return; without values the return variables are returned. -/
  | ret (values : Option (List Expr))
  | revert (call : Option Expr)
  | tryCatch (call : Expr) (clauses : List Clause)
  /-- A statement whose effects are not modelled. -/
  | nop
  | unsupported (nodeType : String)

/-- A clause of a `try` statement. -/
inductive Clause where
  | clause (parameters : List VarDecl) (body : Stmt)

end

instance : Inhabited Stmt := ⟨.skip⟩

/-- The definition of a function or modifier with a body. -/
structure Definition where
  parameters : List VarDecl
  returns : List VarDecl
  body : Stmt

end ContractCalls.Solidity
