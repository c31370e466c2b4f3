/-
Causes of failure, and their wording.

`ModelError` comes from building and analysing the model of a program;
`FrontEndError` from reading compiler output into it.  The texts users see are
in the two `message` functions and nowhere else.
-/
namespace ContractCalls

/-- What can go wrong inside the model. -/
inductive ModelError where
  | invalidLvalue (operand kind : String)
  | invalidRvalue (operand kind : String)
  | unknownUnaryOperator (token : String)
  | referenceCycle (operand : String) (bound : Nat)
  | unknownOperand (id : Nat)
  | sequencing (detail : String)
  | resolution (detail : String)
deriving DecidableEq, Repr

namespace ModelError

/-- Text of a model error. -/
def message : ModelError → String
  | .invalidLvalue operand kind => "Invalid lvalue: " ++ operand ++ " is a " ++ kind ++ " operand"
  | .invalidRvalue operand kind => "Invalid rvalue: " ++ operand ++ " is a " ++ kind ++ " operand"
  | .unknownUnaryOperator token => "Unknown unary operator: " ++ token
  | .referenceCycle operand bound =>
      "Reference chain from " ++ operand ++ " exceeds " ++ toString bound ++ " hops"
  | .unknownOperand id => "Unknown operand id: " ++ toString id
  | .sequencing detail => "Sequencing error: " ++ detail
  | .resolution detail => "Resolution error: " ++ detail

/-- The error shows a defect of whoever built the model, and no retry can help. -/
def isContractViolation : ModelError → Bool
  | .sequencing _ | .resolution _ => false
  | _ => true

end ModelError

/-- What can go wrong while reading compiler output. -/
inductive FrontEndError where
  | model (cause : ModelError)
  | parsing (detail : String)
  | missingField (field nodeType : String)
  | variableNotFound (name : String)
  | unsupported (detail : String)
  | sequencing (detail : String)
  | compiler (detail : String)
  /-- A file could not be read or written. -/
  | io (detail : String)
  /-- A text is not JSON. -/
  | json
deriving DecidableEq, Repr

namespace FrontEndError

/-- Text of a front-end error. -/
def message : FrontEndError → String
  | .model cause => cause.message
  | .parsing detail => "Parse error: " ++ detail
  | .missingField field nodeType => "Missing required field: " ++ field ++ " in " ++ nodeType
  | .variableNotFound name => "Variable not found: " ++ name
  | .unsupported detail => "Unsupported AST: " ++ detail
  | .sequencing detail => "Sequencing error: " ++ detail
  | .compiler detail => "Compiler error: " ++ detail
  | .io detail => "I/O error: " ++ detail
  | .json => "JSON error: not a JSON text"

/-- The error ends the analysis whatever the failure policy. -/
def isFatal : FrontEndError → Bool
  | .model (.sequencing _) => true
  | .model cause => cause.isContractViolation
  | .sequencing _ => true
  | _ => false

end FrontEndError

/-- What happens to the rest of an analysis when one part of it fails. -/
inductive FailurePolicy where
  | stopOnFirst
  | collectAndContinue
deriving DecidableEq, Repr

/-- The failure may be recorded and the analysis go on. -/
def FailurePolicy.tolerates (policy : FailurePolicy) (error : FrontEndError) : Bool :=
  policy == .collectAndContinue && !error.isFatal

end ContractCalls
