/-
The JSON forms of errors.
-/
import ContractCalls.Error
import ContractCalls.Exchange.Field

namespace ContractCalls

namespace ModelError

/-- The name of a kind of model error. -/
def kindName : ModelError → String
  | .invalidLvalue _ _ => "InvalidLvalue"
  | .invalidRvalue _ _ => "InvalidRvalue"
  | .unknownUnaryOperator _ => "UnknownUnaryOperator"
  | .referenceCycle _ _ => "ReferenceCycle"
  | .unknownOperand _ => "UnknownOperand"
  | .sequencing _ => "IrSequencing"
  | .resolution _ => "Resolution"

/-- The fields of a model error. -/
def toFields (e : ModelError) : List (String × Json) :=
  [("error", .string e.kindName), ("message", .string e.message),
    ("contract_violation", .bool e.isContractViolation)]

def toJson (e : ModelError) : Json := Json.ofFields e.toFields

end ModelError

namespace FrontEndError

/-- The fields of a front-end error; those of files and of JSON texts have no message. -/
def toFields (e : FrontEndError) : List (String × Json) :=
  let named := fun (kind : String) =>
    [("error", Json.string kind), ("message", Json.string e.message)]
  match e with
  | .model cause => cause.toFields
  | .parsing _ => named "Parsing"
  | .missingField _ _ => named "MissingField"
  | .variableNotFound _ => named "VariableNotFound"
  | .unsupported _ => named "UnsupportedAst"
  | .sequencing _ => named "Sequencing"
  | .compiler _ => named "Compiler"
  | .io _ => [("error", .string "Io")]
  | .json => [("error", .string "Json")]

def toJson (e : FrontEndError) : Json :=
  Json.ofFields (e.toFields ++ [("fatal", .bool e.isFatal)])

end FrontEndError

/-- The JSON form of a result that may have failed. -/
def Json.ofResult {α : Type} (encode : α → Json) : Except ModelError α → Json
  | .ok a => encode a
  | .error e => e.toJson

end ContractCalls
