/-
The exchange with the compiler: the request it is given, and what is read from
its answer.
-/
import ContractCalls.Error
import ContractCalls.Json.Parser
import ContractCalls.Json.Printer
import ContractCalls.Text.Blank

namespace ContractCalls.Vyper

namespace Compiler

/-- The outputs a request asks for, for every contract. -/
def contractOutputs : List String :=
  ["abi", "devdoc", "userdoc", "evm.bytecode", "evm.deployedBytecode",
    "evm.deployedBytecode.sourceMap"]

/-- The request to compile a source. -/
def request (file source : String) : Json :=
  let object := Json.ofFields
  object [
    ("language", .string "Vyper"),
    ("sources", object [(file, object [("content", .string source)])]),
    ("settings", object [
      ("outputSelection", object [
        ("*", object [("*", .ofStrings contractOutputs), ("", .ofStrings ["ast"])])])])]

/-! ## The answer -/

/-- A diagnostic that does not stop the compilation. -/
def isWarning (diagnostic : Json) : Bool :=
  (diagnostic.get? "severity").bind Json.asString? == some "warning"

/-- The text of a diagnostic: its message, or else all of it. -/
def diagnosticText (diagnostic : Json) : String :=
  let message := (diagnostic.get? "formattedMessage").or (diagnostic.get? "message")
  (message.bind Json.asString?).getD diagnostic.compact

/-- The texts of the diagnostics that are no warnings, if there are any. -/
def errors? (answer : Json) : Option String := do
  let diagnostics ← (← answer.get? "errors").asArray?
  match diagnostics.filter (!isWarning ·) with
  | [] => none
  | errors => some ("\n\n".intercalate (errors.map diagnosticText))

/-- The values of an object, in order of their keys. -/
def members (json : Json) : List Json := (json.asObject?.getD []).map Prod.snd

/-- The name of the first contract of the first source that has any entry. -/
def contractName? (answer : Json) : Option String := do
  let first ← (members (← answer.get? "contracts")).head?
  let contract ← (← first.asObject?).head?
  return contract.1

/-- The first tree of a module. -/
def tree? (answer : Json) : Option Json := do
  (members (← answer.get? "sources")).findSome? fun source =>
    (source.get? "ast").filter Json.isObject

/-- What a compiler process says: its answer, or why there is none. -/
def outcome (stdout stderr : String) : Except FrontEndError Json :=
  let text := Text.trimString stdout
  match if text.isEmpty then some (Json.ofFields []) else Json.parse? text with
  | none =>
      .error (.compiler
        ("vyper did not return JSON.\nstdout:\n" ++ text ++ "\nstderr:\n" ++ stderr))
  | some answer =>
      match errors? answer with
      | some errors => .error (.compiler errors)
      | none => .ok answer

/-- Why a compiler that is not there gives no answer. -/
def notFound (binary reason : String) : FrontEndError :=
  .compiler ("failed to run " ++ binary ++ ": " ++ reason)

end Compiler

end ContractCalls.Vyper
