/-
Failures of a run: what was being done, and why it did not work.
-/
import ContractCalls.Error
import ContractCalls.Output.BundleText

namespace ContractCalls.CommandLine

/-- A failure with its causes, each one explaining the one before. -/
structure Failure where
  message : String
  causes : List String
deriving DecidableEq, Repr

namespace Failure

/-- A failure without causes. -/
def of (message : String) : Failure := ⟨message, []⟩

/-- The failure as the cause of another one. -/
def within (f : Failure) (context : String) : Failure := ⟨context, f.message :: f.causes⟩

/-- A failure of a front end; what the system or the data itself says is a cause of its own. -/
def ofFrontEnd (e : FrontEndError) : Failure :=
  match e with
  | .io detail => ⟨e.message, [detail]⟩
  | .json => ⟨e.message, ["not a JSON text"]⟩
  | _ => of e.message

/-- The failure on one line. -/
def inline (f : Failure) : String := ": ".intercalate (f.message :: f.causes)

/-- The lines of a text with blanks in front of all but the first. -/
def hanging (width : Nat) (text : String) : String :=
  ("\n" ++ String.ofList (List.replicate width ' ')).intercalate (text.splitOn "\n")

/-- The text of the one cause there is. -/
def onlyCause (cause : String) : String := "    " ++ hanging 4 cause

/-- The text of one of several causes. -/
def numberedCause (position : Nat) (cause : String) : String :=
  let digits := toString position
  String.ofList (List.replicate (5 - digits.length) ' ') ++ digits ++ ": " ++ hanging 7 cause

/-- The texts of causes; several of them are numbered from zero. -/
def causeLines : List String → List String
  | [] => []
  | [cause] => [onlyCause cause]
  | causes => causes.mapIdx numberedCause

/-- The failure as users see it. -/
def render (f : Failure) : String :=
  let causes := match causeLines f.causes with
    | [] => ""
    | lines => "\n\nCaused by:\n" ++ "\n".intercalate lines
  "Error: " ++ f.message ++ causes ++ "\n"

end Failure

end ContractCalls.CommandLine
