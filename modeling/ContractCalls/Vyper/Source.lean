/-
From a source file to an analysed compilation.

The compiler is asked first.  Where it fails, or gives no tree, the source
text is read without it, and the compilation carries a warning.
-/
import ContractCalls.Output.FileName
import ContractCalls.Vyper.Compiler
import ContractCalls.Vyper.Loader
import ContractCalls.Vyper.SourceOnly
import ContractCalls.Vyper.Version

namespace ContractCalls.Vyper

/-- What to compile, and which calls to keep. -/
structure Options where
  /-- The version that the source is made to ask for. -/
  version : Option String
  externalCalls : Bool
  builtinCalls : Bool
deriving DecidableEq, Repr

/-- The options of a run that asks for nothing special. -/
def Options.default : Options := ⟨none, true, false⟩

/-- The call sites that the options ask for. -/
def Options.prune (options : Options) (calls : CallSites) : CallSites :=
  { calls with
    highLevel := if options.externalCalls then calls.highLevel else []
    internal :=
      if options.builtinCalls then calls.internal
      else calls.internal.filter fun
        | .builtin _ => false
        | _ => true }

/-- The compilation with the call sites that the options ask for. -/
def pruneCalls (options : Options) (u : Compilation) : Compilation :=
  { u with functions := u.functions.map fun f => { f with calls := options.prune f.calls } }

/-- A source file. -/
structure Source where
  path : String
  text : String
deriving DecidableEq, Repr

namespace Source

/-- The name of the file. -/
def file (s : Source) : String := (FileName.fileName? s.path).getD s.path

/-- The name of the contract, unless the compiler knows better. -/
def contractName (s : Source) : String := (FileName.stem? s.path).getD "Contract"

/-- The text that the compiler is given. -/
def compilerText (s : Source) (options : Options) : String :=
  match options.version with
  | some version => Version.retarget s.text version
  | none => s.text

/-- The compilation of a tree. -/
def ofTree (s : Source) (contractName : String) (tree : Json) (policy : FailurePolicy) :
    Except FrontEndError Compilation :=
  match Loader.load.run (.new s.path contractName s.file s.text tree policy) with
  | (.ok (), loader) => .ok loader.unit
  | (.error e, _) => .error e

/-- The compilation of the text alone. -/
def withoutTree (s : Source) (warning : String) (policy : FailurePolicy) :
    Except FrontEndError Compilation :=
  (sourceUnit s.path s.contractName s.file s.text policy).map fun u =>
    { u with warning := some warning }

/-- The compilation by what the compiler says, with all call sites. -/
def compilation (s : Source) (policy : FailurePolicy) (answer : Except FrontEndError Json) :
    Except FrontEndError Compilation :=
  match answer with
  | .ok answer =>
      match Compiler.tree? answer with
      | some tree =>
          s.ofTree ((Compiler.contractName? answer).getD s.contractName) tree policy
      | none => s.withoutTree "vyper compilation failed; used source parser" policy
  | .error e => if e.isFatal then .error e else s.withoutTree e.message policy

/-- The compilation by what the compiler says, with the call sites that the options ask for. -/
def build (s : Source) (options : Options) (policy : FailurePolicy)
    (answer : Except FrontEndError Json) : Except FrontEndError Compilation :=
  (s.compilation policy answer).map (pruneCalls options)

end Source

end ContractCalls.Vyper
