/-
Modules: a source file is one contract, and its functions are named by their
names alone.
-/
import ContractCalls.Compilation
import ContractCalls.Text.Lines

namespace ContractCalls.Vyper

open Text

/-- A compilation that has a contract for a file and nothing in it. -/
def moduleUnit (target contractName file source : String) : ContractId × Compilation :=
  let u := Compilation.new target .vyper
  let u := { u with sources := u.sources.insert file source, sourceList := [file] }
  let (scope, u) := u.addScope file
  let (contract, u) := u.addContract contractName .module scope
  (contract, u.modifyContract contract fun c =>
    { c with source := some (.bytes file 0 (byteLength source.toList)) })

/-- Adds a function to the contract of a module. -/
def addModuleFunction (u : Compilation) (contract : ContractId) (function : Function) :
    FunctionId × Compilation :=
  let (id, u) := u.addFunction function
  let u := u.modifyContract contract fun c =>
    { c with functions := c.functions ++ [id], functionsDeclared := c.functionsDeclared ++ [id] }
  let u := match u.contract? contract with
    | some c => u.modifyScope c.scope fun s =>
        { s with functions := s.functions.insert function.fullName id }
    | none => u
  (id, u)

/-- A function of a module.  Without a visibility it is external. -/
def moduleFunction (contractName name : String) (visibility : Option Visibility)
    (parameters returns : List Parameter) (source : Option Span) (astId : Option Int) :
    Function :=
  let kind := if name == "__default__" then FunctionKind.fallback else .function
  let f : Function :=
    { Function.new name kind with
      context := some contractName
      declarer := some contractName
      visibility := visibility.getD .external
      visibilityDefaulted := visibility.isNone
      isImplemented := true
      returns
      source
      astId }
  (f.withSignature parameters).withBareNames

end ContractCalls.Vyper
