/-
The tool as a program.

This is the only module that reads and writes a disk.  Programs cannot be
started from here, so every compiler counts as one that is not there.
-/
import ContractCalls.CommandLine.Run

namespace ContractCalls.CommandLine

/-- The reason in an error of the system. -/
def SystemError.ofSystem : IO.Error → SystemError
  | .noFileOrDirectory .. => .notFound
  | .permissionDenied .. => .permissionDenied
  | .alreadyExists .. => .alreadyExists
  | .inappropriateType _ 20 _ => .notADirectory
  | .inappropriateType _ 21 _ => .isADirectory
  | .invalidArgument _ 36 _ => .nameTooLong
  | e => .other (toString e)

/-- An action whose failure is a value. -/
def guarded {α : Type} (action : IO α) : IO (Except SystemError α) := do
  match ← action.toBaseIO with
  | .ok a => return .ok a
  | .error e => return .error (.ofSystem e)

/-- The host that runs on the disk. -/
def diskHost : Host IO where
  isFile path := do
    match ← guarded (IO.FS.readBinFile path) with
    | .ok _ => return true
    | .error _ => return false
  read path := guarded (IO.FS.readFile path)
  write path text := guarded (IO.FS.writeFile path text)
  makeDirectories path := guarded (IO.FS.createDirAll path)
  compile _ _ := return .error .notFound
  print text := do (← IO.getStdout).putStr text
  note text := do (← IO.getStderr).putStr text

end ContractCalls.CommandLine

/-- Runs the tool. -/
def main (arguments : List String) : IO UInt32 := do
  let code ← ContractCalls.CommandLine.run ContractCalls.CommandLine.diskHost arguments
  return code.toUInt32
