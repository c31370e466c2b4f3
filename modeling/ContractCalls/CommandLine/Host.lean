/-
What a run needs from the system it runs on.

A run is written against `Host`, so it means the same on a disk and on a file
tree in memory.
-/
namespace ContractCalls.CommandLine

/-- Why the system refuses a request. -/
inductive SystemError where
  | notFound
  | permissionDenied
  | alreadyExists
  | notADirectory
  | isADirectory
  | nameTooLong
  | notAProgram
  | nulInPath
  | nulInArgument
  | other (text : String)
deriving DecidableEq, Repr

/-- The wording of the system. -/
def SystemError.message : SystemError → String
  | .notFound => "No such file or directory (os error 2)"
  | .permissionDenied => "Permission denied (os error 13)"
  | .alreadyExists => "File exists (os error 17)"
  | .notADirectory => "Not a directory (os error 20)"
  | .isADirectory => "Is a directory (os error 21)"
  | .nameTooLong => "File name too long (os error 36)"
  | .notAProgram => "Exec format error (os error 8)"
  | .nulInPath => "file name contained an unexpected NUL byte"
  | .nulInArgument => "nul byte found in provided data"
  | .other text => text

/-- What a program printed. -/
structure ProgramOutput where
  stdout : String
  stderr : String
deriving DecidableEq, Repr

/-- The system a run runs on. -/
structure Host (m : Type → Type) where
  /-- The path names a file. -/
  isFile : (path : String) → m Bool
  /-- The text of a file. -/
  read : (path : String) → m (Except SystemError String)
  /-- Makes or replaces a file. -/
  write : (path text : String) → m (Except SystemError Unit)
  /-- Makes a directory, and those above it, unless it is there. -/
  makeDirectories : (path : String) → m (Except SystemError Unit)
  /-- Runs a compiler on a request. -/
  compile : (binary request : String) → m (Except SystemError ProgramOutput)
  /-- Writes to the standard output. -/
  print : (text : String) → m Unit
  /-- Writes to the standard error. -/
  note : (text : String) → m Unit

end ContractCalls.CommandLine
