/-
A file tree in memory.

Paths are followed component by component: whatever a component is looked up
in has to be a directory, and the name must not be too long.
-/
import ContractCalls.CommandLine.Place
import ContractCalls.Output.FileName
import ContractCalls.Table

namespace ContractCalls.CommandLine

/-- What a name in a file tree stands for. -/
inductive Entry where
  | directory
  | file (text : String)
  /-- A device that takes every text and holds none. -/
  | sink
deriving DecidableEq, Repr

/-- A file tree, by place. -/
structure FileTree where
  entries : Table Place Entry
deriving Repr

namespace FileTree

/-- The entry at a place; a place without names is always a directory. -/
def entry? (t : FileTree) (place : Place) : Option Entry :=
  if place.names.isEmpty then some .directory else t.entries.get? place

/-- Sets the entry at a place. -/
def put (t : FileTree) (place : Place) (entry : Entry) : FileTree :=
  ⟨t.entries.insert place entry⟩

/-- A tree with nothing in its working directory, and with what every system has at its root. -/
def empty : FileTree :=
  let root := FileTree.mk .empty
  ((root.put ⟨.root, ["tmp"]⟩ .directory).put ⟨.root, ["dev"]⟩ .directory).put
    ⟨.root, ["dev", "null"]⟩ .sink

/-! ## Following paths -/

/-- Fails unless there is a directory at the place. -/
def ensureDirectory (t : FileTree) (place : Place) : Except SystemError Unit :=
  match t.entry? place with
  | some .directory => .ok ()
  | some _ => .error .notADirectory
  | none => .error .notFound

/-- The place that a component leads to. -/
def step (t : FileTree) (place : Place) (component : String) : Except SystemError Place := do
  t.ensureDirectory place
  checkName component
  return place.enter component

/-- The place that components lead to. -/
def follow (t : FileTree) (place : Place) : List String → Except SystemError Place
  | [] => .ok place
  | component :: rest =>
      match t.step place component with
      | .ok next => follow t next rest
      | .error e => .error e

/-- The place that a path leads to. -/
def resolve (t : FileTree) (path : String) : Except SystemError Place := do
  checkPath path
  t.follow (startOf path) (components path)

/-- The entry that a path leads to. -/
def find (t : FileTree) (path : String) : Except SystemError Entry := do
  match t.entry? (← t.resolve path) with
  | some .directory => .ok .directory
  | some entry => if endsInSeparator path then .error .notADirectory else .ok entry
  | none => .error .notFound

/-! ## Files -/

/-- The path leads to a file. -/
def isFile (t : FileTree) (path : String) : Bool :=
  match t.find path with
  | .ok (.file _) => true
  | _ => false

/-- The text of a file. -/
def read (t : FileTree) (path : String) : Except SystemError String := do
  match ← t.find path with
  | .file text => .ok text
  | .sink => .ok ""
  | .directory => .error .isADirectory

/-- The tree with a text in a file of a directory. -/
def writeIn (t : FileTree) (directory : Place) (name text : String) :
    Except SystemError FileTree := do
  let place ← t.step directory name
  match t.entry? place with
  | some .directory => .error .isADirectory
  | some .sink => .ok t
  | _ => .ok (t.put place (.file text))

/-- The tree with a file made or replaced. -/
def write (t : FileTree) (path text : String) : Except SystemError FileTree := do
  checkPath path
  let parts := components path
  let directory ← t.follow (startOf path) parts.dropLast
  t.ensureDirectory directory
  match parts.getLast? with
  | some name =>
      if endsInSeparator path then .error .isADirectory else t.writeIn directory name text
  | none => .error .isADirectory

/-! ## Directories -/

/-- The tree with a directory where components lead; one that is there will do. -/
def makeDirectory (t : FileTree) (start : Place) (parts : List String) :
    Except SystemError FileTree := do
  let place ← t.follow start parts
  match t.entry? place with
  | some .directory => .ok t
  | some _ => .error .alreadyExists
  | none => .ok (t.put place .directory)

/-- The outcome of a change, and the tree after it: a change that fails changes nothing. -/
def settle (t : FileTree) : Except SystemError FileTree → Except SystemError Unit × FileTree
  | .ok changed => (.ok (), changed)
  | .error e => (.error e, t)

/-- Makes a directory where reversed components lead, after those above it that are missing.
What was made stays, even if a later one fails. -/
def makeUpwards (t : FileTree) (start : Place) :
    (reversed : List String) → Except SystemError Unit × FileTree
  | [] => (.ok (), t)
  | name :: above =>
      let parts := (name :: above).reverse
      match t.makeDirectory start parts with
      | .error .notFound =>
          match makeUpwards t start above with
          | (.ok (), t) => t.settle (t.makeDirectory start parts)
          | failed => failed
      | outcome => t.settle outcome

/-- Makes a directory, and those above it. -/
def makeDirectories (t : FileTree) (path : String) : Except SystemError Unit × FileTree :=
  if path.isEmpty then (.ok (), t)
  else
    match checkPath path with
    | .ok () => t.makeUpwards (startOf path) (components path).reverse
    | .error e => (.error e, t)

/-- The tree with a file at a path, whatever directories that needs. -/
def addFile (t : FileTree) (path text : String) : FileTree :=
  let ready := (t.makeDirectories ((FileName.parent? path).getD "")).2
  (ready.settle (ready.write path text)).2

/-- The files below the working directory, by path. -/
def files (t : FileTree) : List (String × String) :=
  t.entries.entries.filterMap fun (place, entry) =>
    match place.below?, entry with
    | some names, .file text => some ("/".intercalate names, text)
    | _, _ => none

/-! ## Programs -/

/-- Fails unless a file that may be executed is a script. -/
def checkScript (text : String) : Except SystemError Unit :=
  if Text.stringStartsWith "#!" text then .ok () else .error .notAProgram

/-- Fails unless a path leads to a program; `executable` are the files that may be executed. -/
def checkProgramPath (t : FileTree) (executable : List String) (path : String) :
    Except SystemError Unit := do
  let place ← t.resolve path
  match ← t.find path with
  | .file text =>
      if executable.any fun file => (t.resolve file).toOption == some place then checkScript text
      else .error .permissionDenied
  | _ => .error .permissionDenied

/-- Why a name is no program of the system; none of those is known to a tree.  The directories
that programs are looked up in are directories, so `.` and `..` are found there. -/
def unknownProgram (name : String) : SystemError :=
  if name == "." || name == ".." then .permissionDenied
  else if name.utf8ByteSize ≤ maxNameSize then .notFound
  else .nameTooLong

/-- Fails unless there is a program of that name or path. -/
def checkProgram (t : FileTree) (executable : List String) (program : String) :
    Except SystemError Unit :=
  if program.toList.contains '\x00' then .error .nulInArgument
  else if program.toList.contains '/' then t.checkProgramPath executable program
  else .error (unknownProgram program)

end FileTree

end ContractCalls.CommandLine
