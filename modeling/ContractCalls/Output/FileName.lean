/-
Portable file names and paths.

A path is a text with `/` between its components, read the way a file system
reads it: empty components and inner `.` components mean nothing.
-/
import ContractCalls.Text.Blank

namespace ContractCalls.FileName

open Text

/-- The characters a portable file name may have. -/
def isSafe (c : Char) : Bool := c.isAlphanum || c == '.' || c == '_' || c == '-'

/-- The safe characters that may not stand at either end. -/
def isEdge (c : Char) : Bool := c == '.' || c == '_' || c == '-'

/-- The text with every pair of colons replaced by two underscores. -/
def replaceColons : List Char → List Char
  | ':' :: ':' :: cs => '_' :: '_' :: replaceColons cs
  | c :: cs => c :: replaceColons cs
  | [] => []

/-- The text with every run of unsafe characters replaced by one underscore; `inRun` says that
the run before the text is replaced already. -/
def collapseUnsafe (inRun : Bool) : List Char → List Char
  | [] => []
  | c :: cs =>
      if isSafe c then c :: collapseUnsafe false cs
      else if inRun then collapseUnsafe true cs
      else '_' :: collapseUnsafe true cs

/-- A portable file name for a text. -/
def safe (text : String) : String :=
  match dropBoth isEdge (collapseUnsafe false (replaceColons text.toList)) with
  | [] => "unnamed"
  | cs => String.ofList cs

/-! ## Paths -/

/-- The path starts at the root. -/
def isAbsolute (path : String) : Bool := stringStartsWith "/" path

/-- A reversed path without the separators and `.` components at its end. -/
def dropNoise : List Char → List Char
  | '/' :: cs => dropNoise cs
  | '.' :: '/' :: cs => dropNoise cs
  | cs => cs

/-- The text of a path up to its last component, and that component. -/
def splitLast? (path : String) : Option (List Char × List Char) :=
  match dropNoise path.toList.reverse with
  | [] => none
  | cs => some ((cs.dropWhile (· != '/')).reverse, (cs.takeWhile (· != '/')).reverse)

/-- A last component that is a name, with the text before it. -/
def splitFile? (path : String) : Option (List Char × List Char) :=
  (splitLast? path).filter fun (_, last) => last != ['.'] && last != ['.', '.']

/-- The name of the file. -/
def fileName? (path : String) : Option String :=
  (splitFile? path).map fun (_, name) => String.ofList name

/-- A name cut at its last dot; a name whose only dot is its first character has no second part. -/
def splitName (name : List Char) : List Char × Option (List Char) :=
  match splitFirst? (· == '.') name.reverse with
  | some (_, []) => (name, none)
  | some (extension, stem) => (stem.reverse, some extension.reverse)
  | none => (name, none)

/-- The part of the file name behind its last dot. -/
def extension? (path : String) : Option String :=
  ((splitFile? path).bind fun (_, name) => (splitName name).2).map String.ofList

/-- The part of the file name in front of its last dot. -/
def stem? (path : String) : Option String :=
  (splitFile? path).map fun (_, name) => String.ofList (splitName name).1

/-- A path behind another one, or alone if it is absolute. -/
def join (base path : String) : String :=
  if isAbsolute path || base.isEmpty then path
  else if base.toList.getLast? == some '/' then base ++ path
  else base ++ "/" ++ path

/-- The directory that holds what a path names. -/
def parent? (path : String) : Option String :=
  (splitLast? path).map fun (before, _) =>
    match dropNoise before.reverse with
    | [] => if isAbsolute path then "/" else ""
    | cs => String.ofList cs.reverse

/-- The path without the extension it ends in. -/
def cutExtension (path : String) : String :=
  match extension? path with
  | some extension =>
      if path.endsWith extension then
        String.ofList (path.toList.take (path.length - extension.length))
      else path
  | none => path

/-- The path with the extension of its file name replaced or added.  The old extension goes
first, and where the rest is `..` and so names no file, nothing is added. -/
def withExtension (path extension : String) : String :=
  let path := cutExtension path
  match splitFile? path with
  | none => path
  | some (before, name) =>
      String.ofList (before ++ (splitName name).1) ++
        (if extension.isEmpty then "" else "." ++ extension)

end ContractCalls.FileName
