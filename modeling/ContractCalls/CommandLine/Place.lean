/-
Places in a file tree, and how paths are read as ways to them.

A path is a list of components.  The walk along it starts at the root or at
the working directory, and every component leads one place further.
-/
import ContractCalls.CommandLine.Host
import ContractCalls.Text.Blank

namespace ContractCalls.CommandLine

open Text

/-- What a place is counted from: the root, or some levels above the working directory. -/
inductive Origin where
  | root
  | working (levelsUp : Nat)
deriving DecidableEq, Repr

/-- A place in a file tree: the names that lead to it from its origin. -/
structure Place where
  origin : Origin
  names : List String
deriving DecidableEq, Repr

namespace Place

/-- The working directory. -/
def here : Place := ⟨.working 0, []⟩

/-- The root. -/
def root : Place := ⟨.root, []⟩

/-- The place that holds a place; the root holds itself. -/
def up : Place → Place
  | ⟨.root, []⟩ => root
  | ⟨.working levels, []⟩ => ⟨.working (levels + 1), []⟩
  | ⟨origin, names⟩ => ⟨origin, names.dropLast⟩

/-- The place one component further on. -/
def enter (place : Place) : (component : String) → Place
  | "." => place
  | ".." => place.up
  | name => ⟨place.origin, place.names ++ [name]⟩

/-- The names of a place below the working directory. -/
def below? : Place → Option (List String)
  | ⟨.working 0, names⟩ => some names
  | _ => none

end Place

/-! ## Paths as ways -/

/-- The components of a path. -/
def components (path : String) : List String :=
  ((splitAtChar '/' path.toList).filter (!·.isEmpty)).map String.ofList

/-- The place where the walk along a path starts. -/
def startOf (path : String) : Place :=
  if stringStartsWith "/" path then .root else .here

/-- The path ends in a separator, so it can only name a directory. -/
def endsInSeparator (path : String) : Bool := path.toList.getLast? == some '/'

/-- The number of bytes that a name may have. -/
def maxNameSize : Nat := 255

/-- The number of bytes that a path may have. -/
def maxPathSize : Nat := 4095

/-- Fails on a name that is too long to be looked up. -/
def checkName (name : String) : Except SystemError Unit :=
  if name.utf8ByteSize ≤ maxNameSize then .ok () else .error .nameTooLong

/-- Fails on a text that is no path at all. -/
def checkPath (path : String) : Except SystemError Unit :=
  if path.toList.contains '\x00' then .error .nulInPath
  else if path.isEmpty then .error .notFound
  else if path.utf8ByteSize ≤ maxPathSize then .ok ()
  else .error .nameTooLong

end ContractCalls.CommandLine
