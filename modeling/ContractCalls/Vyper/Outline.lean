/-
The functions of a source text, found by their indentation.

A function is a line that defines one and the lines below it that are blank or
indented deeper.  Signatures in an interface belong to other contracts and are
passed over.
-/
import ContractCalls.Function
import ContractCalls.Text.Lines
import ContractCalls.Vyper.CallText

namespace ContractCalls.Vyper

open Text

/-- A function found in a source text. -/
structure OutlinedFunction where
  name : String
  /-- The visibility that the decorators name. -/
  visibility : Option Visibility
  /-- The line of the definition, counted from one. -/
  firstLine : Nat
  /-- The last line that is not blank. -/
  lastLine : Nat
  /-- The lines below the definition. -/
  body : List (List Char)
deriving DecidableEq, Repr

namespace Outline

/-! ## Lines -/

/-- The columns between tab stops. -/
def tabWidth : Nat := 4

/-- The width of the blanks and tabs in front of a line, from a column on. -/
def indentFrom (column : Nat) : List Char → Nat
  | ' ' :: cs => indentFrom (column + 1) cs
  | '\t' :: cs => indentFrom (column + (tabWidth - column % tabWidth)) cs
  | _ => column

/-- The indentation of a line. -/
def indent (line : List Char) : Nat := indentFrom 0 line

def isBlankLine (line : List Char) : Bool := line.all isBlank

def isComment (line : List Char) : Bool := startsWith ['#'] (trim line)

/-- The line starts an interface. -/
def opensInterface (line : List Char) : Bool :=
  indent line == 0 && startsWith "interface ".toList (trim line)

def isDecorator (line : List Char) : Bool := startsWith ['@'] (trim line)

/-- The line belongs to the block below a line of the given indentation. -/
def isWithin (outer : Nat) (line : List Char) : Bool := isBlankLine line || outer < indent line

/-- The name of the function that a line defines. -/
def definedName? (line : List Char) : Option String := do
  let rest ← strip? "def".toList (line.dropWhile fun c => c == ' ' || c == '\t')
  if rest.head?.any isBlank then CallText.calledName? (trimLeft rest) else none

/-- The visibility that decorators name; `internal` wins. -/
def visibility? (decorators : List (List Char)) : Option Visibility :=
  if decorators.any (startsWith "@internal".toList) then some .internal
  else if decorators.any (startsWith "@external".toList) then some .external
  else none

/-! ## Blocks -/

/-- The lines of a block without the blank ones at its end. -/
def dropTrailingBlanks (lines : List (List Char)) : List (List Char) :=
  (lines.reverse.dropWhile isBlankLine).reverse

/-- The function defined on a line, with the lines below it. -/
def functionAt (line : Nat) (name : String) (decorators body : List (List Char)) :
    OutlinedFunction :=
  { name
    visibility := visibility? decorators
    firstLine := line
    lastLine := line + (dropTrailingBlanks body).length
    body }

theorem length_dropWhile_le {α : Type} (p : α → Bool) (xs : List α) :
    (xs.dropWhile p).length ≤ xs.length :=
  (List.dropWhile_sublist p).length_le

/-- The functions in the lines from a line number on; `decorators` stand just above. -/
def functionsFrom (number : Nat) (decorators : List (List Char)) :
    List (List Char) → List OutlinedFunction
  | [] => []
  | line :: rest =>
      if isBlankLine line || isComment line then functionsFrom (number + 1) decorators rest
      else if opensInterface line then
        have := length_dropWhile_le (isWithin 0) rest
        functionsFrom (number + 1 + (rest.takeWhile (isWithin 0)).length) []
          (rest.dropWhile (isWithin 0))
      else if isDecorator line then
        functionsFrom (number + 1) (decorators ++ [trim line]) rest
      else
        match definedName? line with
        | none => functionsFrom (number + 1) [] rest
        | some name =>
            have := length_dropWhile_le (isWithin (indent line)) rest
            let body := rest.takeWhile (isWithin (indent line))
            functionAt number name decorators body ::
              functionsFrom (number + 1 + body.length) []
                (rest.dropWhile (isWithin (indent line)))
termination_by lines => lines.length
decreasing_by all_goals simp only [List.length_cons]; omega

end Outline

/-- The functions of a source text. -/
def outline (source : String) : List OutlinedFunction :=
  Outline.functionsFrom 1 [] (lines source.toList)

end ContractCalls.Vyper
