/-
Calls recognised in source text.

A call is a name, blanks and an opening parenthesis.  A name starts where a
word starts: the character in front of it is no word character.  No two
occurrences of one pattern overlap, so every occurrence counts.
-/
import ContractCalls.Text.Blank
import ContractCalls.Text.Word

namespace ContractCalls.Vyper

open Text

namespace CallText

/-- The first character of a name. -/
def isNameStart (c : Char) : Bool := c.isAlpha || c == '_'

/-- A later character of a name. -/
def isNamePart (c : Char) : Bool := c.isAlphanum || c == '_'

/-- A name at the start of a text, as long as it goes, and what follows. -/
def name? : List Char → Option (String × List Char)
  | [] => none
  | c :: cs =>
      if isNameStart c then
        some (String.ofList (c :: cs.takeWhile isNamePart), cs.dropWhile isNamePart)
      else none

/-- The text goes on with blanks and an opening parenthesis. -/
def opensCall (cs : List Char) : Bool := startsWith ['('] (trimLeft cs)

/-- A name at the start of a text that is called there. -/
def calledName? (cs : List Char) : Option String := do
  let (name, rest) ← name? cs
  if opensCall rest then some name else none

/-- A word can start behind the given character. -/
def canStartWord (before : Option Char) : Bool :=
  match before with
  | some c => !isWord c
  | none => true

/-- What `found` recognises at each position of a text, given the character in front of it and the
rest of the text. -/
def occurrences {α : Type} (found : Option Char → List Char → Option α) :
    (before : Option Char) → List Char → List α
  | _, [] => []
  | before, c :: cs => (found before (c :: cs)).toList ++ occurrences found (some c) cs

/-! ## The three kinds of calls -/

/-- A call of a function of the module itself: its name. -/
def ownCall? (before : Option Char) (cs : List Char) : Option String :=
  if canStartWord before then (strip? "self.".toList cs).bind calledName? else none

/-- A call on an object: the object and the function. -/
def memberCall? (before : Option Char) (cs : List Char) : Option (String × String) := do
  if !canStartWord before then none
  let (object, rest) ← name? cs
  let name ← (strip? ['.'] rest).bind calledName?
  return (object, name)

/-- A call of a name, with whether it is the name of a member. -/
def namedCall? (before : Option Char) (cs : List Char) : Option (String × Bool) := do
  if !canStartWord before then none
  let name ← calledName? cs
  return (name, before == some '.')

/-- The words that precede a parenthesis without being called. -/
def keywords : List String :=
  ["def", "self", "if", "elif", "while", "for", "in", "not", "and", "or", "assert", "return",
    "raise", "log", "extcall", "staticcall"]

/-- The functions of the module that a text calls. -/
def ownCalls (text : List Char) : List String := occurrences ownCall? none text

/-- The functions a text calls on objects other than the module itself. -/
def memberCalls (text : List Char) : List (String × String) :=
  (occurrences memberCall? none text).filter (·.1 != "self")

/-- The names a text calls that are neither members nor keywords. -/
def bareCalls (text : List Char) : List String :=
  ((occurrences namedCall? none text).filter fun (name, isMember) =>
    !isMember && !keywords.contains name).map Prod.fst

end CallText

end ContractCalls.Vyper
