/-
Version directives: the comment near the top of a source that says which
compiler version it is written for.

A directive is a comment `@version SPEC` or `pragma version SPEC`, in any
case, on a line of its own.
-/
import ContractCalls.Text.Blank
import ContractCalls.Text.Lines

namespace ContractCalls.Vyper

open Text

namespace Version

/-- The lines in which a directive is looked for. -/
def headerLines : Nat := 50

/-- Two characters that differ in case only; the long s is a variant of `s`. -/
def sameLetter (lower c : Char) : Bool := c.toLower == lower || (lower == 's' && c == 'ſ')

/-- What follows a lower-case word in a text that starts with it, in any case. -/
def stripWord? : (word text : List Char) → Option (List Char)
  | [], text => some text
  | _ :: _, [] => none
  | w :: ws, c :: cs => if sameLetter w c then stripWord? ws cs else none

/-- What follows at least one blank and all blanks behind it. -/
def afterBlanks? : List Char → Option (List Char)
  | [] => none
  | c :: cs => if isBlank c then some (trimLeft cs) else none

/-- What follows the words of a directive and the blanks behind them. -/
def afterKeywords? (text : List Char) : Option (List Char) :=
  let version := (stripWord? "@version".toList text).or
    (((stripWord? "pragma".toList text).bind afterBlanks?).bind
      (stripWord? "version".toList))
  version.bind afterBlanks?

/-- The sign and blanks in front of the text of a comment, and the text. -/
def comment? (line : List Char) : Option (List Char × List Char) :=
  match line.takeWhile isBlank, line.dropWhile isBlank with
  | blanks, '#' :: rest => some (blanks ++ '#' :: rest.takeWhile isBlank, rest.dropWhile isBlank)
  | _, _ => none

/-- A directive on a line: what stands in front of it, and the version it asks for. -/
def directive? (line : List Char) : Option (List Char × List Char) := do
  let (lead, text) ← comment? line
  let spec := trimRight (← afterKeywords? text)
  if spec.isEmpty || spec.any (fun c => isBlank c || c == '#') then none
  else some (lead, spec)

/-- A version without the letter in front of it. -/
def withoutLetter : List Char → List Char
  | 'v' :: rest => rest
  | spec => spec

/-- The version that the first directive of a source asks for. -/
def detect? (source : String) : Option String := do
  let (_, spec) ← ((lines source.toList).take headerLines).findSome? directive?
  if (withoutLetter spec).isEmpty then none else some (String.ofList (withoutLetter spec))

/-- A directive behind the given characters. -/
def writeDirective (lead version : List Char) : List Char :=
  lead ++ "@version ".toList ++ version

/-- The lines with the first directive among `count` of them replaced, if there is one. -/
def replaceFirst? (version : List Char) : (count : Nat) → List (List Char) →
    Option (List (List Char))
  | 0, _ => none
  | _ + 1, [] => none
  | count + 1, line :: rest =>
      match directive? line with
      | some (lead, _) => some (writeDirective lead version :: rest)
      | none => (replaceFirst? version count rest).map (line :: ·)

/-- The source with its first directive asking for another version; a source without a directive
stays as it is. -/
def retarget (source version : String) : String :=
  match replaceFirst? version.toList headerLines (lines source.toList) with
  | some lines =>
      let text := "\n".intercalate (lines.map String.ofList)
      if source.toList.getLast? == some '\n' then text ++ "\n" else text
  | none => source

end Version

end ContractCalls.Vyper
