/-
Positions in source files and the texts they point into.
-/
import ContractCalls.Table
import ContractCalls.Text.Blank
import ContractCalls.Text.Digits
import ContractCalls.Text.Lines

namespace ContractCalls

open Text

/-- A byte range of a file, with its first and last line when the compiler gave them. -/
structure Span where
  file : String
  start : Nat
  length : Nat
  lines : Option (Nat × Nat)
deriving DecidableEq, Repr

namespace Span

/-- A byte range without recorded lines. -/
def bytes (file : String) (start length : Nat) : Span := ⟨file, start, length, none⟩

/-- Offset behind the range, at most the largest word. -/
def stop (s : Span) : Nat := min (s.start + s.length) maxWord

/-- The colon-separated parts of a `start:length:file` attribute. -/
def attributeParts (src : String) : List (List Char) := splitAtChar ':' src.toList

/-- The file index of a `start:length:file` attribute. -/
def fileIndex? (src : String) : Option Nat := (attributeParts src)[2]?.bind word?

/-- Reads a `start:length:file` attribute; an unknown file index means `default`. -/
def ofAttribute? (src : String) (files : List String) (default : String) : Option Span := do
  let parts := attributeParts src
  let start ← parts[0]?.bind word?
  let length ← parts[1]?.bind word?
  let file := ((fileIndex? src).bind fun index => files[index]?).getD default
  return .bytes file start length

end Span

/-- Source texts by file name. -/
structure SourceFiles where
  texts : Table String String
deriving Repr

namespace SourceFiles

/-- No files. -/
def empty : SourceFiles := ⟨.empty⟩

instance : Inhabited SourceFiles := ⟨empty⟩

/-- Sets the text of a file. -/
def insert (s : SourceFiles) (file text : String) : SourceFiles := ⟨s.texts.insert file text⟩

/-- The text of a file. -/
def get? (s : SourceFiles) (file : String) : Option String := s.texts.get? file

/-- The file names in order of insertion. -/
def files (s : SourceFiles) : List String := s.texts.keys

/-- The text of whole lines, without the line feeds at its end. -/
def lineSnippet? (text : List Char) (first last : Nat) : Option (List Char) := do
  let start ← lineStart? text first
  let stop := (lineStart? text (nextLine last)).getD (byteLength text)
  return dropRight (· == '\n') (← slice? text start stop)

/-- The text a span delimits: its bytes, or its recorded lines where the bytes are empty or do
not fit the text. -/
def snippet? (s : SourceFiles) (span : Span) : Option String := do
  let text := (← s.get? span.file).toList
  match (slice? text span.start span.stop).filter fun _ => 0 < span.length with
  | some found => return String.ofList found
  | none =>
      let (first, last) ← span.lines
      return String.ofList (← lineSnippet? text first last)

/-- First and last line of a span: the recorded ones, or those of its first and last byte. -/
def lineRange? (s : SourceFiles) (span : Span) : Option (Nat × Nat) :=
  match span.lines with
  | some range => some range
  | none => do
      let text := (← s.get? span.file).toList
      if byteLength text < span.stop then none
      else return (lineOf text span.start, lineOf text (max (span.stop - 1) span.start))

end SourceFiles

end ContractCalls
