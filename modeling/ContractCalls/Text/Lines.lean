/-
Byte offsets and lines of a text.

Offsets count the bytes of the UTF-8 encoding, since compilers report
positions that way; lines are numbered from 1.  A cut that would fall inside
a character fails instead of rounding.
-/
namespace ContractCalls.Text

/-- Number of bytes of the UTF-8 encoding. -/
def byteLength (cs : List Char) : Nat :=
  cs.foldl (fun n c => n + c.utf8Size) 0

/-- The text after its first `n` bytes, if that is a character boundary. -/
def dropBytes? : Nat → List Char → Option (List Char)
  | 0, cs => some cs
  | _ + 1, [] => none
  | n + 1, c :: cs =>
      if c.utf8Size ≤ n + 1 then dropBytes? (n + 1 - c.utf8Size) cs else none

/-- The first `n` bytes of the text, if that is a character boundary. -/
def takeBytes? : Nat → List Char → Option (List Char)
  | 0, _ => some []
  | _ + 1, [] => none
  | n + 1, c :: cs =>
      if c.utf8Size ≤ n + 1 then (takeBytes? (n + 1 - c.utf8Size) cs).map (c :: ·) else none

/-- The bytes from `start` up to `stop`, if both are character boundaries in order. -/
def slice? (text : List Char) (start stop : Nat) : Option (List Char) :=
  if stop < start then none
  else (dropBytes? start text).bind (takeBytes? (stop - start))

/-- Offsets just behind each line feed, counted from `offset` at the start of the text. -/
def newlineEnds (offset : Nat) : List Char → List Nat
  | [] => []
  | c :: cs =>
      let next := offset + c.utf8Size
      if c = '\n' then next :: newlineEnds next cs else newlineEnds next cs

/-- Offset of the first byte of a line; line 0 counts as line 1. -/
def lineStart? (text : List Char) (line : Nat) : Option Nat :=
  if line ≤ 1 then some 0 else (newlineEnds 0 text)[line - 2]?

/-- Offset of the first byte of a line, or the length of a text that has no such line. -/
def lineOffset (text : List Char) (line : Nat) : Nat :=
  (lineStart? text line).getD (byteLength text)

/-- The line that holds the byte at `offset`. -/
def lineOf (text : List Char) (offset : Nat) : Nat :=
  (newlineEnds 0 text).countP (· ≤ offset) + 1

/-- The next line number; line numbers are 32-bit words. -/
def nextLine (line : Nat) : Nat := (line + 1) % Nat.pow 2 32

/-- The lines of a text without their line ends; a carriage return just before a line feed
belongs to the line end. -/
def lines : List Char → List (List Char)
  | [] => []
  | '\r' :: '\n' :: cs => [] :: lines cs
  | c :: cs =>
      if c = '\n' then [] :: lines cs
      else match lines cs with
        | [] => [[c]]
        | line :: rest => (c :: line) :: rest

end ContractCalls.Text
