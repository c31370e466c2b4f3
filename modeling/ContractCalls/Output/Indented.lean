/-
Indented lines, with colours on request.
-/
namespace ContractCalls

/-- The role of a line, which decides its colour. -/
inductive Tone where
  | header
  | label
  | comment
  | call
  | terminator
deriving DecidableEq, Repr

namespace Tone

/-- The control sequence that starts a tone. -/
def start : Tone → List Char
  | .header => escape "[1m"
  | .label => escape "[36m"
  | .comment => escape "[32m"
  | .call => escape "[33m"
  | .terminator => escape "[35m"
where
  escape (code : String) : List Char := Char.ofNat 27 :: code.toList

/-- The control sequence that ends every tone. -/
def reset : List Char := Char.ofNat 27 :: "[0m".toList

/-- The text with the tone started again behind every reset inside it; `skip` characters of a
reset are still to be passed on. -/
def resume (start : List Char) : (skip : Nat) → List Char → List Char
  | _, [] => []
  | 1, c :: cs => c :: (start ++ resume start 0 cs)
  | skip + 2, c :: cs => c :: resume start (skip + 1) cs
  | 0, c :: cs =>
      if reset.isPrefixOf (c :: cs) then c :: resume start (reset.length - 1) cs
      else c :: resume start 0 cs

/-- A text in a tone. -/
def paint (tone : Tone) (text : String) : String :=
  String.ofList (tone.start ++ resume tone.start 0 text.toList ++ reset)

end Tone

/-- A text of indented lines under construction. -/
structure Indented where
  /-- The lines so far, each ended by a line feed. -/
  text : String
  level : Nat
  /-- The indentation of one level. -/
  unit : String
  colors : Bool

namespace Indented

/-- No lines. -/
def start (colors : Bool) : Indented := ⟨"", 0, "    ", colors⟩

def indent (w : Indented) : Indented := { w with level := w.level + 1 }

def dedent (w : Indented) : Indented := { w with level := w.level - 1 }

/-- The indentation of the current level. -/
def indentation (w : Indented) : String := String.join (List.replicate w.level w.unit)

/-- Adds a line. -/
def line (w : Indented) (text : String) : Indented :=
  { w with text := w.text ++ w.indentation ++ text ++ "\n" }

/-- Adds a line in a tone; the indentation has no colour. -/
def toned (w : Indented) (text : String) (tone : Tone) : Indented :=
  w.line (if w.colors then tone.paint text else text)

/-- Adds a comment. -/
def comment (w : Indented) (text : String) : Indented := w.toned ("// " ++ text) .comment

/-- Adds the header line of a block and indents what follows. -/
def openBlock (w : Indented) (header : String) : Indented :=
  (w.toned (header ++ " \x7b") .header).indent

/-- Ends the indentation of a block and adds its closing line. -/
def closeBlock (w : Indented) : Indented := w.dedent.line "\x7d"

/-- Adds a block: a header line, an indented content and a closing line. -/
def block (w : Indented) (header : String) (content : Indented → Indented) : Indented :=
  (content (w.openBlock header)).closeBlock

end Indented

end ContractCalls
