/-
Blank characters and the trimming of texts.

A text is handled as its list of characters.  Blank means the Unicode
property White_Space; every trimming of the library goes through the one
predicate `isBlank`.
-/
namespace ContractCalls.Text

/-- The characters with the Unicode property White_Space. -/
def isBlank (c : Char) : Bool :=
  let n := c.toNat
  (9 ≤ n && n ≤ 13) || n == 0x20 || n == 0x85 || n == 0xA0 || n == 0x1680 ||
    (0x2000 ≤ n && n ≤ 0x200A) || n == 0x2028 || n == 0x2029 || n == 0x202F ||
    n == 0x205F || n == 0x3000

/-- The text without its leading characters that satisfy `p`. -/
def dropLeft (p : Char → Bool) (cs : List Char) : List Char :=
  cs.dropWhile p

/-- The text without its trailing characters that satisfy `p`. -/
def dropRight (p : Char → Bool) (cs : List Char) : List Char :=
  (cs.reverse.dropWhile p).reverse

/-- The text without the characters at either end that satisfy `p`. -/
def dropBoth (p : Char → Bool) (cs : List Char) : List Char :=
  dropRight p (dropLeft p cs)

/-- The text without leading blanks. -/
def trimLeft (cs : List Char) : List Char := dropLeft isBlank cs

/-- The text without trailing blanks. -/
def trimRight (cs : List Char) : List Char := dropRight isBlank cs

/-- The text without blanks at either end. -/
def trim (cs : List Char) : List Char := dropBoth isBlank cs

/-- What follows `head` in a text that starts with it. -/
def strip? : (head text : List Char) → Option (List Char)
  | [], text => some text
  | _ :: _, [] => none
  | h :: hs, c :: cs => if h = c then strip? hs cs else none

/-- What precedes `tail` in a text that ends with it. -/
def stripEnd? (tail text : List Char) : Option (List Char) :=
  (strip? tail.reverse text.reverse).map List.reverse

/-- The text starts with `head`. -/
def startsWith (head text : List Char) : Bool := (strip? head text).isSome

/-- A string without blanks at either end. -/
def trimString (s : String) : String := String.ofList (trim s.toList)

/-- A string starts with the given characters. -/
def stringStartsWith (head s : String) : Bool := startsWith head.toList s.toList

/-- The text cut at every occurrence of `sep`; always at least one piece. -/
def splitAtChar (sep : Char) : List Char → List (List Char)
  | [] => [[]]
  | c :: cs =>
      if c = sep then [] :: splitAtChar sep cs
      else match splitAtChar sep cs with
        | [] => [[c]]
        | piece :: rest => (c :: piece) :: rest

/-- The text cut at the first character that satisfies `p`, which is dropped. -/
def splitFirst? (p : Char → Bool) : List Char → Option (List Char × List Char)
  | [] => none
  | c :: cs =>
      if p c then some ([], cs)
      else (splitFirst? p cs).map fun (before, after) => (c :: before, after)

end ContractCalls.Text
