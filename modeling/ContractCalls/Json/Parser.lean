/-
Reading JSON text.

The reader accepts the JSON grammar and nothing else, refuses numbers outside
the range of doubles, and refuses arrays and objects nested deeper than a
given limit.  Failure carries no detail: a text either is a JSON value or is
not.
-/
import ContractCalls.Json.Basic
import ContractCalls.Text.Digits

namespace ContractCalls.Json

open Text Decimal

/-- The rest of an input after a parsed part. -/
abbrev Parsed (α : Type) := Option (α × List Char)

/-- The four blanks between tokens. -/
def isGap (c : Char) : Bool := c == ' ' || c == '\n' || c == '\t' || c == '\r'

/-- The input behind blanks. -/
def skipGaps (cs : List Char) : List Char := cs.dropWhile isGap

/-! ## Numbers -/

/-- The largest significand the reader keeps exactly. -/
def digitLimit : Nat := maxWord

/-- Digits added to a significand as long as it stays a 64-bit word: the significand, how many
digits went in, and the rest. -/
def growSignificand : (significand count : Nat) → List Char → Nat × Nat × List Char
  | significand, count, [] => (significand, count, [])
  | significand, count, c :: cs =>
      match digitValue? 10 c with
      | some d =>
          if significand * 10 + d ≤ digitLimit then
            growSignificand (significand * 10 + d) (count + 1) cs
          else (significand, count, c :: cs)
      | none => (significand, count, c :: cs)

/-- Skips digits: how many there were, and the rest. -/
def skipDigits : (count : Nat) → List Char → Nat × List Char
  | count, [] => (count, [])
  | count, c :: cs =>
      match digitValue? 10 c with
      | some _ => skipDigits (count + 1) cs
      | none => (count, c :: cs)

/-- The value of an exponent's digits, or none once it exceeds a signed 32-bit word. -/
def exponentDigits : (value : Option Nat) → List Char → Option Nat × List Char
  | value, [] => (value, [])
  | value, c :: cs =>
      match digitValue? 10 c with
      | some d =>
          let next := value.bind fun v =>
            if v * 10 + d < Nat.pow 2 31 then some (v * 10 + d) else none
          exponentDigits next cs
      | none => (value, c :: cs)

/-- A word clamped to the signed 32-bit range. -/
def clampExponent (e : Int) : Int := max (-2147483648) (min e 2147483647)

/-- The double `significand * 10^exponent` with a sign. -/
def double? (negative : Bool) (significand : Nat) (exponent : Int) (rest : List Char) :
    Parsed Json :=
  (Binary64.ofParts? negative significand exponent).map fun x => (.number (.double x), rest)

/-- The sign in front of an exponent. -/
def exponentSign : List Char → Bool × List Char
  | '+' :: cs => (false, cs)
  | '-' :: cs => (true, cs)
  | cs => (false, cs)

/-- The exponent part behind its mark, which ends the number. -/
def exponentPart (negative : Bool) (significand : Nat) (start : Int) (cs : List Char) :
    Parsed Json :=
  let (down, cs) := exponentSign cs
  let (skipped, _) := skipDigits 0 cs
  if skipped = 0 then none
  else
    match exponentDigits (some 0) cs with
    | (some value, rest) =>
        let step : Int := if down then -(value : Int) else value
        double? negative significand (clampExponent (start + step)) rest
    | (none, rest) =>
        if significand ≠ 0 ∧ !down then none
        else some (.number (.double (Binary64.zero negative)), rest)

/-- An exponent part if one follows, else the number as it stands. -/
def optionalExponent (negative : Bool) (significand : Nat) (start : Int) :
    List Char → Parsed Json
  | c :: cs =>
      if c = 'e' ∨ c = 'E' then exponentPart negative significand start cs
      else double? negative significand start (c :: cs)
  | [] => double? negative significand start []

/-- The digits behind the decimal point; those beyond the exact significand are dropped. -/
def fractionPart (negative : Bool) (significand : Nat) (start : Int) (cs : List Char) :
    Parsed Json :=
  let (significand, count, rest) := growSignificand significand 0 cs
  let (more, rest) := skipDigits 0 rest
  if count + more = 0 then none
  else optionalExponent negative significand (start - count) rest

/-- What follows the whole part of a number. -/
def numberTail (negative : Bool) (significand dropped : Nat) : List Char → Parsed Json
  | '.' :: cs => fractionPart negative significand dropped cs
  | cs =>
      let whole : Parsed Json :=
        if dropped ≠ 0 then double? negative significand dropped cs
        else if !negative then some (.number (.whole significand), cs)
        else if significand = 0 ∨ Nat.pow 2 63 < significand then double? true significand 0 cs
        else some (.number (.whole (-(significand : Int))), cs)
      match cs with
      | c :: rest =>
          if c = 'e' ∨ c = 'E' then exponentPart negative significand dropped rest else whole
      | [] => whole

/-- A number behind its sign: no leading zero, no sign but a minus. -/
def numberBody (negative : Bool) : List Char → Parsed Json
  | '0' :: cs =>
      match cs with
      | c :: _ => if (digitValue? 10 c).isSome then none else numberTail negative 0 0 cs
      | [] => numberTail negative 0 0 []
  | cs =>
      let (significand, count, rest) := growSignificand 0 0 cs
      if count = 0 then none
      else
        let (dropped, rest) := skipDigits 0 rest
        numberTail negative significand dropped rest

/-- A number. -/
def parseNumber : List Char → Parsed Json
  | '-' :: cs => numberBody true cs
  | cs => numberBody false cs

/-! ## Strings -/

/-- The code unit of four hexadecimal digits. -/
def unit? (a b c d : Char) : Option Nat := digitsFrom? 16 0 [a, b, c, d]

/-- The character of a code point that is not a surrogate. -/
def scalar? (n : Nat) : Option Char :=
  if n < 0xD800 ∨ (0xDFFF < n ∧ n < 0x110000) then some (Char.ofNat n) else none

/-- The character behind a backslash other than `u`. -/
def escaped? : Char → Option Char
  | '"' => some '"'
  | '\\' => some '\\'
  | '/' => some '/'
  | 'b' => some (Char.ofNat 8)
  | 'f' => some (Char.ofNat 12)
  | 'n' => some '\n'
  | 'r' => some '\r'
  | 't' => some '\t'
  | _ => none

/-- The characters of a string up to its closing quote; `done` holds those read, last first. -/
def stringBody (done : List Char) : List Char → Parsed String
  | [] => none
  | '"' :: cs => some (String.ofList done.reverse, cs)
  | '\\' :: 'u' :: a :: b :: c :: d :: cs =>
      match unit? a b c d with
      | none => none
      | some high =>
          if 0xD800 ≤ high ∧ high ≤ 0xDBFF then
            match cs with
            | '\\' :: 'u' :: e :: f :: g :: h :: rest =>
                match unit? e f g h with
                | none => none
                | some low =>
                    if 0xDC00 ≤ low ∧ low ≤ 0xDFFF then
                      stringBody
                        (Char.ofNat (0x10000 + (high - 0xD800) * 0x400 + (low - 0xDC00)) :: done)
                        rest
                    else none
            | _ => none
          else
            match scalar? high with
            | some ch => stringBody (ch :: done) cs
            | none => none
  | '\\' :: e :: cs =>
      match escaped? e with
      | some ch => stringBody (ch :: done) cs
      | none => none
  | c :: cs => if c.toNat < 0x20 ∨ c = '\\' then none else stringBody (c :: done) cs

/-! ## Values -/

/-- A value of the given keyword if the input starts with it. -/
def keyword (word : String) (value : Json) (cs : List Char) : Parsed Json :=
  (dropHead word.toList cs).map fun rest => (value, rest)
where
  dropHead : List Char → List Char → Option (List Char)
    | [], rest => some rest
    | w :: ws, c :: cs => if w = c then dropHead ws cs else none
    | _ :: _, [] => none

mutual

/-- A value, with `depth` levels of nesting left. -/
def value : (fuel depth : Nat) → List Char → Parsed Json
  | 0, _, _ => none
  | fuel + 1, depth, cs =>
      match skipGaps cs with
      | '"' :: rest => (stringBody [] rest).map fun (s, rest) => (.string s, rest)
      | '[' :: rest =>
          match depth with
          | 0 => none
          | depth + 1 =>
              match skipGaps rest with
              | ']' :: rest => some (.array [], rest)
              | rest => elements fuel depth [] rest
      | '\x7b' :: rest =>
          match depth with
          | 0 => none
          | depth + 1 =>
              match skipGaps rest with
              | '\x7d' :: rest => some (.object [], rest)
              | rest => members fuel depth [] rest
      | 'n' :: rest => keyword "ull" .null rest
      | 't' :: rest => keyword "rue" (.bool true) rest
      | 'f' :: rest => keyword "alse" (.bool false) rest
      | rest => parseNumber rest

/-- The items of an array from an item on; `done` holds those read, last first. -/
def elements : (fuel depth : Nat) → (done : List Json) → List Char → Parsed Json
  | 0, _, _, _ => none
  | fuel + 1, depth, done, cs =>
      match value fuel depth cs with
      | none => none
      | some (item, rest) =>
          match skipGaps rest with
          | ',' :: rest => elements fuel depth (item :: done) rest
          | ']' :: rest => some (.array (item :: done).reverse, rest)
          | _ => none

/-- The fields of an object from a key on. -/
def members : (fuel depth : Nat) → (done : List (String × Json)) → List Char → Parsed Json
  | 0, _, _, _ => none
  | fuel + 1, depth, done, cs =>
      match skipGaps cs with
      | '"' :: rest =>
          match stringBody [] rest with
          | none => none
          | some (key, rest) =>
              match skipGaps rest with
              | ':' :: rest =>
                  match value fuel depth rest with
                  | none => none
                  | some (item, rest) =>
                      match skipGaps rest with
                      | ',' :: rest => members fuel depth ((key, item) :: done) rest
                      | '\x7d' :: rest => some (ofFields ((key, item) :: done).reverse, rest)
                      | _ => none
              | _ => none
      | _ => none

end

/-- The value of a JSON text nested at most `depth` deep. -/
def parseWithin? (depth : Nat) (text : String) : Option Json :=
  let cs := text.toList
  match value (2 * cs.length + 2) depth cs with
  | some (v, rest) => if (skipGaps rest).isEmpty then some v else none
  | none => none

/-- The nesting allowed in files and in compiler output. -/
def nestingLimit : Nat := 127

/-- The value of a JSON text within the nesting limit. -/
def parse? (text : String) : Option Json := parseWithin? nestingLimit text

end ContractCalls.Json
