/-
Reading whole numbers from text.

Every reader here is strict: at least one digit, nothing else but the sign it
allows, and a value within its range.
-/
namespace ContractCalls.Text

/-- Value of a digit up to `f`, in either case. -/
def hexValue? (c : Char) : Option Nat :=
  let n := c.toNat
  if 48 ≤ n && n ≤ 57 then some (n - 48)
  else if 97 ≤ n && n ≤ 102 then some (n - 87)
  else if 65 ≤ n && n ≤ 70 then some (n - 55)
  else none

/-- Value of a digit of the given base, at most sixteen. -/
def digitValue? (base : Nat) (c : Char) : Option Nat :=
  (hexValue? c).filter (· < base)

/-- Value of a digit string, continuing from `value`. -/
def digitsFrom? (base : Nat) : (value : Nat) → List Char → Option Nat
  | value, [] => some value
  | value, c :: cs => (digitValue? base c).bind fun d => digitsFrom? base (value * base + d) cs

/-- Value of a non-empty digit string. -/
def digits? (base : Nat) : List Char → Option Nat
  | [] => none
  | cs => digitsFrom? base 0 cs

/-- A digit string that may start with one plus sign. -/
def magnitude? (base : Nat) : List Char → Option Nat
  | '+' :: cs => digits? base cs
  | cs => digits? base cs

/-- The largest 64-bit word. -/
def maxWord : Nat := Nat.pow 2 64 - 1

/-- A decimal 64-bit word, with an optional plus sign. -/
def word? (cs : List Char) : Option Nat :=
  (magnitude? 10 cs).filter (· ≤ maxWord)

/-- A decimal signed 64-bit integer, with an optional sign. -/
def signedWord? : List Char → Option Int
  | '-' :: cs => ((digits? 10 cs).filter (· ≤ Nat.pow 2 63)).map fun n => -(n : Int)
  | cs => ((magnitude? 10 cs).filter (· < Nat.pow 2 63)).map fun n => (n : Int)

/-- The bytes spelled by the hexadecimal digits of a text; other characters are skipped and a
digit left over at the end is a byte of its own. -/
def hexBytes (cs : List Char) : List UInt8 :=
  pair (cs.filterMap hexValue?)
where
  pair : List Nat → List UInt8
    | [] => []
    | [d] => [UInt8.ofNat d]
    | h :: l :: rest => UInt8.ofNat (h * 16 + l) :: pair rest

/-- Two lower-case hexadecimal digits of a byte. -/
def hexPair (b : UInt8) : List Char :=
  [Nat.digitChar (b.toNat / 16), Nat.digitChar (b.toNat % 16)]

end ContractCalls.Text
