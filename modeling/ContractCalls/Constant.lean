/-
Literal constants and the reading of number literals.
-/
import ContractCalls.Text.Blank
import ContractCalls.Text.Digits
import ContractCalls.Text.Lines

namespace ContractCalls

open Text

/-- The value of a literal. -/
inductive Constant where
  | bool (value : Bool)
  | uint (value : Nat)
  | int (value : Int)
  | address (text : String)
  | string (text : String)
  | bytes (value : List UInt8)
deriving DecidableEq, Repr

namespace Constant

/-- Value of a mantissa with optional fraction digits, times a power of ten.  The power is a signed
64-bit word and wraps around like one: none if that is negative, and else its low 32 bits count. -/
def scientific? (mantissa exponent : List Char) : Option Nat := do
  let (whole, fraction) := (splitFirst? (· == '.') mantissa).getD (mantissa, [])
  let power := ((← signedWord? exponent) - (byteLength fraction : Int)).bmod (Nat.pow 2 64)
  if power < 0 then none
  else
    let base ← magnitude? 10 (whole ++ fraction)
    some (base * Nat.pow 10 (power.toNat % Nat.pow 2 32))

/-- The magnitude of a number literal without its sign: hexadecimal, scientific or decimal. -/
def magnitudeOf? (digits : List Char) : Option Nat :=
  match (strip? ['0', 'x'] digits).or (strip? ['0', 'X'] digits) with
  | some hex => magnitude? 16 hex
  | none =>
      match splitFirst? (fun c => c == 'e' || c == 'E') digits with
      | some (mantissa, exponent) => scientific? mantissa exponent
      | none => magnitude? 10 digits

/-- Reads a number literal as written in source; underscores count for nothing. -/
def parseNumber? (literal : String) : Option Constant :=
  match literal.toList.filter (· != '_') with
  | '-' :: digits => (magnitudeOf? digits).map fun n => .int (-(n : Int))
  | digits => (magnitudeOf? digits).map .uint

/-- The value as a 64-bit word, if it is one. -/
def asWord? : Constant → Option Nat
  | .uint n => if n ≤ maxWord then some n else none
  | .int n => if 0 ≤ n ∧ n ≤ maxWord then some n.toNat else none
  | .bool b => some (if b then 1 else 0)
  | _ => none

/-- Text of a constant. -/
def render : Constant → String
  | .bool b => if b then "true" else "false"
  | .uint n => toString n
  | .int n => toString n
  | .address text => text
  | .string text => "\"" ++ text ++ "\""
  | .bytes value => "0x" ++ String.ofList (value.flatMap hexPair)

end Constant

end ContractCalls
