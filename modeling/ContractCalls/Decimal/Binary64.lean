/-
Finite double-precision numbers, exactly.

A number is a sign, a mantissa and a power of two.  Rounding goes to the
nearest number, a tie to the even mantissa; all arithmetic is on whole
numbers.  The reader multiplies or divides a 64-bit mantissa once by a
rounded power of ten, so its result may differ from the nearest number by the
error of that one step.
-/
namespace ContractCalls.Decimal

/-- The number `(-1)^negative * mantissa * 2^exponent`. -/
structure Binary64 where
  /-- The sign; zero has two. -/
  negative : Bool
  /-- Below `2^53`. -/
  mantissa : Nat
  /-- At least `-1074`; larger only with a mantissa of at least `2^52`. -/
  exponent : Int
deriving DecidableEq, Repr

namespace Binary64

/-- Zero with a sign. -/
def zero (negative : Bool) : Binary64 := ⟨negative, 0, -1074⟩

/-- `num / den` rounded to the nearest whole number, a tie to the even one. -/
def roundHalfEven (num den : Nat) : Nat :=
  let q := num / den
  let r := 2 * (num % den)
  if r < den then q
  else if den < r then q + 1
  else if q % 2 == 0 then q else q + 1

/-- `num / den / 2^e` as a quotient of whole numbers. -/
def scaled (num den : Nat) (e : Int) : Nat × Nat :=
  if 0 ≤ e then (num, den * Nat.pow 2 e.toNat) else (num * Nat.pow 2 (-e).toNat, den)

/-- The exponent at which `num / den` has a mantissa of 53 bits, or the least exponent. -/
def exponentFor (num den : Nat) : Int :=
  let guess : Int := (Nat.log2 num : Int) - (Nat.log2 den : Int) - 53
  let (n, d) := scaled num den guess
  max (if n / d < Nat.pow 2 53 then guess else guess + 1) (-1074)

/-- The number nearest to a positive quotient; none if that exceeds the range. -/
def ofQuotient? (num den : Nat) : Option (Nat × Int) :=
  if num = 0 then some (0, -1074)
  else
    let e := exponentFor num den
    let (n, d) := scaled num den e
    let m := roundHalfEven n d
    let (m, e) := if m = Nat.pow 2 53 then (Nat.pow 2 52, e + 1) else (m, e)
    if 971 < e then none else some (m, e)

/-- A mantissa and a power of two as a quotient. -/
def quotient (m : Nat) (e : Int) : Nat × Nat :=
  if 0 ≤ e then (m * Nat.pow 2 e.toNat, 1) else (m, Nat.pow 2 (-e).toNat)

/-- The product of two magnitudes, rounded. -/
def times? (a b : Nat × Int) : Option (Nat × Int) :=
  let (n, d) := quotient a.1 a.2
  let (n', d') := quotient b.1 b.2
  ofQuotient? (n * n') (d * d')

/-- The quotient of two magnitudes, rounded; the divisor is not zero. -/
def over? (a b : Nat × Int) : Option (Nat × Int) :=
  let (n, d) := quotient a.1 a.2
  let (n', d') := quotient b.1 b.2
  ofQuotient? (n * d') (d * n')

/-- A power of ten, rounded. -/
def powerOfTen? (n : Nat) : Option (Nat × Int) := ofQuotient? (Nat.pow 10 n) 1

/-- Divides by powers of ten up to `10^308` until the exponent is used up or nothing is left. -/
def shrink : (steps : Nat) → (m : Nat × Int) → (places : Nat) → Option (Nat × Int)
  | 0, _, _ => some (0, -1074)
  | steps + 1, m, places =>
      if places ≤ 308 then do over? m (← powerOfTen? places)
      else if m.1 = 0 then some m
      else do shrink steps (← over? m (← powerOfTen? 308)) (places - 308)

/-- The number written as a 64-bit mantissa times a power of ten; none outside the range. -/
def ofParts? (negative : Bool) (significand : Nat) (exponent : Int) : Option Binary64 := do
  let start ← ofQuotient? significand 1
  let (m, e) ←
    if 0 ≤ exponent then
      if exponent ≤ 308 then times? start (← powerOfTen? exponent.toNat)
      else if start.1 = 0 then some start
      else none
    else shrink ((-exponent).toNat / 308 + 2) start (-exponent).toNat
  return ⟨negative, m, e⟩

/-! ## The shortest digits that read back -/

/-- The interval of reals that round to a magnitude, over a common denominator: lower end, value,
upper end, denominator. -/
def interval (m : Nat) (e : Int) : Nat × Nat × Nat × Nat :=
  let narrow := m = Nat.pow 2 52 ∧ -1074 < e
  let (n, d) := quotient 1 (e - 2)
  (n * (4 * m - (if narrow then 1 else 2)), n * (4 * m), n * (4 * m + 2), d)

/-- Decimal order of a positive quotient: the `k` with `10^k ≤ num / den < 10^(k+1)`. -/
def orderOfTen (num den : Nat) : Int :=
  let up := (toString (num / den)).length
  if den ≤ num then (up : Int) - 1
  else
    let k := (toString (den / num)).length
    if num * Nat.pow 10 (k - 1) ≥ den then -((k : Int) - 1) else -(k : Int)

/-- A point `digits * 10^place` of the decimal grid lies in the interval. -/
def within (even : Bool) (lo hi den : Nat) (digits : Nat) (place : Int) : Bool :=
  let (n, d) := if 0 ≤ place then (digits * Nat.pow 10 place.toNat, 1)
    else (digits, Nat.pow 10 (-place).toNat)
  let point := n * den
  if even then lo * d ≤ point && point ≤ hi * d else lo * d < point && point < hi * d

/-- The nearest point of the grid with `count` digits that reads back, if there is one. -/
def pointOf? (m : Nat) (e : Int) (count : Nat) : Option (Nat × Int) :=
  let (lo, mid, hi, den) := interval m e
  let place := orderOfTen mid den - (count : Int) + 1
  let (n, d) := if 0 ≤ place then (mid, den * Nat.pow 10 place.toNat)
    else (mid * Nat.pow 10 (-place).toNat, den)
  let below := n / d
  let even := m % 2 == 0
  let fits := fun digits => within even lo hi den digits place
  let nearest := roundHalfEven n d
  let farther := if nearest = below then below + 1 else below
  if fits nearest then some (nearest, place)
  else if fits farther then some (farther, place)
  else none

/-- The first grid with a point that reads back, from `count` digits on. -/
def shortestFrom (m : Nat) (e : Int) : (tries count : Nat) → Nat × Int
  | 0, _ => (m, e)
  | tries + 1, count =>
      match pointOf? m e count with
      | some point => point
      | none => shortestFrom m e tries (count + 1)

/-- A digit string without its trailing zeros, with the power of ten moved accordingly. -/
def dropZeros : (tries : Nat) → Nat × Int → Nat × Int
  | 0, point => point
  | tries + 1, (digits, place) =>
      if digits ≠ 0 ∧ digits % 10 = 0 then dropZeros tries (digits / 10, place + 1)
      else (digits, place)

/-- The fewest decimal digits, with their power of ten, that read back as a positive number. -/
def shortest (x : Binary64) : Nat × Int :=
  dropZeros 17 (shortestFrom x.mantissa x.exponent 17 1)

/-- Where the text of a number changes from positional to scientific. -/
structure Layout where
  /-- The most digits in front of the point. -/
  widest : Int
  /-- The fewest leading zeros behind the point that call for an exponent. -/
  deepest : Int

/-- Numbers are written with a point up to sixteen digits before it and up to four zeros after
it, and with a signed exponent otherwise. -/
def layout : Layout := ⟨16, 5⟩

/-- The digits with a point behind the first, unless there is only one. -/
def pointed : List Char → List Char
  | [] => []
  | [d] => [d]
  | d :: rest => d :: '.' :: rest

/-- A whole number with its sign. -/
def signed (n : Int) : List Char :=
  (if n < 0 then '-' else '+') :: (toString n.natAbs).toList

/-- Text of a positive number given by its digits and their power of ten. -/
def writeDigits (digits : List Char) (place : Int) : List Char :=
  let order := (digits.length : Int) + place
  if 0 ≤ place ∧ order ≤ layout.widest then
    digits ++ List.replicate place.toNat '0' ++ ".0".toList
  else if 0 < order ∧ order ≤ layout.widest then
    digits.take order.toNat ++ '.' :: digits.drop order.toNat
  else if -layout.deepest < order ∧ order ≤ 0 then
    "0.".toList ++ List.replicate (-order).toNat '0' ++ digits
  else
    pointed digits ++ 'e' :: signed (order - 1)

/-- Text of a number: the fewest digits that read back. -/
def render (x : Binary64) : String :=
  let sign := if x.negative then "-" else ""
  if x.mantissa = 0 then sign ++ "0.0"
  else
    let (digits, place) := x.shortest
    sign ++ String.ofList (writeDigits (toString digits).toList place)

end Binary64

end ContractCalls.Decimal
