/-
# Number literals

A number literal is a digit string, decimal or hexadecimal, or decimal digits
with a fraction and a power of ten.  `Numeral` is this grammar, with the number
that each literal denotes: its digits as one whole number, times the power of
ten that is left when the point is moved behind the fraction.

Reading a literal finds what it denotes, and finds nothing if that is no whole
number, as long as the power is at least `-2 ^ 63` and below `2 ^ 32`.  Beyond,
only what is left of the power in 64 bits, and of that in 32 bits, counts.
-/
import ContractCalls.Constant
import ContractCalls.Proofs.Text.Blank
import ContractCalls.Proofs.Text.Digits
import ContractCalls.Proofs.Text.Lines

namespace ContractCalls

open Text

/-! ## The grammar of literals -/

/-- The sign of an exponent. -/
inductive ExponentSign where
  | none
  | plus
  | minus

namespace ExponentSign

def text : ExponentSign → List Char
  | .none => []
  | .plus => ['+']
  | .minus => ['-']

/-- The number with the sign. -/
def apply (n : Nat) : ExponentSign → Int
  | .minus => -(n : Int)
  | _ => n

end ExponentSign

/-- The magnitude of a number literal, as it is written. -/
inductive Numeral where
  | decimal (digits : List (Digit 10))
  /-- Digits behind `0x` or `0X`. -/
  | hexadecimal (isUpper : Bool) (digits : List (Digit 16))
  /-- Digits, behind a point those of a fraction, and behind `e` or `E` an exponent. -/
  | scientific (whole : List (Digit 10)) (fraction : Option (List (Digit 10))) (isUpper : Bool)
      (sign : ExponentSign) (exponent : List (Digit 10))

namespace Numeral

/-- The text of a point and the fraction behind it. -/
def fractionText : Option (List (Digit 10)) → List Char
  | some digits => '.' :: Digit.text digits
  | none => []

def text : Numeral → List Char
  | .decimal digits => Digit.text digits
  | .hexadecimal isUpper digits => '0' :: (if isUpper then 'X' else 'x') :: Digit.text digits
  | .scientific whole fraction isUpper sign exponent =>
      (Digit.text whole ++ fractionText fraction) ++
        (if isUpper then 'E' else 'e') :: (sign.text ++ Digit.text exponent)

/-- The digits as one whole number. -/
def significand : Numeral → Nat
  | .decimal digits => Digit.number digits
  | .hexadecimal _ digits => Digit.number digits
  | .scientific whole fraction _ _ _ => Digit.number (whole ++ fraction.getD [])

/-- The power of ten behind the last digit. -/
def power : Numeral → Int
  | .decimal _ | .hexadecimal _ _ => 0
  | .scientific _ fraction _ sign exponent =>
      sign.apply (Digit.number exponent) - (fraction.getD []).length

/-- The whole number that is denoted; there is none for a negative power. -/
def number? (n : Numeral) : Option Nat :=
  if n.power < 0 then none else some (n.significand * 10 ^ n.power.toNat)

/-- There are digits where some have to be, and the exponent is a signed 64-bit word. -/
def IsProper : Numeral → Prop
  | .decimal digits => digits ≠ []
  | .hexadecimal _ digits => digits ≠ []
  | .scientific whole fraction _ sign exponent =>
      whole ++ fraction.getD [] ≠ [] ∧ exponent ≠ [] ∧
        -2 ^ 63 ≤ sign.apply (Digit.number exponent) ∧ sign.apply (Digit.number exponent) < 2 ^ 63

end Numeral

/-- A number literal: a magnitude, behind a minus sign or not. -/
structure NumberLiteral where
  isNegative : Bool
  magnitude : Numeral

namespace NumberLiteral

/-- The text without underscores. -/
def text (l : NumberLiteral) : List Char :=
  if l.isNegative then '-' :: l.magnitude.text else l.magnitude.text

/-- The constant of a magnitude with the sign of the literal. -/
def constant (l : NumberLiteral) (n : Nat) : Constant :=
  if l.isNegative then .int (-(n : Int)) else .uint n

/-- The constant that is denoted. -/
def constant? (l : NumberLiteral) : Option Constant := l.magnitude.number?.map l.constant

end NumberLiteral

/-! ## Reading magnitudes -/

namespace Numeral

/-- A mantissa has digits and a point. -/
theorem notMem_mantissa {c : Char} (hdigit : digitValue? 10 c = none) (hpoint : c ≠ '.')
    (whole : List (Digit 10)) (fraction : Option (List (Digit 10))) :
    c ∉ Digit.text whole ++ fractionText fraction := by
  have hdigits := Digit.notMem_text (by decide : 10 ≤ 16) hdigit
  cases fraction <;> simp [fractionText, hdigits, hpoint]

/-- A literal with an exponent has the marks of numbers only. -/
theorem notMem_scientific {c : Char} (hdigit : digitValue? 10 c = none)
    (hmark : c ∉ ['.', 'e', 'E', '+', '-']) (whole : List (Digit 10))
    (fraction : Option (List (Digit 10))) (isUpper : Bool) (sign : ExponentSign)
    (exponent : List (Digit 10)) : c ∉ text (.scientific whole fraction isUpper sign exponent) := by
  have hdigits := Digit.notMem_text (by decide : 10 ≤ 16) hdigit
  simp only [List.mem_cons, List.not_mem_nil, or_false, not_or] at hmark
  have hmantissa := notMem_mantissa hdigit hmark.1 whole fraction
  rw [List.mem_append, not_or] at hmantissa
  cases isUpper <;> cases sign <;>
    simp [text, ExponentSign.text, hdigits, hmark, hmantissa.2]

theorem signedWord?_text {sign : ExponentSign} {exponent : List (Digit 10)} (hne : exponent ≠ [])
    (hlow : -2 ^ 63 ≤ sign.apply (Digit.number exponent))
    (hhigh : sign.apply (Digit.number exponent) < 2 ^ 63) :
    signedWord? (sign.text ++ Digit.text exponent) = some (sign.apply (Digit.number exponent)) := by
  have hdigits := Digit.digits?_text (by decide : 10 ≤ 16) hne
  have hpow : Nat.pow 2 63 = 9223372036854775808 := rfl
  -- Without a minus sign the reader takes the digits as a magnitude.
  have hpositive (cs : List Char) (hcs : '-' ∉ cs) (n : Nat) (hn : magnitude? 10 cs = some n)
      (hlt : (n : Int) < 2 ^ 63) : signedWord? cs = some (n : Int) := by
    unfold signedWord?
    split
    · exact absurd List.mem_cons_self hcs
    · rw [hn, Option.filter_some, if_pos (by rw [hpow, decide_eq_true_eq]; omega)]
      rfl
  have hminus : '-' ∉ Digit.text exponent := Digit.notMem_text (by decide) rfl exponent
  cases sign with
  | none => exact hpositive _ hminus _ (Digit.magnitude?_text (by decide) hne) hhigh
  | plus =>
      refine hpositive _ ?_ _ hdigits hhigh
      exact fun hmem => (List.mem_cons.1 hmem).elim (by decide) hminus
  | minus =>
      simp only [ExponentSign.apply] at hlow
      rw [ExponentSign.text, List.cons_append, List.nil_append, signedWord?, hdigits,
        Option.filter_some, if_pos (by rw [hpow, decide_eq_true_eq]; omega)]
      rfl

/-- Every digit is one byte. -/
theorem byteLength_text (ds : List (Digit 10)) : byteLength (Digit.text ds) = ds.length := by
  have hsize : ∀ value < 10, ∀ isUpper : Bool,
      (if isUpper then (Nat.digitChar value).toUpper else Nat.digitChar value).utf8Size = 1 := by
    decide
  induction ds with
  | nil => rfl
  | cons d ds ih =>
      rw [Digit.text_cons, byteLength_cons, ih, List.length_cons, Digit.char,
        hsize d.value d.value_lt d.isUpper, Nat.add_comm]

/-- The mantissa is cut at its point. -/
theorem splitFirst?_mantissa (whole : List (Digit 10)) (fraction : Option (List (Digit 10))) :
    (splitFirst? (· == '.') (Digit.text whole ++ fractionText fraction)).getD
        (Digit.text whole ++ fractionText fraction, []) =
      (Digit.text whole, Digit.text (fraction.getD [])) := by
  have hpoint : ∀ c ∈ Digit.text whole, (c == '.') = false := by
    intro c hc
    exact beq_false_of_ne fun heq =>
      Digit.notMem_text (by decide : 10 ≤ 16) rfl whole (heq ▸ hc : '.' ∈ Digit.text whole)
  cases fraction with
  | none =>
      rw [fractionText, List.append_nil, splitFirst?_eq_none hpoint]
      rfl
  | some digits =>
      rw [fractionText, splitFirst?_append hpoint rfl]
      rfl

/-- The reader by what it finds in its three parts. -/
theorem scientific?_eq {mantissa exponent whole fraction : List Char} {e : Int} {n : Nat}
    (hsplit : (splitFirst? (· == '.') mantissa).getD (mantissa, []) = (whole, fraction))
    (he : signedWord? exponent = some e) (hn : magnitude? 10 (whole ++ fraction) = some n) :
    Constant.scientific? mantissa exponent =
      if (e - byteLength fraction).bmod (Nat.pow 2 64) < 0 then none
      else some (n * Nat.pow 10
        (((e - byteLength fraction).bmod (Nat.pow 2 64)).toNat % Nat.pow 2 32)) := by
  simp only [Constant.scientific?, hsplit, he, hn, Option.bind_eq_bind, Option.bind_some]

/-- What is left of a power that is not negative is the same in 32 bits. -/
theorem toNat_bmod_mod {power : Int} (h : ¬ power.bmod (2 ^ 64) < 0) :
    (power.bmod (2 ^ 64)).toNat % 2 ^ 32 = (power % 2 ^ 32).toNat := by
  have hmod : power.bmod (2 ^ 64) % 2 ^ 32 = power % 2 ^ 32 := by
    rw [← Int.emod_emod_of_dvd (power.bmod (2 ^ 64)) (show (2 ^ 32 : Int) ∣ 2 ^ 64 by decide),
      ← Int.emod_emod_of_dvd power (show (2 ^ 32 : Int) ∣ 2 ^ 64 by decide)]
    exact congrArg (· % 2 ^ 32) Int.bmod_emod
  rw [← hmod, Int.toNat_emod (by omega) (by decide)]
  rfl

/-- A power of ten counts with what is left of it in 64 bits, and of that in 32 bits. -/
theorem scientific?_text {whole : List (Digit 10)} {fraction : Option (List (Digit 10))}
    {isUpper : Bool} {sign : ExponentSign} {exponent : List (Digit 10)} {n : Numeral}
    (hn : n = .scientific whole fraction isUpper sign exponent) (h : n.IsProper) :
    Constant.scientific? (Digit.text whole ++ fractionText fraction)
        (sign.text ++ Digit.text exponent) =
      if n.power.bmod (2 ^ 64) < 0 then none
      else some (n.significand * 10 ^ (n.power % 2 ^ 32).toNat) := by
  subst hn
  obtain ⟨hdigits, hexponent, hlow, hhigh⟩ := h
  have hmagnitude := Digit.magnitude?_text (by decide : 10 ≤ 16) hdigits
  rw [Digit.text_append] at hmagnitude
  rw [scientific?_eq (splitFirst?_mantissa whole fraction) (signedWord?_text hexponent hlow hhigh)
    hmagnitude, byteLength_text]
  split
  · next hnegative => exact (if_pos hnegative).symm
  · next hnegative =>
      have hpower := congrArg (fun k => some (Digit.number (whole ++ fraction.getD []) * 10 ^ k))
        (toNat_bmod_mod hnegative)
      exact hpower.trans (if_neg hnegative).symm

/-- Without the mark of hexadecimal digits a literal is read as a decimal one. -/
theorem magnitudeOf?_of_notMem {cs : List Char} (hlower : 'x' ∉ cs) (hupper : 'X' ∉ cs) :
    Constant.magnitudeOf? cs =
      match splitFirst? (fun c => c == 'e' || c == 'E') cs with
      | some (mantissa, exponent) => Constant.scientific? mantissa exponent
      | none => magnitude? 10 cs := by
  have hnone : (strip? ['0', 'x'] cs).or (strip? ['0', 'X'] cs) = none := by
    rw [strip?_eq_none (c := 'x') (by simp) hlower, strip?_eq_none (c := 'X') (by simp) hupper,
      Option.none_or]
  unfold Constant.magnitudeOf?
  split
  · next hsome =>
      rw [hnone] at hsome
      cases hsome
  · rfl

/-- A power that is zero is left as it is. -/
theorem ite_power_of_eq_zero {n : Numeral} (h : n.power = 0) :
    (if n.power.bmod (2 ^ 64) < 0 then none
      else some (n.significand * 10 ^ (n.power % 2 ^ 32).toNat)) = some n.significand := by
  rw [h, Int.zero_bmod, if_neg (by decide), Int.zero_emod, Int.toNat_zero, pow_zero, Nat.mul_one]

/-- The magnitude that is read of a literal. -/
theorem magnitudeOf?_text {n : Numeral} (h : n.IsProper) :
    Constant.magnitudeOf? n.text =
      if n.power.bmod (2 ^ 64) < 0 then none
      else some (n.significand * 10 ^ (n.power % 2 ^ 32).toNat) := by
  cases n with
  | decimal digits =>
      have hmem {c : Char} (hc : digitValue? 10 c = none) : c ∉ Digit.text digits :=
        Digit.notMem_text (by decide) hc digits
      have hplain : ∀ c ∈ Digit.text digits, (c == 'e' || c == 'E') = false := by
        intro c hc
        rw [Bool.or_eq_false_iff, beq_eq_false_iff_ne, beq_eq_false_iff_ne]
        exact ⟨fun heq => hmem rfl (heq ▸ hc), fun heq => hmem rfl (heq ▸ hc)⟩
      rw [ite_power_of_eq_zero rfl, text, magnitudeOf?_of_notMem (hmem rfl) (hmem rfl),
        splitFirst?_eq_none hplain]
      exact Digit.magnitude?_text (by decide) h
  | hexadecimal isUpper digits =>
      have hstrip : (strip? ['0', 'x'] (text (.hexadecimal isUpper digits))).or
          (strip? ['0', 'X'] (text (.hexadecimal isUpper digits))) = some (Digit.text digits) := by
        cases isUpper <;> rfl
      rw [ite_power_of_eq_zero rfl, Constant.magnitudeOf?, hstrip]
      exact Digit.magnitude?_text (by decide) h
  | scientific whole fraction isUpper sign exponent =>
      have hmantissa : ∀ c ∈ Digit.text whole ++ fractionText fraction,
          (c == 'e' || c == 'E') = false := by
        intro c hc
        rw [Bool.or_eq_false_iff, beq_eq_false_iff_ne, beq_eq_false_iff_ne]
        exact ⟨fun heq => notMem_mantissa rfl (by decide) whole fraction (heq ▸ hc),
          fun heq => notMem_mantissa rfl (by decide) whole fraction (heq ▸ hc)⟩
      have hmark : ((if isUpper then 'E' else 'e') == 'e' ||
          (if isUpper then 'E' else 'e') == 'E') = true := by
        cases isUpper <;> rfl
      have hlower : 'x' ∉ text (.scientific whole fraction isUpper sign exponent) :=
        notMem_scientific rfl (by decide) whole fraction isUpper sign exponent
      have hupper : 'X' ∉ text (.scientific whole fraction isUpper sign exponent) :=
        notMem_scientific rfl (by decide) whole fraction isUpper sign exponent
      rw [magnitudeOf?_of_notMem hlower hupper, text, splitFirst?_append hmantissa hmark]
      exact scientific?_text rfl h

/-- A magnitude does not start with a minus sign. -/
theorem head?_text_ne {n : Numeral} (h : n.IsProper) : n.text.head? ≠ some '-' := by
  intro hhead
  cases n with
  | decimal digits =>
      exact Digit.notMem_text (by decide : 10 ≤ 16) rfl digits (List.mem_of_head? hhead)
  | hexadecimal isUpper digits => cases hhead
  | scientific whole fraction isUpper sign exponent =>
      have hne : Digit.text whole ++ fractionText fraction ≠ [] := by
        intro hnil
        obtain ⟨hwhole, hfraction⟩ := List.append_eq_nil_iff.1 hnil
        cases fraction with
        | none => exact h.1 (by simpa using hwhole)
        | some digits => cases hfraction
      rw [text, List.head?_append_of_ne_nil _ hne] at hhead
      exact notMem_mantissa rfl (by decide) whole fraction (List.mem_of_head? hhead)

end Numeral

/-! ## Reading literals -/

/-- Underscores count for nothing. -/
theorem parseNumber?_eq {s : String} {l : NumberLiteral} (hl : l.magnitude.IsProper)
    (hs : s.toList.filter (· != '_') = l.text) :
    Constant.parseNumber? s = (Constant.magnitudeOf? l.magnitude.text).map l.constant := by
  unfold Constant.parseNumber? NumberLiteral.constant
  rw [hs, NumberLiteral.text]
  cases l.isNegative with
  | true =>
      cases hn : Constant.magnitudeOf? l.magnitude.text <;> simp [hn]
  | false =>
      rw [if_neg Bool.false_ne_true]
      split
      · next heq => exact absurd (congrArg List.head? heq) (Numeral.head?_text_ne hl)
      · rfl

/-- The constant that is read of a literal. -/
theorem parseNumber?_text {s : String} {l : NumberLiteral} (hl : l.magnitude.IsProper)
    (hs : s.toList.filter (· != '_') = l.text) :
    Constant.parseNumber? s =
      if l.magnitude.power.bmod (2 ^ 64) < 0 then none
      else some (l.constant
        (l.magnitude.significand * 10 ^ (l.magnitude.power % 2 ^ 32).toNat)) := by
  rw [parseNumber?_eq hl hs, Numeral.magnitudeOf?_text hl]
  split <;> rfl

/-- A power that fits is exact. -/
theorem NumberLiteral.constant?_of_fits {l : NumberLiteral} (hlow : -2 ^ 63 ≤ l.magnitude.power)
    (hhigh : l.magnitude.power < 2 ^ 32) :
    (if l.magnitude.power.bmod (2 ^ 64) < 0 then none
      else some (l.constant (l.magnitude.significand * 10 ^ (l.magnitude.power % 2 ^ 32).toNat))) =
      l.constant? := by
  have hword : l.magnitude.power.bmod (2 ^ 64) = l.magnitude.power :=
    Int.bmod_eq_of_le (by omega) (by omega)
  rw [hword, NumberLiteral.constant?, Numeral.number?]
  split
  · rfl
  · next hpower => rw [Int.emod_eq_of_lt (by omega) hhigh, Option.map_some]

/-- What is printed of a number, behind a minus sign or not, is read as that number. -/
theorem parseNumber?_printed {s : String} (isNegative : Bool) (n : Nat)
    (hs : s.toList = if isNegative then '-' :: (toString n).toList else (toString n).toList) :
    Constant.parseNumber? s = some (if isNegative then .int (-(n : Int)) else .uint n) := by
  obtain ⟨ds, hds, htext, rfl⟩ := exists_digits_toString n
  have hproper : (Numeral.decimal ds).IsProper := hds
  have hplain : '_' ∉ Digit.text ds := Digit.notMem_text (by decide) rfl ds
  have hliteral : s.toList = NumberLiteral.text ⟨isNegative, .decimal ds⟩ := by
    rw [hs, htext]
    rfl
  have hclean : s.toList.filter (· != '_') = NumberLiteral.text ⟨isNegative, .decimal ds⟩ := by
    rw [← hliteral, List.filter_eq_self]
    intro c hc
    rw [bne_iff_ne]
    rintro rfl
    rw [hs, htext] at hc
    cases isNegative <;> simp [hplain] at hc
  rw [parseNumber?_eq (l := ⟨isNegative, .decimal ds⟩) hproper hclean,
    Numeral.magnitudeOf?_text hproper, Numeral.ite_power_of_eq_zero rfl]
  rfl

namespace Constant

/-- Reading literals.  With underscores anywhere, a literal is read as the constant it denotes, or
as none if it denotes no whole number, when its power is at least `-2 ^ 63` and below `2 ^ 32`.
Beyond, the power wraps around to 64 bits and only its low 32 bits count.  Printed whole numbers
are read back. -/
theorem parseNumber?_denotes (l : NumberLiteral) (s : String) (n : Nat) (z : Int) :
    (l.magnitude.IsProper → s.toList.filter (· != '_') = l.text →
      (-2 ^ 63 ≤ l.magnitude.power → l.magnitude.power < 2 ^ 32 →
        parseNumber? s = l.constant?) ∧
      (l.magnitude.power < -2 ^ 63 ∨ 2 ^ 32 ≤ l.magnitude.power →
        parseNumber? s =
          if l.magnitude.power.bmod (2 ^ 64) < 0 then none
          else some (l.constant
            (l.magnitude.significand * 10 ^ (l.magnitude.power % 2 ^ 32).toNat)))) ∧
    parseNumber? (render (.uint n)) = some (.uint n) ∧
    (z < 0 → parseNumber? (render (.int z)) = some (.int z)) := by
  refine ⟨fun hl hs => ⟨fun hlow hhigh => ?_, fun _ => parseNumber?_text hl hs⟩, ?_, fun hz => ?_⟩
  · rw [parseNumber?_text hl hs, NumberLiteral.constant?_of_fits hlow hhigh]
  · exact parseNumber?_printed false n rfl
  · obtain ⟨k, rfl⟩ := Int.eq_negSucc_of_lt_zero hz
    refine parseNumber?_printed true (k + 1) ?_
    show ("-" ++ (k + 1).repr).toList = '-' :: (k + 1).repr.toList
    rw [String.toList_append]
    rfl

/-- The literal `-12.5E+3`. -/
def signedLiteral : NumberLiteral :=
  ⟨true, .scientific [⟨1, false, by decide⟩, ⟨2, false, by decide⟩]
    (some [⟨5, false, by decide⟩]) true .plus [⟨3, false, by decide⟩]⟩

/-- The literal `1e4294967296`. -/
def largeLiteral : NumberLiteral :=
  ⟨false, .scientific [⟨1, false, by decide⟩] none false .none
    ([4, 2, 9, 4, 9, 6, 7, 2, 9, 6].map fun d : Fin 10 => ⟨d, false, d.isLt⟩)⟩

theorem power_largeLiteral : largeLiteral.magnitude.power = 2 ^ 32 := by decide +kernel

theorem isProper_largeLiteral : largeLiteral.magnitude.IsProper :=
  ⟨by decide, by decide, by decide +kernel, by decide +kernel⟩

theorem parseNumber?_denotes_signed : signedLiteral.magnitude.IsProper ∧
    "-1_2.5E+3_".toList.filter (· != '_') = signedLiteral.text ∧
    parseNumber? "-1_2.5E+3_" = some (.int (-12500)) ∧
    parseNumber? "1e4294967296" = some (.uint 1) ∧
    (-7 : Int) < 0 ∧ parseNumber? (render (.int (-7))) = some (.int (-7)) := by
  obtain ⟨hliteral, -, hprinted⟩ := parseNumber?_denotes signedLiteral "-1_2.5E+3_" 0 (-7)
  have hlarge := (parseNumber?_denotes largeLiteral "1e4294967296" 0 (-7)).1
  have hproper : signedLiteral.magnitude.IsProper :=
    ⟨by decide, by decide, by decide +kernel, by decide +kernel⟩
  have htext : "-1_2.5E+3_".toList.filter (· != '_') = signedLiteral.text := by decide +kernel
  refine ⟨hproper, htext, ?_, ?_, by decide, hprinted (by decide)⟩
  · rw [(hliteral hproper htext).1 (by decide +kernel) (by decide +kernel)]
    decide +kernel
  · rw [(hlarge isProper_largeLiteral (by decide +kernel)).2
      (.inr power_largeLiteral.ge), power_largeLiteral]
    decide +kernel

/-- The literal `1e4294967296` is read as one. -/
theorem largeLiteral_misread : largeLiteral.magnitude.IsProper ∧
    "1e4294967296".toList.filter (· != '_') = largeLiteral.text ∧
    parseNumber? "1e4294967296" = some (.uint 1) ∧
    largeLiteral.constant? ≠ some (.uint 1) := by
  have htext : "1e4294967296".toList.filter (· != '_') = largeLiteral.text := by decide +kernel
  refine ⟨isProper_largeLiteral, htext, ?_, ?_⟩
  · rw [parseNumber?_text isProper_largeLiteral htext, power_largeLiteral]
    decide +kernel
  · have hone : largeLiteral.magnitude.significand = 1 := by decide +kernel
    have hpower : largeLiteral.magnitude.power.toNat ≠ 0 := by
      rw [power_largeLiteral]
      decide
    have hlt := Nat.one_lt_pow hpower (show 1 < 10 by decide)
    rw [NumberLiteral.constant?, Numeral.number?, if_neg (by rw [power_largeLiteral]; decide), hone,
      Nat.one_mul, Option.map_some]
    -- The power has too many digits to be evaluated.
    generalize 10 ^ largeLiteral.magnitude.power.toNat = n at hlt
    intro heq
    cases heq
    exact absurd hlt (by decide)

end Constant

end ContractCalls
