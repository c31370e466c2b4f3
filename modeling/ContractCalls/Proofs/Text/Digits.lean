/-
# Digits

A digit string is a list of digits, each with its value and its case, and
denotes a number by the values of its places.  The readers of whole numbers
find that number, so they read back what is printed of one.
-/
import ContractCalls.Text.Digits
import Mathlib.Data.Nat.Digits.Defs

namespace ContractCalls.Text

/-- A digit of a base, in one of its two cases. -/
structure Digit (base : Nat) where
  value : Nat
  isUpper : Bool
  value_lt : value < base
deriving DecidableEq

namespace Digit

variable {base : Nat}

/-- The character of a digit. -/
def char (d : Digit base) : Char :=
  if d.isUpper then (Nat.digitChar d.value).toUpper else Nat.digitChar d.value

/-- The text of a digit string. -/
def text (ds : List (Digit base)) : List Char := ds.map char

/-- The number a digit string denotes, the first digit being the most significant. -/
def number (ds : List (Digit base)) : Nat := Nat.ofDigits base (ds.map value).reverse

@[simp] theorem text_nil : text ([] : List (Digit base)) = [] := rfl

@[simp] theorem text_cons (d : Digit base) (ds : List (Digit base)) :
    text (d :: ds) = d.char :: text ds := rfl

@[simp] theorem text_append (ds es : List (Digit base)) : text (ds ++ es) = text ds ++ text es :=
  List.map_append

@[simp] theorem length_text (ds : List (Digit base)) : (text ds).length = ds.length :=
  List.length_map _

@[simp] theorem text_eq_nil {ds : List (Digit base)} : text ds = [] ↔ ds = [] := List.map_eq_nil_iff

@[simp] theorem number_nil : number ([] : List (Digit base)) = 0 := rfl

theorem number_cons (d : Digit base) (ds : List (Digit base)) :
    number (d :: ds) = d.value * base ^ ds.length + number ds := by
  simp [number, Nat.ofDigits_append, Nat.add_comm, Nat.mul_comm]

theorem number_concat (ds : List (Digit base)) (d : Digit base) :
    number (ds ++ [d]) = number ds * base + d.value := by
  simp [number, Nat.ofDigits_cons, Nat.add_comm, Nat.mul_comm]

/-! ## Reading digits -/

theorem hexValue?_digitChar : ∀ value < 16, ∀ isUpper : Bool,
    hexValue? (if isUpper then (Nat.digitChar value).toUpper else Nat.digitChar value) =
      some value := by
  decide

theorem digitValue?_char (hbase : base ≤ 16) (d : Digit base) :
    digitValue? base d.char = some d.value := by
  have hvalue := hexValue?_digitChar d.value (d.value_lt.trans_le hbase) d.isUpper
  rw [digitValue?, char, hvalue, Option.filter_some, if_pos (by simpa using d.value_lt)]

/-- What is no digit does not occur in a digit string. -/
theorem notMem_text (hbase : base ≤ 16) {c : Char} (hc : digitValue? base c = none)
    (ds : List (Digit base)) : c ∉ text ds := by
  intro hmem
  obtain ⟨d, -, rfl⟩ := List.mem_map.1 hmem
  rw [digitValue?_char hbase d] at hc
  cases hc

/-- Reading on goes on from the value so far, moved by the places that follow. -/
theorem digitsFrom?_text (hbase : base ≤ 16) (value : Nat) (ds : List (Digit base)) :
    digitsFrom? base value (text ds) = some (value * base ^ ds.length + number ds) := by
  induction ds generalizing value with
  | nil => simp [digitsFrom?]
  | cons d ds ih =>
      rw [text_cons, digitsFrom?, digitValue?_char hbase, Option.bind_some, ih, number_cons,
        List.length_cons, pow_succ', Nat.add_mul, Nat.mul_assoc, Nat.add_assoc]

theorem digits?_text (hbase : base ≤ 16) {ds : List (Digit base)} (hds : ds ≠ []) :
    digits? base (text ds) = some (number ds) := by
  cases ds with
  | nil => exact absurd rfl hds
  | cons d ds =>
      show digitsFrom? base 0 (text (d :: ds)) = _
      rw [digitsFrom?_text hbase, Nat.zero_mul, Nat.zero_add]

theorem magnitude?_text (hbase : base ≤ 16) {ds : List (Digit base)} (hds : ds ≠ []) :
    magnitude? base (text ds) = some (number ds) := by
  have hplus : '+' ∉ text ds := notMem_text hbase rfl ds
  unfold magnitude?
  split
  · next heq => exact absurd (heq ▸ List.mem_cons_self) hplus
  · exact digits?_text hbase hds

/-! ## Printed numbers -/

/-- What is printed of a number is a digit string that denotes it. -/
theorem exists_toDigits (n : Nat) :
    ∃ ds : List (Digit 10), ds ≠ [] ∧ text ds = Nat.toDigits 10 n ∧ number ds = n := by
  induction n using Nat.strongRecOn with
  | ind n ih =>
      by_cases hn : n < 10
      · refine ⟨[⟨n, false, hn⟩], by simp, ?_, by simp [number]⟩
        rw [Nat.toDigits_of_lt_base hn]
        rfl
      · obtain ⟨ds, -, htext, hnumber⟩ := ih (n / 10) (by omega)
        refine ⟨ds ++ [⟨n % 10, false, Nat.mod_lt _ (by decide)⟩], by simp, ?_, ?_⟩
        · rw [Nat.toDigits_of_base_le (by decide) (by omega), text_append, htext]
          rfl
        · rw [number_concat, hnumber]
          exact Nat.div_add_mod' n 10

end Digit

/-- The digit string that is printed of a number. -/
theorem exists_digits_toString (n : Nat) : ∃ ds : List (Digit 10), ds ≠ [] ∧
    (toString n).toList = Digit.text ds ∧ Digit.number ds = n := by
  obtain ⟨ds, hds, htext, hnumber⟩ := Digit.exists_toDigits n
  exact ⟨ds, hds, by rw [Nat.toString_eq_repr, Nat.toList_repr, htext], hnumber⟩

/-- A printed 64-bit word is read back. -/
theorem word?_toString {n : Nat} (hn : n ≤ maxWord) : word? (toString n).toList = some n := by
  obtain ⟨ds, hds, htext, hnumber⟩ := exists_digits_toString n
  rw [word?, htext, Digit.magnitude?_text (by decide) hds, hnumber, Option.filter_some,
    if_pos (by simpa using hn)]

end ContractCalls.Text
