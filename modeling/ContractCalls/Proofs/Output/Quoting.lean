/-
# Quoted texts in DOT

A quote inside a quoted text is written behind a backslash, and backslashes are
doubled in pairs, so the last of an odd number of them stays single.  It then
takes the place of the backslash in front of a quote: the text is closed too
early, or, at its end, not at all.

So a text is closed by its own quote exactly if it is `Quotable`: its quotes,
and its end, stand behind an even number of backslashes (`readQuoted_escape`).
Different texts are written differently in any case (`quoted_injective`).
-/
import ContractCalls.Output.Dot
import Mathlib.Algebra.Group.Nat.Even
import Mathlib.Data.List.Induction

namespace ContractCalls.Dot

/-! ## Reading -/

/-- Reads a text behind its opening quote: what stands in front of the quote that closes it, and
what follows.  A quote behind an odd number of backslashes does not close the text. -/
def readQuoted : (odd : Bool) → List Char → Option (List Char × List Char)
  | _, [] => none
  | odd, c :: cs =>
      if c = '"' ∧ odd = false then some ([], cs)
      else (readQuoted (c == '\\' && !odd) cs).map fun (inside, rest) => (c :: inside, rest)

/-- How many backslashes a text ends in. -/
def trailing (cs : List Char) : Nat := (cs.reverse.takeWhile (· == '\\')).length

/-- Quotes in a text, and its end, stand behind an even number of backslashes. -/
def Quotable (text : String) : Prop :=
  ∀ front rear, text.toList ++ ['"'] = front ++ '"' :: rear → Even (trailing front)

/-- Whether a text ends in an odd number of backslashes, if that is known of what is in front. -/
def oddAfter (odd : Bool) (cs : List Char) : Bool := cs.foldl (fun odd c => c == '\\' && !odd) odd

theorem oddAfter_iff (cs : List Char) : oddAfter false cs = false ↔ Even (trailing cs) := by
  induction cs using List.reverseRecOn with
  | nil => exact ⟨fun _ => Even.zero, fun _ => rfl⟩
  | append_singleton cs c ih =>
      have hstep : oddAfter false (cs ++ [c]) = (c == '\\' && !oddAfter false cs) := by
        simp [oddAfter]
      rw [hstep, trailing, List.reverse_append]
      by_cases hc : c = '\\'
      · subst hc
        show (!oddAfter false cs) = false ↔ Even (trailing cs + 1)
        rw [Nat.even_add_one, ← ih, Bool.not_eq_false', Bool.not_eq_false]
      · simp [hc, Even.zero]

/-- Quotes, and the end, stand behind an even number of backslashes, with those in front. -/
def QuotableFrom (odd : Bool) (cs : List Char) : Prop :=
  ∀ front rear, cs ++ ['"'] = front ++ '"' :: rear → oddAfter odd front = false

theorem quotable_iff (text : String) : Quotable text ↔ QuotableFrom false text.toList :=
  forall_congr' fun front => forall_congr' fun _ => imp_congr_right fun _ =>
    (oddAfter_iff front).symm

theorem quotableFrom_nil {odd : Bool} : QuotableFrom odd [] ↔ odd = false := by
  constructor
  · exact fun h => h [] [] rfl
  · rintro rfl front rear h
    cases front with
    | nil => rfl
    | cons c front => simp at h

theorem quotableFrom_cons {odd : Bool} {c : Char} {cs : List Char} :
    QuotableFrom odd (c :: cs) ↔
      (c = '"' → odd = false) ∧ QuotableFrom (c == '\\' && !odd) cs := by
  constructor
  · intro h
    refine ⟨?_, fun front rear heq => ?_⟩
    · rintro rfl
      exact h [] (cs ++ ['"']) rfl
    · exact h (c :: front) rear (congrArg (c :: ·) heq)
  · rintro ⟨hfirst, hrest⟩ front rear heq
    cases front with
    | nil =>
        obtain ⟨rfl, -⟩ := List.cons.inj heq
        exact hfirst rfl
    | cons d front =>
        obtain ⟨rfl, htail⟩ := List.cons.inj heq
        exact hrest front rear htail

instance decidableQuotableFrom : (odd : Bool) → (cs : List Char) → Decidable (QuotableFrom odd cs)
  | _, [] => decidable_of_iff _ quotableFrom_nil.symm
  | odd, c :: cs =>
      have := decidableQuotableFrom (c == '\\' && !odd) cs
      decidable_of_iff _ quotableFrom_cons.symm

instance (text : String) : Decidable (Quotable text) := decidable_of_iff _ (quotable_iff text).symm

/-! ## Escaping -/

/-- The inside of a quoted text, as characters. -/
def escapeChars (cs : List Char) : List Char := (doublePairs cs).flatMap escapeQuote

theorem toList_escape (text : String) : (escape text).toList = escapeChars text.toList :=
  String.toList_ofList

theorem readQuoted_cons {odd : Bool} {c : Char} {cs inside rest : List Char}
    (h : ¬(c = '"' ∧ odd = false)) :
    readQuoted odd (c :: cs) = some (c :: inside, rest) ↔
      readQuoted (c == '\\' && !odd) cs = some (inside, rest) := by
  rw [readQuoted, if_neg h]
  cases readQuoted (c == '\\' && !odd) cs <;> simp [Prod.ext_iff]

theorem escapeChars_quote (cs : List Char) :
    escapeChars ('"' :: cs) = '\\' :: '"' :: escapeChars cs := rfl

theorem escapeChars_pair (cs : List Char) :
    escapeChars ('\\' :: '\\' :: cs) = '\\' :: '\\' :: '\\' :: '\\' :: escapeChars cs := rfl

theorem escapeChars_cons {c : Char} {cs : List Char} (hquote : c ≠ '"')
    (hpair : c = '\\' → cs.head? ≠ some '\\') : escapeChars (c :: cs) = c :: escapeChars cs := by
  have hdouble : doublePairs (c :: cs) = c :: doublePairs cs := by
    rw [doublePairs]
    rintro cs' rfl rfl
    exact hpair rfl rfl
  rw [escapeChars, hdouble, List.flatMap_cons, escapeQuote, if_neg hquote]
  rfl

theorem head?_ne_of_not_pair {c : Char} {cs : List Char}
    (h : ∀ rest, c = '\\' → cs = '\\' :: rest → False) : c = '\\' → cs.head? ≠ some '\\' := by
  rintro rfl hhead
  obtain ⟨rest, rfl⟩ := List.head?_eq_some_iff.1 hhead
  exact h rest rfl rfl

theorem readQuoted_escapeChars (cs : List Char) (odd : Bool)
    (hodd : odd = true → cs.head? ≠ some '\\') (rest : List Char) :
    readQuoted odd (escapeChars cs ++ '"' :: rest) = some (escapeChars cs, rest) ↔
      QuotableFrom odd cs := by
  induction cs using doublePairs.induct generalizing odd with
  | case1 cs ih =>
      -- an even number of backslashes becomes an even number
      cases odd with
      | true => exact absurd rfl (hodd rfl)
      | false =>
          have hrest := ih false (by simp)
          simp only [escapeChars_pair, List.cons_append]
          rw [readQuoted_cons (by decide), readQuoted_cons (by decide), readQuoted_cons (by decide),
            readQuoted_cons (by decide), quotableFrom_cons, quotableFrom_cons]
          simpa using hrest
  | case2 c cs hpair ih =>
      have hsingle := head?_ne_of_not_pair hpair
      by_cases hquote : c = '"'
      · subst hquote
        rw [escapeChars_quote, quotableFrom_cons, List.cons_append, readQuoted_cons (by simp)]
        cases odd with
        | true =>
            -- the backslash of the quote is taken for the second of a pair
            simp [readQuoted]
        | false =>
            rw [List.cons_append, readQuoted_cons (by simp), and_iff_right fun _ => rfl]
            exact ih false (by simp)
      · rw [escapeChars_cons hquote hsingle, quotableFrom_cons, List.cons_append,
          readQuoted_cons (by simp [hquote]), and_iff_right fun h => absurd h hquote]
        refine ih _ fun h => hsingle ?_
        simpa using (Bool.and_eq_true_iff.1 h).1
  | case3 =>
      rw [quotableFrom_nil]
      cases odd <;> simp [escapeChars, doublePairs, readQuoted]

/-- Whatever follows, the quote behind a text closes it and nothing in front does, exactly if the
text is quotable. -/
theorem readQuoted_escape (text : String) (rest : List Char) :
    readQuoted false ((escape text).toList ++ '"' :: rest) = some ((escape text).toList, rest) ↔
      Quotable text := by
  rw [toList_escape, quotable_iff]
  exact readQuoted_escapeChars text.toList false (by simp) rest

/-! ## Different texts -/

/-- What was escaped. -/
def unescape : List Char → List Char
  | '\\' :: '\\' :: '\\' :: '\\' :: cs => '\\' :: '\\' :: unescape cs
  | '\\' :: '"' :: cs => '"' :: unescape cs
  | c :: cs => c :: unescape cs
  | [] => []

/-- Behind a single backslash stands no quote, and no pair of backslashes. -/
theorem escapeChars_begins {cs : List Char} (h : cs.head? ≠ some '\\') :
    (∀ rest, escapeChars cs ≠ '\\' :: '\\' :: rest) ∧ ∀ rest, escapeChars cs ≠ '"' :: rest := by
  cases cs with
  | nil => simp [escapeChars, doublePairs]
  | cons c cs =>
      have hc : c ≠ '\\' := by simpa using h
      by_cases hquote : c = '"'
      · subst hquote
        simp [escapeChars_quote]
      · rw [escapeChars_cons hquote fun heq => absurd heq hc]
        simp [hc, hquote]

theorem unescape_escapeChars (cs : List Char) : unescape (escapeChars cs) = cs := by
  induction cs using doublePairs.induct with
  | case1 cs ih => rw [escapeChars_pair, unescape, ih]
  | case2 c cs hpair ih =>
      by_cases hquote : c = '"'
      · subst hquote
        rw [escapeChars_quote, unescape, ih]
      · have hsingle := head?_ne_of_not_pair hpair
        rw [escapeChars_cons hquote hsingle, unescape, ih]
        · rintro cs' rfl htail
          exact (escapeChars_begins (hsingle rfl)).1 ('\\' :: cs') htail
        · rintro cs' rfl htail
          exact (escapeChars_begins (hsingle rfl)).2 cs' htail
  | case3 => rfl

theorem escape_injective : Function.Injective escape := by
  intro text text' h
  have hchars := congrArg (fun text => unescape (String.toList text)) h
  simp only [toList_escape, unescape_escapeChars] at hchars
  exact String.toList_inj.1 hchars

theorem quoted_injective : Function.Injective quoted := by
  intro text text' h
  have hchars := congrArg String.toList h
  simp only [quoted, String.toList_append, List.append_cancel_right_eq] at hchars
  exact escape_injective (String.toList_inj.1 (List.append_cancel_left hchars))

end ContractCalls.Dot
