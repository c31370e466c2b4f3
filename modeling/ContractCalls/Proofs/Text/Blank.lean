/-
# Beginnings, ends and pieces of texts

What a text begins or ends with, what trimming leaves of it, and where it is
cut first, each by the parts the text is put together from.
-/
import ContractCalls.Text.Blank
import Mathlib

namespace ContractCalls.Text

/-! ## Beginnings and ends -/

theorem strip?_eq_some_iff {head text rest : List Char} :
    strip? head text = some rest ↔ text = head ++ rest := by
  induction head generalizing text with
  | nil => rw [strip?, Option.some_inj, List.nil_append]
  | cons h hs ih =>
      cases text with
      | nil => simp [strip?]
      | cons c cs =>
          rw [strip?, List.cons_append, List.cons.injEq]
          split
          · next heq => rw [ih, and_iff_right heq.symm]
          · next hne => simp [Ne.symm hne]

@[simp] theorem strip?_append (head rest : List Char) : strip? head (head ++ rest) = some rest :=
  strip?_eq_some_iff.2 rfl

/-- A text does not begin with what has a character that the text lacks. -/
theorem strip?_eq_none {head text : List Char} {c : Char} (hc : c ∈ head) (htext : c ∉ text) :
    strip? head text = none := by
  refine Option.eq_none_iff_forall_ne_some.2 fun rest h => htext ?_
  rw [strip?_eq_some_iff.1 h]
  exact List.mem_append_left rest hc

theorem startsWith_iff {head text : List Char} : startsWith head text ↔ head <+: text := by
  rw [startsWith, Option.isSome_iff_exists]
  exact exists_congr fun rest => strip?_eq_some_iff.trans eq_comm

/-- What a text begins with does not reach over a character that it does not have. -/
theorem startsWith_append_cons {head : List Char} {c : Char} (hc : c ∉ head)
    (front rest : List Char) : startsWith head (front ++ c :: rest) = startsWith head front := by
  rw [Bool.eq_iff_iff, startsWith_iff, startsWith_iff]
  constructor
  · intro h
    refine List.prefix_of_prefix_length_le h (List.prefix_append front _) ?_
    by_contra hlong
    obtain ⟨tail, rfl⟩ := List.prefix_of_prefix_length_le (List.prefix_append front (c :: rest)) h
      (Nat.le_of_not_le hlong)
    rw [List.prefix_append_right_inj] at h
    cases tail with
    | nil => simp at hlong
    | cons t tail =>
        obtain ⟨rfl, -⟩ := List.cons_prefix_cons.1 h
        exact hc (by simp)
  · exact fun h => h.trans (List.prefix_append front _)

theorem stripEnd?_eq_some_iff {tail text rest : List Char} :
    stripEnd? tail text = some rest ↔ text = rest ++ tail := by
  rw [stripEnd?, Option.map_eq_some_iff]
  constructor
  · rintro ⟨front, hfront, rfl⟩
    rw [strip?_eq_some_iff] at hfront
    rw [← List.reverse_reverse text, hfront, List.reverse_append, List.reverse_reverse]
  · rintro rfl
    exact ⟨rest.reverse, by rw [List.reverse_append, strip?_append], List.reverse_reverse rest⟩

@[simp] theorem stripEnd?_append (tail rest : List Char) :
    stripEnd? tail (rest ++ tail) = some rest :=
  stripEnd?_eq_some_iff.2 rfl

/-! ## Trimming -/

/-- Behind leading elements of a kind stands one of another kind. -/
theorem dropWhile_head? {α : Type} {p : α → Bool} {l : List α} {c : α}
    (h : (l.dropWhile p).head? = some c) : p c = false := by
  have hnot := List.head?_dropWhile_not p l
  rw [h] at hnot
  simpa using hnot

/-- What is left behind the leading characters of a kind. -/
theorem dropWhile_eq_iff {p : Char → Bool} {cs rest : List Char} :
    cs.dropWhile p = rest ↔ (∃ front, (∀ c ∈ front, p c = true) ∧ cs = front ++ rest) ∧
      ∀ c, rest.head? = some c → p c = false := by
  constructor
  · rintro rfl
    refine ⟨⟨cs.takeWhile p, fun c hc => List.mem_takeWhile_imp hc, ?_⟩, fun c => dropWhile_head?⟩
    rw [List.takeWhile_append_dropWhile]
  · rintro ⟨⟨front, hfront, rfl⟩, hrest⟩
    rw [List.dropWhile_append_of_pos hfront]
    cases rest with
    | nil => rfl
    | cons c rest => rw [List.dropWhile_cons_of_neg (by simp [hrest c rfl])]

/-- Only a trailing part goes. -/
theorem dropRight_prefix (p : Char → Bool) (cs : List Char) : dropRight p cs <+: cs := by
  obtain ⟨front, hfront⟩ := List.dropWhile_suffix (l := cs.reverse) p
  refine ⟨front.reverse, ?_⟩
  rw [dropRight, ← List.reverse_append, hfront, List.reverse_reverse]

/-- What goes is of the kind that goes. -/
theorem exists_dropRight (p : Char → Bool) (cs : List Char) :
    ∃ rear : List Char, (∀ c ∈ rear, p c = true) ∧ cs = dropRight p cs ++ rear := by
  refine ⟨(cs.reverse.takeWhile p).reverse,
    fun c hc => List.mem_takeWhile_imp (List.mem_reverse.1 hc), ?_⟩
  rw [dropRight, ← List.reverse_append, List.takeWhile_append_dropWhile, List.reverse_reverse]

/-- Characters to drop go from behind a text that ends in a character to keep. -/
theorem dropRight_append {p : Char → Bool} {cs dropped : List Char}
    (hlast : ∀ c, cs.getLast? = some c → p c = false) (hdropped : ∀ c ∈ dropped, p c = true) :
    dropRight p (cs ++ dropped) = cs := by
  have hkept : cs.reverse.dropWhile p = cs.reverse := by
    cases hrev : cs.reverse with
    | nil => rfl
    | cons c rest =>
        have hc : p c = false := hlast c (by rw [List.getLast?_eq_head?_reverse, hrev]; rfl)
        rw [List.dropWhile_cons_of_neg (by simp [hc])]
  rw [dropRight, List.reverse_append, List.dropWhile_append_of_pos (by simpa using hdropped), hkept,
    List.reverse_reverse]

/-- Nothing goes from a text that ends in a character to keep. -/
theorem dropRight_eq_self {p : Char → Bool} {cs : List Char}
    (hlast : ∀ c, cs.getLast? = some c → p c = false) : dropRight p cs = cs := by
  have hdrop : dropRight p (cs ++ []) = cs := dropRight_append hlast (by simp)
  rwa [List.append_nil] at hdrop

/-- What stands in front of a character to keep stays. -/
theorem dropRight_append_cons {p : Char → Bool} {c : Char} (hc : p c = false)
    (front rear : List Char) :
    dropRight p (front ++ c :: rear) = front ++ c :: dropRight p rear := by
  have hrear : (c :: rear).reverse.dropWhile p = rear.reverse.dropWhile p ++ [c] := by
    rw [List.reverse_cons, List.dropWhile_append, List.dropWhile_cons_of_neg (by simp [hc])]
    split
    · next hempty => rw [List.isEmpty_iff.1 hempty, List.nil_append]
    · rfl
  rw [dropRight, List.reverse_append, List.dropWhile_append, hrear]
  simp [dropRight]

/-- What is left ends in a character to keep. -/
theorem getLast?_dropRight {p : Char → Bool} {cs : List Char} {c : Char}
    (h : (dropRight p cs).getLast? = some c) : p c = false := by
  rw [dropRight, List.getLast?_reverse] at h
  exact dropWhile_head? h

theorem mem_of_mem_dropBoth {p : Char → Bool} {cs : List Char} {c : Char}
    (h : c ∈ dropBoth p cs) : c ∈ cs := by
  have hfront : dropBoth p cs <+: dropLeft p cs := dropRight_prefix p _
  exact (List.dropWhile_suffix p).subset (hfront.subset h)

/-- What is left between the ends begins with a character to keep. -/
theorem head?_dropBoth {p : Char → Bool} {cs : List Char} {c : Char}
    (h : (dropBoth p cs).head? = some c) : p c = false := by
  obtain ⟨rear, hrear⟩ : dropBoth p cs <+: dropLeft p cs := dropRight_prefix p _
  have hleft : (dropLeft p cs).head? = some c := by
    rw [← hrear, List.head?_append, h, Option.some_or]
  exact dropWhile_head? hleft

/-- Nothing goes exactly from a text with characters to keep at both ends. -/
theorem dropBoth_eq_self_iff {p : Char → Bool} {cs : List Char} :
    dropBoth p cs = cs ↔
      (∀ c, cs.head? = some c → p c = false) ∧ ∀ c, cs.getLast? = some c → p c = false := by
  constructor
  · intro h
    rw [← h]
    exact ⟨fun _ => head?_dropBoth, fun _ => getLast?_dropRight⟩
  · rintro ⟨hfirst, hlast⟩
    have hleft : dropLeft p cs = cs := dropWhile_eq_iff.2 ⟨⟨[], by simp, rfl⟩, hfirst⟩
    rw [dropBoth, hleft, dropRight_eq_self hlast]

/-- What is left of a part of a text is a part of what is left of the text. -/
theorem infix_dropRight (p : Char → Bool) {part cs : List Char} (h : part <:+: cs) :
    dropRight p part <:+: dropRight p cs := by
  obtain ⟨dropped, -, hcut⟩ := exists_dropRight p part
  rcases List.eq_nil_or_concat (dropRight p part) with hnil | ⟨kept, c, hkept⟩
  · rw [hnil]
    exact List.nil_infix
  · obtain ⟨front, rear, rfl⟩ := h
    have hc : p c = false := getLast?_dropRight (show (dropRight p part).getLast? = some c by simp [hkept])
    have hwhole : front ++ part ++ rear = (front ++ kept) ++ c :: (dropped ++ rear) := by
      rw [hcut, hkept]
      simp
    rw [hwhole, dropRight_append_cons hc, hkept]
    exact ⟨front, dropRight p (dropped ++ rear), by simp⟩

/-- A text that trimming leaves alone. -/
structure IsTrimmed (cs : List Char) : Prop where
  first : ∀ c, cs.head? = some c → isBlank c = false
  last : ∀ c, cs.getLast? = some c → isBlank c = false

/-- A text without blanks has none at its ends. -/
theorem isTrimmed_of_forall {cs : List Char} (h : ∀ c ∈ cs, isBlank c = false) : IsTrimmed cs :=
  ⟨fun _ hc => h _ (List.mem_of_head? hc), fun _ hc => h _ (List.mem_of_getLast? hc)⟩

namespace IsTrimmed

variable {cs : List Char}

theorem trimRight (h : IsTrimmed cs) : trimRight cs = cs := dropRight_eq_self h.last

/-- The blanks around a text go. -/
theorem trim_around (h : IsTrimmed cs) {front rear : List Char} (hfront : ∀ c ∈ front, isBlank c)
    (hrear : ∀ c ∈ rear, isBlank c) : trim (front ++ (cs ++ rear)) = cs := by
  rw [trim, dropBoth, dropLeft, List.dropWhile_append_of_pos hfront]
  cases cs with
  | nil =>
      rw [List.nil_append, List.dropWhile_eq_nil_iff.2 hrear]
      rfl
  | cons c cs =>
      rw [List.cons_append, List.dropWhile_cons_of_neg (by simp [h.first c rfl]), ← List.cons_append]
      exact dropRight_append h.last hrear

theorem trim (h : IsTrimmed cs) : trim cs = cs := dropBoth_eq_self_iff.2 ⟨h.first, h.last⟩

end IsTrimmed

/-- A text with another character does not go as a whole. -/
theorem trim_ne_nil {cs : List Char} {c : Char} (hmem : c ∈ cs) (hc : isBlank c = false) :
    trim cs ≠ [] := by
  intro hnil
  have hblank : ∀ d ∈ dropLeft isBlank cs, isBlank d = true := by
    intro d hd
    rw [trim, dropBoth, dropRight, List.reverse_eq_nil_iff, List.dropWhile_eq_nil_iff] at hnil
    exact hnil d (List.mem_reverse.2 hd)
  cases hdrop : dropLeft isBlank cs with
  | nil =>
      have := List.dropWhile_eq_nil_iff.1 hdrop c hmem
      simp [hc] at this
  | cons d rest =>
      have hfirst : isBlank d = false := dropWhile_head? (l := cs) (by
        rw [show List.dropWhile isBlank cs = d :: rest from hdrop]
        rfl)
      rw [hblank d (by rw [hdrop]; exact List.mem_cons_self)] at hfirst
      cases hfirst

/-- A trimmed text starts where the text does, blanks in front left out. -/
theorem head?_trim (cs : List Char) : (trim cs).head? = (trimLeft cs).head? := by
  cases hleft : trimLeft cs with
  | nil => rw [trim, dropBoth, show dropLeft isBlank cs = [] from hleft]; rfl
  | cons c rest =>
      have hc : isBlank c = false := dropWhile_head? (l := cs) (congrArg List.head? hleft)
      have hmem : c ∈ cs := (List.dropWhile_sublist isBlank).subset
        (show c ∈ trimLeft cs by rw [hleft]; exact List.mem_cons_self)
      obtain ⟨d, ds, htrim⟩ := List.exists_cons_of_ne_nil (trim_ne_nil hmem hc)
      have hbegins : trim cs <+: trimLeft cs := dropRight_prefix isBlank _
      rw [htrim, hleft] at hbegins
      rw [htrim, (List.cons_prefix_cons.1 hbegins).1]
      rfl

theorem isTrimmed_trim (cs : List Char) : IsTrimmed (trim cs) where
  first _ := head?_dropBoth
  last _ := getLast?_dropRight

/-- Blanks and nothing else go. -/
theorem exists_trim (cs : List Char) : ∃ front rear : List Char, (∀ c ∈ front, isBlank c) ∧
    (∀ c ∈ rear, isBlank c) ∧ cs = front ++ (trim cs ++ rear) := by
  obtain ⟨rear, hrear, hcut⟩ := exists_dropRight isBlank (dropLeft isBlank cs)
  refine ⟨cs.takeWhile isBlank, rear, fun c hc => List.mem_takeWhile_imp hc, hrear, ?_⟩
  rw [trim, dropBoth, ← hcut, dropLeft, List.takeWhile_append_dropWhile]

/-- Blanks around a text do not matter. -/
theorem trim_append_append (cs : List Char) {front rear : List Char}
    (hfront : ∀ c ∈ front, isBlank c) (hrear : ∀ c ∈ rear, isBlank c) :
    trim (front ++ (cs ++ rear)) = trim cs := by
  obtain ⟨inFront, behind, hinFront, hbehind, hcs⟩ := exists_trim cs
  have heq : front ++ (cs ++ rear) = (front ++ inFront) ++ (trim cs ++ (behind ++ rear)) := by
    rw [List.append_assoc, ← List.append_assoc (trim cs), ← List.append_assoc inFront, ← hcs]
  rw [heq]
  exact (isTrimmed_trim cs).trim_around (List.forall_mem_append.2 ⟨hfront, hinFront⟩)
    (List.forall_mem_append.2 ⟨hbehind, hrear⟩)

theorem length_trim_le (cs : List Char) : (trim cs).length ≤ cs.length := by
  obtain ⟨front, rear, -, -, hcs⟩ := exists_trim cs
  conv_rhs => rw [hcs, List.length_append, List.length_append]
  omega

/-! ## The first cut -/

theorem splitFirst?_append {p : Char → Bool} {before after : List Char} {c : Char}
    (hbefore : ∀ x ∈ before, p x = false) (hc : p c = true) :
    splitFirst? p (before ++ c :: after) = some (before, after) := by
  induction before with
  | nil => rw [List.nil_append, splitFirst?, if_pos hc]
  | cons b before ih =>
      rw [List.forall_mem_cons] at hbefore
      rw [List.cons_append, splitFirst?, if_neg (by simp [hbefore.1]), ih hbefore.2,
        Option.map_some]

theorem splitFirst?_eq_none {p : Char → Bool} {cs : List Char} (h : ∀ x ∈ cs, p x = false) :
    splitFirst? p cs = none := by
  induction cs with
  | nil => rfl
  | cons c cs ih =>
      rw [List.forall_mem_cons] at h
      rw [splitFirst?, if_neg (by simp [h.1]), ih h.2, Option.map_none]

theorem length_splitFirst? {p : Char → Bool} {cs before after : List Char}
    (h : splitFirst? p cs = some (before, after)) : after.length ≤ cs.length := by
  induction cs generalizing before with
  | nil => cases h
  | cons c cs ih =>
      rw [splitFirst?] at h
      split at h
      · cases h
        exact Nat.le_succ _
      · obtain ⟨⟨front, rear⟩, hcut, hpair⟩ := Option.map_eq_some_iff.1 h
        cases hpair
        exact (ih hcut).trans (Nat.le_succ _)

end ContractCalls.Text
