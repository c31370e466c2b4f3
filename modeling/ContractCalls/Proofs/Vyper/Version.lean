/-
# Directives that are found are those that are rewritten

A directive is told by two pairs of patterns: one captures the version it asks
for, the other the sign of the comment in front of it.  `directive?` reads both
off a line at once.  A line fits a pattern in one way only, so what is read is
what either pair captures (`captures_detecting_iff`, `captures_rewriting_iff`),
and both pairs know the same lines.

A directive that was written is a directive again, with the same sign and the
version that was written.  In a source without carriage returns all other lines
stay as they are, so the source asks for the new version, and what was written
before does not matter to the next one (`retarget_directed`).
-/
import ContractCalls.Proofs.Text.Blank
import ContractCalls.Proofs.Text.Lines
import ContractCalls.Vyper.Version

namespace ContractCalls.Vyper.Version

open Text

/-! ## Patterns -/

/-- A part of a pattern. -/
inductive Part where
  /-- At least so many characters of a class. -/
  | run (least : Nat) (p : Char → Bool)
  /-- The letters of a lower-case word, in any case. -/
  | word (letters : List Char)

/-- The text is what the part describes. -/
def Part.Fits : Part → List Char → Prop
  | .run least p, text => least ≤ text.length ∧ ∀ c ∈ text, p c = true
  | .word letters, text => List.Forall₂ (fun letter c => sameLetter letter c = true) letters text

/-- The text consists of what the parts describe, one behind the other. -/
inductive Fit : List Part → List Char → Prop
  | nil : Fit [] []
  | cons {part : Part} {parts : List Part} {piece rest : List Char} : part.Fits piece →
      Fit parts rest → Fit (part :: parts) (piece ++ rest)

/-- A pattern for whole lines that captures what its middle parts describe. -/
structure Pattern where
  before : List Part
  captured : List Part
  behind : List Part

/-- The line fits the pattern, and the text is captured. -/
def Pattern.Captures (p : Pattern) (line text : List Char) : Prop :=
  ∃ front rear, line = front ++ (text ++ rear) ∧ Fit p.before front ∧ Fit p.captured text ∧
    Fit p.behind rear

/-- Blanks, if any. -/
def blank : Part := .run 0 isBlank

/-- At least one blank. -/
def blanks : Part := .run 1 isBlank

/-- A version: neither blanks nor signs of comments. -/
def spec : Part := .run 1 fun c => !isBlank c && c != '#'

/-- The sign of a comment with the blanks around it. -/
def sign : List Part := [blank, .word ['#'], blank]

/-- The two ways to begin a directive. -/
def keywords : List (List Part) :=
  [[.word "@version".toList, blanks],
    [.word "pragma".toList, blanks, .word "version".toList, blanks]]

/-- The patterns that capture the version. -/
def detecting : List Pattern := keywords.map fun words => ⟨sign ++ words, [spec], [blank]⟩

/-- The patterns that capture the sign of the comment. -/
def rewriting : List Pattern := keywords.map fun words => ⟨[], sign, words ++ [spec, blank]⟩

theorem fit_nil {text : List Char} : Fit [] text ↔ text = [] := by
  constructor
  · rintro ⟨⟩
    rfl
  · rintro rfl
    exact .nil

theorem fit_cons {part : Part} {parts : List Part} {text : List Char} :
    Fit (part :: parts) text ↔
      ∃ piece rest, text = piece ++ rest ∧ part.Fits piece ∧ Fit parts rest := by
  constructor
  · intro h
    cases h with
    | cons hpiece hrest => exact ⟨_, _, rfl, hpiece, hrest⟩
  · rintro ⟨piece, rest, rfl, hpiece, hrest⟩
    exact .cons hpiece hrest

theorem fit_singleton {part : Part} {text : List Char} : Fit [part] text ↔ part.Fits text := by
  simp [fit_cons, fit_nil]

theorem fit_append {xs ys : List Part} {text : List Char} :
    Fit (xs ++ ys) text ↔ ∃ front rear, text = front ++ rear ∧ Fit xs front ∧ Fit ys rear := by
  induction xs generalizing text with
  | nil => simp [fit_nil]
  | cons x xs ih =>
      rw [List.cons_append, fit_cons]
      constructor
      · rintro ⟨piece, rest, rfl, hpiece, hrest⟩
        obtain ⟨front, rear, rfl, hfront, hrear⟩ := ih.1 hrest
        exact ⟨_, rear, (List.append_assoc ..).symm, .cons hpiece hfront, hrear⟩
      · rintro ⟨_, rear, rfl, hfront, hrear⟩
        obtain ⟨piece, front, rfl, hpiece, hfront⟩ := fit_cons.1 hfront
        exact ⟨piece, front ++ rear, List.append_assoc .., hpiece,
          ih.2 ⟨front, rear, rfl, hfront, hrear⟩⟩

/-! ## Words and blanks -/

theorem stripWord?_eq_some_iff {word text rest : List Char} :
    stripWord? word text = some rest ↔
      ∃ piece, (Part.word word).Fits piece ∧ text = piece ++ rest := by
  induction word generalizing text with
  | nil =>
      constructor
      · intro h
        exact ⟨[], .nil, Option.some.inj h⟩
      · rintro ⟨_, ⟨⟩, rfl⟩
        rfl
  | cons w word ih =>
      cases text with
      | nil =>
          constructor
          · exact nofun
          · rintro ⟨_, ⟨⟩, h⟩
            cases h
      | cons c text =>
          rw [stripWord?]
          constructor
          · intro h
            split at h
            · next hc =>
                obtain ⟨piece, hpiece, rfl⟩ := ih.1 h
                exact ⟨c :: piece, .cons hc hpiece, rfl⟩
            · cases h
          · rintro ⟨_, ⟨⟩ | ⟨hc, hpiece⟩, h⟩
            obtain ⟨rfl, rfl⟩ := List.cons.inj h
            rw [if_pos hc]
            exact ih.2 ⟨_, hpiece, rfl⟩

/-- The text does not begin with a blank. -/
def Begun (text : List Char) : Prop := ∀ c, text.head? = some c → isBlank c = false

theorem afterBlanks?_eq_some_iff {text rest : List Char} :
    afterBlanks? text = some rest ↔
      ∃ piece, blanks.Fits piece ∧ text = piece ++ rest ∧ Begun rest := by
  cases text with
  | nil =>
      constructor
      · exact nofun
      · rintro ⟨piece, ⟨hlength, -⟩, h, -⟩
        rw [(List.append_eq_nil_iff.1 h.symm).1] at hlength
        cases hlength
  | cons c text =>
      rw [afterBlanks?]
      constructor
      · intro h
        split at h
        · next hc =>
            obtain ⟨⟨front, hfront, rfl⟩, hrest⟩ := dropWhile_eq_iff.1 (Option.some.inj h)
            exact ⟨c :: front, ⟨by simp, by simpa [hc] using hfront⟩, rfl, hrest⟩
        · cases h
      · rintro ⟨_ | ⟨d, piece⟩, ⟨hlength, hblank⟩, h, hrest⟩
        · cases hlength
        · obtain ⟨rfl, rfl⟩ := List.cons.inj h
          rw [if_pos (hblank c List.mem_cons_self)]
          refine congrArg some (dropWhile_eq_iff.2 ⟨⟨piece, fun x hx => ?_, rfl⟩, hrest⟩)
          exact hblank x (List.mem_cons_of_mem c hx)

/-! ## Letters -/

/-- A letter differs from its lower-case form by 32, and nothing else does. -/
theorem toNat_of_toLower {c d : Char} (h : c.toLower = d) :
    c.toNat = d.toNat ∨ 65 ≤ c.toNat ∧ c.toNat + 32 = d.toNat := by
  subst h
  unfold Char.toLower
  split
  · next hupper =>
      refine .inr ?_
      have hge := UInt32.le_iff_toNat_le.1 hupper.1
      have hle := UInt32.le_iff_toNat_le.1 hupper.2
      have hlower : (c.val + ('a'.val - 'A'.val)).toNat = c.val.toNat + 32 := by
        rw [UInt32.toNat_add]
        exact Nat.mod_eq_of_lt (by simp at hle; simp; omega)
      exact ⟨hge, hlower.symm⟩
  · exact .inl rfl

/-- A sign is only in its own case. -/
theorem eq_of_sameLetter {letter c : Char} (hletter : letter.toNat < 97)
    (h : sameLetter letter c = true) : c = letter := by
  have hs : letter ≠ 's' := by
    rintro rfl
    revert hletter
    decide
  have hlower : c.toLower = letter := by simpa [sameLetter, hs] using h
  rcases toNat_of_toLower hlower with hnat | ⟨hge, hnat⟩
  · exact Char.toNat_inj.1 hnat
  · omega

theorem not_blank_of_sameLetter {letter c : Char} (hletter : 64 ≤ letter.toNat)
    (hletter' : letter.toNat ≤ 122) (hs : letter ≠ 's') (h : sameLetter letter c = true) :
    isBlank c = false := by
  have hlower : c.toLower = letter := by simpa [sameLetter, hs] using h
  have hnat : 64 ≤ c.toNat ∧ c.toNat ≤ 122 := by
    rcases toNat_of_toLower hlower with hnat | ⟨hge, hnat⟩ <;> omega
  simp only [isBlank, Bool.or_eq_false_iff, Bool.and_eq_false_iff, decide_eq_false_iff_not,
    beq_eq_false_iff_ne]
  omega

/-- A word begins with its first letter, in some case. -/
theorem exists_of_fits_word {letter : Char} {letters piece : List Char}
    (h : (Part.word (letter :: letters)).Fits piece) :
    ∃ c rest, piece = c :: rest ∧ sameLetter letter c = true := by
  cases h with
  | cons hc _ => exact ⟨_, _, rfl, hc⟩

theorem begun_of_fits_word {letter : Char} {letters piece : List Char}
    (h : (Part.word (letter :: letters)).Fits piece) (hletter : 64 ≤ letter.toNat)
    (hletter' : letter.toNat ≤ 122) (hs : letter ≠ 's') (rest : List Char) :
    Begun (piece ++ rest) := by
  obtain ⟨c, tail, rfl, hc⟩ := exists_of_fits_word h
  intro d hd
  obtain rfl := Option.some.inj hd
  exact not_blank_of_sameLetter hletter hletter' hs hc

/-! ## What a line shows -/

/-- A text is cut where the characters of a class end. -/
theorem takeWhile_dropWhile_append {p : Char → Bool} {front rest : List Char}
    (hfront : ∀ c ∈ front, p c = true) (hrest : ∀ c, rest.head? = some c → p c = false) :
    (front ++ rest).takeWhile p = front ∧ (front ++ rest).dropWhile p = rest := by
  have hdrop := dropWhile_eq_iff.2 ⟨⟨front, hfront, rfl⟩, hrest⟩
  have hall := List.takeWhile_append_dropWhile (p := p) (l := front ++ rest)
  rw [hdrop] at hall
  exact ⟨List.append_cancel_right hall, hdrop⟩

theorem fit_sign {lead : List Char} : Fit sign lead ↔
    ∃ front rear, lead = front ++ '#' :: rear ∧ (∀ c ∈ front, isBlank c = true) ∧
      ∀ c ∈ rear, isBlank c = true := by
  rw [sign, fit_cons]
  constructor
  · rintro ⟨front, rest, rfl, ⟨-, hfront⟩, hrest⟩
    obtain ⟨piece, rear, rfl, hpiece, hrear⟩ := fit_cons.1 hrest
    obtain ⟨c, tail, rfl, hc⟩ := exists_of_fits_word hpiece
    cases hpiece with
    | cons _ htail =>
        cases htail
        obtain rfl := eq_of_sameLetter (by decide) hc
        exact ⟨front, rear, rfl, hfront, (fit_singleton.1 hrear).2⟩
  · rintro ⟨front, rear, rfl, hfront, hrear⟩
    refine ⟨front, '#' :: rear, rfl, ⟨Nat.zero_le _, hfront⟩, fit_cons.2 ⟨['#'], rear, rfl, ?_, ?_⟩⟩
    · exact .cons (by decide) .nil
    · exact fit_singleton.2 ⟨Nat.zero_le _, hrear⟩

theorem comment?_eq_some_iff {line lead text : List Char} :
    comment? line = some (lead, text) ↔ line = lead ++ text ∧ Fit sign lead ∧ Begun text := by
  rw [fit_sign]
  constructor
  · intro h
    unfold comment? at h
    split at h
    · next front rest htake hdrop =>
        have hline := List.takeWhile_append_dropWhile (p := isBlank) (l := line)
        rw [hdrop] at hline
        cases h
        refine ⟨?_, ⟨_, _, rfl, fun c hc => List.mem_takeWhile_imp hc,
          fun c hc => List.mem_takeWhile_imp hc⟩, fun c => dropWhile_head?⟩
        rw [List.append_assoc, List.cons_append, List.takeWhile_append_dropWhile, hline]
    · cases h
  · rintro ⟨rfl, ⟨front, rear, rfl, hfront, hrear⟩, htext⟩
    have hsign : ∀ c, ('#' :: (rear ++ text)).head? = some c → isBlank c = false := by
      simp [isBlank]
    obtain ⟨htake, hdrop⟩ := takeWhile_dropWhile_append hfront hsign
    obtain ⟨htake', hdrop'⟩ := takeWhile_dropWhile_append hrear htext
    unfold comment?
    rw [List.append_assoc, List.cons_append, htake, hdrop]
    show some (front ++ '#' :: (rear ++ text).takeWhile isBlank, _) = _
    rw [htake', hdrop']

/-- What begins a directive is no blank. -/
theorem begun_of_keywords {words : List Part} (hwords : words ∈ keywords) {front : List Char}
    (h : Fit words front) (rest : List Char) : Begun (front ++ rest) := by
  simp only [keywords, List.mem_cons, List.not_mem_nil, or_false] at hwords
  rcases hwords with rfl | rfl
  all_goals
    obtain ⟨piece, tail, rfl, hpiece, -⟩ := fit_cons.1 h
    rw [List.append_assoc]
    exact begun_of_fits_word hpiece (by decide) (by decide) (by decide) _

/-- No text begins in both ways. -/
theorem stripWord?_version_of_pragma {piece rest : List Char}
    (h : (Part.word "pragma".toList).Fits piece) :
    stripWord? "@version".toList (piece ++ rest) = none := by
  obtain ⟨c, tail, rfl, hc⟩ := exists_of_fits_word h
  have hother : ¬ sameLetter '@' c = true := fun hsign => by
    rw [eq_of_sameLetter (by decide) hsign] at hc
    revert hc
    decide
  exact if_neg hother

theorem afterKeywords?_eq_some_iff {text rest : List Char} :
    afterKeywords? text = some rest ↔
      ∃ words ∈ keywords, ∃ front, Fit words front ∧ text = front ++ rest ∧ Begun rest := by
  constructor
  · intro h
    obtain ⟨behind, hbehind, hrest⟩ := Option.bind_eq_some_iff.1 h
    obtain ⟨gap, hgap, rfl, hbegun⟩ := afterBlanks?_eq_some_iff.1 hrest
    rcases Option.or_eq_some_iff.1 hbehind with hversion | ⟨-, hwords⟩
    · obtain ⟨version, hfits, rfl⟩ := stripWord?_eq_some_iff.1 hversion
      refine ⟨_, List.mem_cons_self, version ++ gap, ?_, (List.append_assoc ..).symm, hbegun⟩
      exact fit_cons.2 ⟨version, gap, rfl, hfits, fit_singleton.2 hgap⟩
    · obtain ⟨middle, hmiddle, hversion⟩ := Option.bind_eq_some_iff.1 hwords
      obtain ⟨start, hstart, hblanks⟩ := Option.bind_eq_some_iff.1 hmiddle
      obtain ⟨pragma, hpragma, rfl⟩ := stripWord?_eq_some_iff.1 hstart
      obtain ⟨gap', hgap', rfl, -⟩ := afterBlanks?_eq_some_iff.1 hblanks
      obtain ⟨version, hfits, rfl⟩ := stripWord?_eq_some_iff.1 hversion
      refine ⟨_, List.mem_cons_of_mem _ List.mem_cons_self,
        pragma ++ (gap' ++ (version ++ gap)), ?_, by simp only [List.append_assoc], hbegun⟩
      exact fit_cons.2 ⟨pragma, _, rfl, hpragma, fit_cons.2 ⟨gap', _, rfl, hgap',
        fit_cons.2 ⟨version, gap, rfl, hfits, fit_singleton.2 hgap⟩⟩⟩
  · rintro ⟨words, hwords, front, hfront, rfl, hbegun⟩
    simp only [keywords, List.mem_cons, List.not_mem_nil, or_false] at hwords
    rcases hwords with rfl | rfl
    · obtain ⟨version, gap, rfl, hfits, hgap⟩ := fit_cons.1 hfront
      have hstrip := stripWord?_eq_some_iff.2 ⟨version, hfits, List.append_assoc version gap rest⟩
      have hafter := afterBlanks?_eq_some_iff.2 ⟨gap, fit_singleton.1 hgap, rfl, hbegun⟩
      rw [afterKeywords?, hstrip]
      exact hafter
    · obtain ⟨pragma, _, rfl, hpragma, hfront⟩ := fit_cons.1 hfront
      obtain ⟨gap', _, rfl, hgap', hfront⟩ := fit_cons.1 hfront
      obtain ⟨version, gap, rfl, hfits, hgap⟩ := fit_cons.1 hfront
      have hbegun' := begun_of_fits_word hfits (by decide) (by decide) (by decide) (gap ++ rest)
      simp only [List.append_assoc]
      rw [afterKeywords?, stripWord?_version_of_pragma hpragma, Option.none_or,
        stripWord?_eq_some_iff.2 ⟨pragma, hpragma, rfl⟩, Option.bind_some,
        afterBlanks?_eq_some_iff.2 ⟨gap', hgap', rfl, hbegun'⟩, Option.bind_some,
        stripWord?_eq_some_iff.2 ⟨version, hfits, rfl⟩, Option.bind_some,
        afterBlanks?_eq_some_iff.2 ⟨gap, fit_singleton.1 hgap, rfl, hbegun⟩]

/-- A directive is a sign, the words of a directive and a version; which part is which can be read
in one way only. -/
theorem directive?_eq_some_iff {line lead version : List Char} :
    directive? line = some (lead, version) ↔ ∃ words ∈ keywords, ∃ front rear,
      line = lead ++ (front ++ (version ++ rear)) ∧ Fit sign lead ∧ Fit words front ∧
        spec.Fits version ∧ blank.Fits rear := by
  have hspec (text : List Char) :
      (text.isEmpty || text.any fun c => isBlank c || c == '#') = false ↔ spec.Fits text := by
    cases text <;> simp [spec, Part.Fits]
  constructor
  · intro h
    obtain ⟨⟨lead', text⟩, hcomment, h⟩ := Option.bind_eq_some_iff.1 h
    obtain ⟨rest, hrest, h⟩ := Option.bind_eq_some_iff.1 h
    dsimp only at h
    split at h
    · cases h
    · next hversion =>
        cases h
        obtain ⟨rfl, hlead, -⟩ := comment?_eq_some_iff.1 hcomment
        obtain ⟨words, hwords, front, hfront, rfl, -⟩ := afterKeywords?_eq_some_iff.1 hrest
        obtain ⟨rear, hrear, hcut⟩ := exists_dropRight isBlank rest
        refine ⟨words, hwords, front, rear, ?_, hlead, hfront, ?_, Nat.zero_le _, hrear⟩
        · rw [show trimRight rest ++ rear = rest from hcut.symm]
        · exact (hspec _).1 (Bool.eq_false_iff.2 hversion)
  · rintro ⟨words, hwords, front, rear, rfl, hlead, hfront, hversion, -, hrear⟩
    have hblank : ∀ c ∈ version, isBlank c = false := fun c hc => by
      have := hversion.2 c hc
      simp_all
    have hbegun : Begun (version ++ rear) := by
      intro c hc
      cases version with
      | nil => exact absurd hversion.1 (by simp)
      | cons d version =>
          obtain rfl := Option.some.inj hc
          exact hblank d List.mem_cons_self
    have hcomment := comment?_eq_some_iff.2
      ⟨rfl, hlead, begun_of_keywords hwords hfront (version ++ rear)⟩
    have htrim : trimRight (version ++ rear) = version :=
      dropRight_append (fun c hc => hblank c (List.mem_of_getLast? hc)) hrear
    rw [directive?, hcomment]
    simp only [Option.bind_eq_bind, Option.bind_some]
    rw [afterKeywords?_eq_some_iff.2 ⟨words, hwords, front, hfront, rfl, hbegun⟩, Option.bind_some,
      htrim, if_neg (Bool.eq_false_iff.1 ((hspec version).2 hversion))]

/-- Reading a directive captures the version. -/
theorem captures_detecting_iff {line version : List Char} :
    (∃ p ∈ detecting, p.Captures line version) ↔
      ∃ lead, directive? line = some (lead, version) := by
  simp only [directive?_eq_some_iff, detecting, List.mem_map]
  constructor
  · rintro ⟨_, ⟨words, hwords, rfl⟩, start, rear, rfl, hstart, hversion, hrear⟩
    obtain ⟨lead, front, rfl, hlead, hfront⟩ := fit_append.1 hstart
    exact ⟨lead, words, hwords, front, rear, List.append_assoc .., hlead, hfront,
      fit_singleton.1 hversion, fit_singleton.1 hrear⟩
  · rintro ⟨lead, words, hwords, front, rear, rfl, hlead, hfront, hversion, hrear⟩
    exact ⟨_, ⟨words, hwords, rfl⟩, lead ++ front, rear, (List.append_assoc ..).symm,
      fit_append.2 ⟨lead, front, rfl, hlead, hfront⟩, fit_singleton.2 hversion,
      fit_singleton.2 hrear⟩

/-- Reading a directive captures the sign of the comment. -/
theorem captures_rewriting_iff {line lead : List Char} :
    (∃ p ∈ rewriting, p.Captures line lead) ↔
      ∃ version, directive? line = some (lead, version) := by
  simp only [directive?_eq_some_iff, rewriting, List.mem_map]
  constructor
  · rintro ⟨_, ⟨words, hwords, rfl⟩, start, behind, rfl, hstart, hlead, hbehind⟩
    obtain rfl := fit_nil.1 hstart
    obtain ⟨front, rest, rfl, hfront, hrest⟩ := fit_append.1 hbehind
    obtain ⟨version, rear, rfl, hversion, hrear⟩ := fit_cons.1 hrest
    exact ⟨version, words, hwords, front, rear, rfl, hlead, hfront, hversion,
      fit_singleton.1 hrear⟩
  · rintro ⟨version, words, hwords, front, rear, rfl, hlead, hfront, hversion, hrear⟩
    exact ⟨_, ⟨words, hwords, rfl⟩, [], front ++ (version ++ rear), rfl, .nil, hlead,
      fit_append.2 ⟨front, _, rfl, hfront,
        fit_cons.2 ⟨version, rear, rfl, hversion, fit_singleton.2 hrear⟩⟩⟩

/-- The line is a directive: one of the patterns knows it. -/
def IsDirective (line : List Char) : Prop := ∃ p ∈ detecting, ∃ version, p.Captures line version

theorem isDirective_iff {line : List Char} :
    IsDirective line ↔ ∃ lead version, directive? line = some (lead, version) := by
  constructor
  · rintro ⟨p, hp, version, h⟩
    obtain ⟨lead, h⟩ := captures_detecting_iff.1 ⟨p, hp, h⟩
    exact ⟨lead, version, h⟩
  · rintro ⟨lead, version, h⟩
    obtain ⟨p, hp, h⟩ := captures_detecting_iff.2 ⟨lead, h⟩
    exact ⟨p, hp, version, h⟩

theorem directive?_eq_none_iff {line : List Char} :
    directive? line = none ↔ ¬ IsDirective line := by
  rw [isDirective_iff, Option.eq_none_iff_forall_ne_some]
  simp

/-! ## Directives that were written -/

/-- What is written in the place of a directive is a directive with the same sign. -/
theorem directive?_writeDirective {line lead old version : List Char}
    (hline : directive? line = some (lead, old)) (hversion : spec.Fits version) :
    directive? (writeDirective lead version) = some (lead, version) := by
  obtain ⟨words, -, front, rear, -, hlead, -⟩ := directive?_eq_some_iff.1 hline
  refine directive?_eq_some_iff.2 ⟨_, List.mem_cons_self, "@version ".toList, [], ?_, hlead, ?_,
    hversion, Nat.zero_le _, by simp⟩
  · simp [writeDirective]
  · have hblank : blanks.Fits [' '] := ⟨by simp, by simp [isBlank]⟩
    refine fit_cons.2 ⟨"@version".toList, [' '], rfl, ?_, fit_singleton.2 hblank⟩
    show List.Forall₂ _ _ _
    decide

theorem replaceFirst?_eq_none_iff {version : List Char} {count : Nat} {ls : List (List Char)} :
    replaceFirst? version count ls = none ↔ ∀ l ∈ ls.take count, directive? l = none := by
  induction ls generalizing count with
  | nil => cases count <;> simp [replaceFirst?]
  | cons l ls ih =>
      cases count with
      | zero => simp [replaceFirst?]
      | succ count =>
          rw [replaceFirst?, List.take_succ_cons, List.forall_mem_cons]
          split
          · next h => simp [h]
          · next h => rw [Option.map_eq_none_iff, ih, and_iff_right h]

/-- The line that is replaced is the first directive, if it is among the lines looked at. -/
theorem replaceFirst?_eq_some_iff {version : List Char} {count : Nat}
    {ls replaced : List (List Char)} :
    replaceFirst? version count ls = some replaced ↔
      ∃ front line rear lead old, ls = front ++ line :: rear ∧ front.length < count ∧
        (∀ l ∈ front, directive? l = none) ∧ directive? line = some (lead, old) ∧
        replaced = front ++ writeDirective lead version :: rear := by
  induction ls generalizing count replaced with
  | nil => cases count <;> simp [replaceFirst?]
  | cons l ls ih =>
      cases count with
      | zero => simp [replaceFirst?]
      | succ count =>
          rw [replaceFirst?]
          constructor
          · intro h
            split at h
            · next lead old hl =>
                exact ⟨[], l, ls, lead, old, rfl, Nat.succ_pos _, by simp, hl,
                  (Option.some.inj h).symm⟩
            · next hl =>
                obtain ⟨rest, hrest, rfl⟩ := Option.map_eq_some_iff.1 h
                obtain ⟨front, line, rear, lead, old, rfl, hlength, hfront, hline, rfl⟩ :=
                  ih.1 hrest
                exact ⟨l :: front, line, rear, lead, old, rfl, Nat.succ_lt_succ hlength,
                  List.forall_mem_cons.2 ⟨hl, hfront⟩, hline, rfl⟩
          · rintro ⟨_ | ⟨m, front⟩, line, rear, lead, old, hls, hlength, hfront, hline, rfl⟩
            · obtain ⟨rfl, rfl⟩ := List.cons.inj hls
              rw [hline]
              rfl
            · obtain ⟨rfl, rfl⟩ := List.cons.inj hls
              rw [List.forall_mem_cons] at hfront
              rw [hfront.1]
              exact Option.map_eq_some_iff.2 ⟨_, ih.2 ⟨front, line, rear, lead, old, rfl,
                Nat.lt_of_succ_lt_succ hlength, hfront.2, hline, rfl⟩, rfl⟩

/-! ## Sources -/

/-- The source with one of its lines replaced. -/
theorem toList_retarget {source version : String} {replaced : List (List Char)}
    (h : replaceFirst? version.toList headerLines (lines source.toList) = some replaced) :
    (retarget source version).toList = joined source.toList replaced := by
  have hjoined : ("\n".intercalate (replaced.map String.ofList)).toList =
      ['\n'].intercalate replaced := by
    simp [String.toList_intercalate, Function.comp_def]
  rw [retarget, h, joined]
  by_cases hlast : source.toList.getLast? = some '\n'
  · simp [hlast, hjoined]
  · simp [hlast, hjoined]

/-- The lines in which a directive is looked for. -/
def header (source : String) : List (List Char) := (lines source.toList).take headerLines

/-- The lines of a source around its first directive, which is in the header. -/
structure Directed (source : String) (front : List (List Char)) (line : List Char)
    (rear : List (List Char)) : Prop where
  lines_eq : lines source.toList = front ++ line :: rear
  header : front.length < headerLines
  directive : IsDirective line
  first : ∀ l ∈ front, ¬ IsDirective l

/-- The source asks for the version in the place of its first directive. -/
structure Retargeted (source version : String) (front : List (List Char)) (lead : List Char)
    (rear : List (List Char)) : Prop where
  /-- The other lines are as they were, and the directive keeps the sign of its comment. -/
  lines_eq : lines (retarget source version).toList =
    front ++ (lead ++ "@version ".toList ++ version.toList) :: rear
  /-- The text ends in a line feed if it did before. -/
  ends : (retarget source version).toList.getLast? = some '\n' ↔
    source.toList.getLast? = some '\n'
  /-- The version that is found is that which was written, without one letter in front. -/
  detected : detect? (retarget source version) =
    if withoutLetter version.toList = [] then none
    else some (String.ofList (withoutLetter version.toList))
  /-- What was written does not matter to what is written next. -/
  again : ∀ other, retarget (retarget source version) other = retarget source other

theorem exists_directed {source : String} (h : ∃ l ∈ header source, IsDirective l) :
    ∃ front line rear, Directed source front line rear := by
  obtain ⟨l, hl, hdirective⟩ := h
  cases hreplaced : replaceFirst? [] headerLines (lines source.toList) with
  | none =>
      exact absurd hdirective
        (directive?_eq_none_iff.1 (replaceFirst?_eq_none_iff.1 hreplaced l hl))
  | some replaced =>
      obtain ⟨front, line, rear, lead, old, hlines, hlength, hfront, hline, -⟩ :=
        replaceFirst?_eq_some_iff.1 hreplaced
      exact ⟨front, line, rear, hlines, hlength, isDirective_iff.2 ⟨lead, old, hline⟩,
        fun l hl => directive?_eq_none_iff.1 (hfront l hl)⟩

section Directed

variable {source version : String} {front rear : List (List Char)} {line lead old : List Char}

theorem Directed.replaceFirst? (h : Directed source front line rear)
    (hline : directive? line = some (lead, old)) (version : List Char) :
    replaceFirst? version headerLines (lines source.toList) =
      some (front ++ writeDirective lead version :: rear) :=
  replaceFirst?_eq_some_iff.2 ⟨front, line, rear, lead, old, h.lines_eq, h.header,
    fun l hl => directive?_eq_none_iff.2 (h.first l hl), hline, rfl⟩

theorem Directed.detect? (h : Directed source front line rear)
    (hline : directive? line = some (lead, old)) :
    detect? source = if withoutLetter old = [] then none
      else some (String.ofList (withoutLetter old)) := by
  have hfront : front.findSome? directive? = none :=
    List.findSome?_eq_none_iff.2 fun l hl => directive?_eq_none_iff.2 (h.first l hl)
  obtain ⟨k, hk⟩ := Nat.exists_eq_add_of_lt h.header
  have htake : (front ++ line :: rear).take headerLines = front ++ line :: rear.take k := by
    rw [hk, Nat.add_assoc, List.take_length_add_append, List.take_succ_cons]
  rw [Version.detect?, h.lines_eq, htake, List.findSome?_append, hfront, Option.none_or,
    List.findSome?_cons, hline]
  simp

/-- A version is written in the place of the first directive. -/
theorem Directed.retarget (h : Directed source front line rear)
    (hline : directive? line = some (lead, old)) (hreturn : '\r' ∉ source.toList)
    (hversion : spec.Fits version.toList) : Retargeted source version front lead rear := by
  have hlined := lined_lines source.toList
  rw [h.lines_eq] at hlined
  obtain ⟨hfeed, hsource⟩ := hlined.of_mem (List.mem_append_right front List.mem_cons_self)
  obtain ⟨words, -, begin, behind, hparts, -⟩ := directive?_eq_some_iff.1 hline
  have hlead : lead ⊆ line := hparts ▸ List.subset_append_left ..
  have hblank {c : Char} (hc : isBlank c = true) : c ∉ version.toList := fun hmem => by
    simpa [hc] using hversion.2 c hmem
  have hnew {c : Char} (hmem : c ∉ line) (hword : c ∉ "@version ".toList)
      (hc : isBlank c = true) : c ∉ writeDirective lead version.toList := by
    simp only [writeDirective, List.mem_append, not_or]
    exact ⟨⟨fun h => hmem (hlead h), hword⟩, hblank hc⟩
  have hne : writeDirective lead version.toList ≠ [] := by simp [writeDirective]
  obtain ⟨hreplaced, hends⟩ := hlined.replace hreturn hne (hnew hfeed (by decide) rfl)
    (hnew (fun h => hreturn (hsource h)) (by decide) rfl)
  rw [← toList_retarget (h.replaceFirst? hline version.toList)] at hreplaced hends
  have hwritten := directive?_writeDirective hline hversion
  have hdirected : Directed (Version.retarget source version) front
      (writeDirective lead version.toList) rear :=
    ⟨hreplaced.lines_eq, h.header, isDirective_iff.2 ⟨_, _, hwritten⟩, h.first⟩
  refine ⟨hreplaced.lines_eq, hends, hdirected.detect? hwritten, fun other => ?_⟩
  rw [← String.toList_inj, toList_retarget (hdirected.replaceFirst? hwritten other.toList),
    toList_retarget (h.replaceFirst? hline other.toList)]
  simp only [joined, hends]

end Directed

/-- A source without carriage returns that has a directive in its header asks for the version that
is written, if this has no blanks and no sign of a comment.  A source without one stays as it is. -/
theorem retarget_directed (source version : String) :
    ('\r' ∉ source.toList → version ≠ "" →
      (∀ c ∈ version.toList, isBlank c = false ∧ c ≠ '#') →
      (∃ l ∈ header source, IsDirective l) → ∃ front line rear lead,
        Directed source front line rear ∧ (∃ p ∈ rewriting, p.Captures line lead) ∧
          Retargeted source version front lead rear) ∧
    ((∀ l ∈ header source, ¬ IsDirective l) → retarget source version = source) := by
  constructor
  · intro hreturn hne hplain hheader
    obtain ⟨front, line, rear, h⟩ := exists_directed hheader
    obtain ⟨lead, old, hline⟩ := isDirective_iff.1 h.directive
    have hversion : spec.Fits version.toList :=
      ⟨List.length_pos_iff.2 (by simpa using hne), fun c hc => by simpa using hplain c hc⟩
    exact ⟨front, line, rear, lead, h, captures_rewriting_iff.2 ⟨old, hline⟩,
      h.retarget hline hreturn hversion⟩
  · intro hheader
    have hnone : replaceFirst? version.toList headerLines (lines source.toList) = none :=
      replaceFirst?_eq_none_iff.2 fun l hl => directive?_eq_none_iff.2 (hheader l hl)
    rw [retarget, hnone]

/-- A directive behind an empty line, in the other way to write one, and a source without any. -/
theorem retarget_pragma :
    (∃ front line rear lead,
      Directed "\n  #  PRAGMA version ^0.3.0\nx: uint256\n\n" front line rear ∧
        (∃ p ∈ rewriting, p.Captures line lead) ∧
          Retargeted "\n  #  PRAGMA version ^0.3.0\nx: uint256\n\n" "v0.3.10" front lead rear) ∧
      retarget "x: uint256" "v0.3.10" = "x: uint256" := by
  refine ⟨(retarget_directed _ "v0.3.10").1 (by decide) (by decide) (by simp [isBlank]) ?_,
    (retarget_directed _ "v0.3.10").2 ?_⟩
  · exact ⟨"  #  PRAGMA version ^0.3.0".toList, by simp [header, headerLines, lines],
      isDirective_iff.2 ⟨"  #  ".toList, "^0.3.0".toList, by decide⟩⟩
  · intro l hl
    obtain rfl : l = "x: uint256".toList := by
      simpa [header, headerLines, lines] using hl
    exact directive?_eq_none_iff.1 (by decide)

end ContractCalls.Vyper.Version
