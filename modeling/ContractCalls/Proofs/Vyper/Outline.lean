/-
# The functions of a text take its lines apart

A line defines a function if it reads as a definition up to the parenthesis
that opens the parameters.  Below it the function has the lines that are blank
or indented deeper; the blank ones at the end do not count.

The scan goes through the lines once.  What stands in front of a line has lower
numbers, so what holds of the functions behind it is kept when lines are put in
front: the statement about a whole text is put together from its end.
-/
import ContractCalls.Proofs.Text.Blank
import ContractCalls.Vyper.Outline

namespace ContractCalls.Vyper

open Text

/-! ## Lines that define functions -/

namespace CallText

/-- A letter or an underscore, and then letters, digits and underscores. -/
def IsName (name : List Char) : Prop :=
  ∃ c cs, name = c :: cs ∧ isNameStart c = true ∧ ∀ d ∈ cs, isNamePart d = true

theorem isBlank_of_isNamePart {c : Char} (h : isNamePart c = true) : isBlank c = false := by
  have hcode : c.toNat = 95 ∨ 48 ≤ c.toNat ∧ c.toNat ≤ 122 := by
    simp only [isNamePart, Char.isAlphanum, Char.isAlpha, Char.isUpper, Char.isLower, Char.isDigit,
      Bool.or_eq_true, Bool.and_eq_true, decide_eq_true_eq, beq_iff_eq, ge_iff_le,
      UInt32.le_iff_toNat_le] at h
    rcases h with ((h | h) | h) | rfl
    · exact .inr ⟨h.1.trans' (by decide), h.2.trans (by decide)⟩
    · exact .inr ⟨h.1.trans' (by decide), h.2.trans (by decide)⟩
    · exact .inr ⟨h.1.trans' (by decide), h.2.trans (by decide)⟩
    · exact .inl rfl
  simp only [isBlank, Bool.or_eq_false_iff, Bool.and_eq_false_iff, decide_eq_false_iff_not,
    beq_eq_false_iff_ne]
  omega

theorem isNamePart_of_isNameStart {c : Char} (h : isNameStart c = true) : isNamePart c = true := by
  simp only [isNameStart, isNamePart, Char.isAlphanum, Bool.or_eq_true] at h ⊢
  tauto

/-- A name goes as far as its characters do. -/
theorem name?_eq_some_iff {cs rest : List Char} {name : String} :
    name? cs = some (name, rest) ↔ (IsName name.toList ∧ cs = name.toList ++ rest) ∧
      ∀ c, rest.head? = some c → isNamePart c = false := by
  constructor
  · intro h
    cases cs with
    | nil => cases h
    | cons c cs =>
        rw [name?] at h
        split at h
        · next hc =>
            obtain ⟨rfl, rfl⟩ := Prod.mk.inj (Option.some.inj h)
            refine ⟨⟨⟨c, cs.takeWhile isNamePart, String.toList_ofList, hc,
              fun d hd => List.mem_takeWhile_imp hd⟩, ?_⟩, fun d => dropWhile_head?⟩
            rw [String.toList_ofList, List.cons_append, List.takeWhile_append_dropWhile]
        · cases h
  · rintro ⟨⟨⟨c, part, hname, hc, hpart⟩, rfl⟩, hrest⟩
    have hdrop : (part ++ rest).dropWhile isNamePart = rest :=
      dropWhile_eq_iff.2 ⟨⟨part, hpart, rfl⟩, hrest⟩
    have htake : (part ++ rest).takeWhile isNamePart = part := by
      have hjoined := List.takeWhile_append_dropWhile (p := isNamePart) (l := part ++ rest)
      rw [hdrop] at hjoined
      exact List.append_cancel_right hjoined
    rw [hname, List.cons_append, name?, if_pos hc, hdrop, htake, ← hname, String.ofList_toList]

theorem opensCall_iff {cs : List Char} :
    opensCall cs = true ↔ ∃ blanks rest, (∀ c ∈ blanks, isBlank c = true) ∧
      cs = blanks ++ '(' :: rest := by
  rw [opensCall, startsWith_iff]
  constructor
  · rintro ⟨rest, hrest⟩
    obtain ⟨⟨blanks, hblanks, rfl⟩, -⟩ := dropWhile_eq_iff.1 hrest.symm
    exact ⟨blanks, rest, hblanks, rfl⟩
  · rintro ⟨blanks, rest, hblanks, rfl⟩
    have htrim : trimLeft (blanks ++ '(' :: rest) = '(' :: rest :=
      dropWhile_eq_iff.2 ⟨⟨blanks, hblanks, rfl⟩, by simp [isBlank]⟩
    rw [htrim]
    exact ⟨rest, rfl⟩

/-- A called name is one with blanks and an opening parenthesis behind it. -/
theorem calledName?_eq_some_iff {cs : List Char} {name : String} :
    calledName? cs = some name ↔ IsName name.toList ∧ ∃ blanks rest,
      (∀ c ∈ blanks, isBlank c = true) ∧ cs = name.toList ++ (blanks ++ '(' :: rest) := by
  constructor
  · intro h
    obtain ⟨⟨found, behind⟩, hfound, hcalled⟩ := Option.bind_eq_some_iff.1 h
    obtain ⟨⟨hname, rfl⟩, -⟩ := name?_eq_some_iff.1 hfound
    obtain ⟨hopens, heq⟩ := Option.ite_none_right_eq_some.1 hcalled
    obtain rfl := Option.some.inj heq
    obtain ⟨blanks, rest, hblanks, rfl⟩ := opensCall_iff.1 hopens
    exact ⟨hname, blanks, rest, hblanks, rfl⟩
  · rintro ⟨hname, blanks, rest, hblanks, rfl⟩
    have hend : ∀ c, (blanks ++ '(' :: rest).head? = some c → isNamePart c = false := by
      intro c hc
      cases blanks with
      | nil =>
          obtain rfl : '(' = c := by simpa using hc
          decide
      | cons b blanks =>
          obtain rfl : b = c := by simpa using hc
          rw [List.forall_mem_cons] at hblanks
          by_contra hpart
          have := isBlank_of_isNamePart (by simpa using hpart)
          simp [hblanks.1] at this
    have hfound := name?_eq_some_iff.2 ⟨⟨hname, rfl⟩, hend⟩
    rw [calledName?, hfound]
    exact if_pos (opensCall_iff.2 ⟨blanks, rest, hblanks, rfl⟩)

end CallText

/-- The line defines a function of the given name: blanks and tabs, `def`, blanks, the name, blanks
and an opening parenthesis. -/
def Defines (line : List Char) (name : String) : Prop :=
  ∃ front gap behind rest, (∀ c ∈ front, c = ' ' ∨ c = '\t') ∧
    (gap ≠ [] ∧ ∀ c ∈ gap, isBlank c = true) ∧ CallText.IsName name.toList ∧
    (∀ c ∈ behind, isBlank c = true) ∧
    line = front ++ ("def".toList ++ (gap ++ (name.toList ++ (behind ++ '(' :: rest))))

namespace Outline

theorem definedName?_eq_some_iff {line : List Char} {name : String} :
    definedName? line = some name ↔ Defines line name := by
  constructor
  · intro h
    obtain ⟨rest, hrest, hcalled⟩ := Option.bind_eq_some_iff.1 h
    obtain ⟨hgap, hcalled⟩ := Option.ite_none_right_eq_some.1 hcalled
    rw [strip?_eq_some_iff] at hrest
    obtain ⟨⟨front, hfront, rfl⟩, -⟩ := dropWhile_eq_iff.1 hrest
    obtain ⟨hname, behind, parameters, hbehind, htrim⟩ := CallText.calledName?_eq_some_iff.1 hcalled
    obtain ⟨⟨gap, hblank, rfl⟩, hfirst⟩ := dropWhile_eq_iff.1 htrim
    refine ⟨front, gap, behind, parameters, by simpa using hfront, ⟨?_, hblank⟩, hname, hbehind,
      rfl⟩
    rintro rfl
    obtain ⟨c, cs, hcs, -⟩ := hname
    have hblankFirst : isBlank c = true := by simpa [hcs] using hgap
    simp [hfirst c (by simp [hcs])] at hblankFirst
  · rintro ⟨front, gap, behind, parameters, hfront, ⟨hne, hgap⟩, hname, hbehind, rfl⟩
    have hcalled := CallText.calledName?_eq_some_iff.2 ⟨hname, behind, parameters, hbehind, rfl⟩
    have hfirst : ∀ c, (name.toList ++ (behind ++ '(' :: parameters)).head? = some c →
        isBlank c = false := by
      obtain ⟨c, cs, hcs, hc, -⟩ := hname
      have := CallText.isBlank_of_isNamePart (CallText.isNamePart_of_isNameStart hc)
      simpa [hcs] using this
    generalize name.toList ++ (behind ++ '(' :: parameters) = code at hcalled hfirst ⊢
    have hdef : (front ++ ("def".toList ++ (gap ++ code))).dropWhile
        (fun c => c == ' ' || c == '\t') = "def".toList ++ (gap ++ code) :=
      dropWhile_eq_iff.2 ⟨⟨front, by simpa using hfront, rfl⟩, by simp⟩
    have htrim : trimLeft (gap ++ code) = code :=
      dropWhile_eq_iff.2 ⟨⟨gap, hgap, rfl⟩, hfirst⟩
    obtain ⟨b, gap, rfl⟩ := List.exists_cons_of_ne_nil hne
    rw [← htrim] at hcalled
    rw [definedName?, hdef, strip?_append]
    exact (if_pos (hgap b List.mem_cons_self)).trans hcalled

end Outline

namespace Defines

open Outline

/-- What a line that defines a function starts with. -/
theorem head?_trim {line : List Char} {name : String} (h : Defines line name) :
    (trim line).head? = some 'd' := by
  obtain ⟨front, gap, behind, parameters, hfront, -, -, -, rfl⟩ := h
  have hleft : trimLeft (front ++ ("def".toList ++ (gap ++ (name.toList ++
      (behind ++ '(' :: parameters))))) =
        "def".toList ++ (gap ++ (name.toList ++ (behind ++ '(' :: parameters))) :=
    dropWhile_eq_iff.2 ⟨⟨front, fun c hc => ?_, rfl⟩, by simp [isBlank]⟩
  · rw [Text.head?_trim, hleft]
    rfl
  · rcases hfront c hc with rfl | rfl <;> decide

theorem not_blank {line : List Char} {name : String} (h : Defines line name) :
    isBlankLine line = false := by
  rw [isBlankLine, Bool.eq_false_iff, ne_eq, List.all_eq_true]
  intro hblank
  have hleft : trimLeft line = [] := List.dropWhile_eq_nil_iff.2 hblank
  have hfirst := h.head?_trim
  rw [Text.head?_trim, hleft] at hfirst
  cases hfirst

/-- A line that defines a function starts with nothing else. -/
theorem startsWith_trim {line : List Char} {name : String} (h : Defines line name)
    {c : Char} (hc : c ≠ 'd') (cs : List Char) : startsWith (c :: cs) (trim line) = false := by
  rw [Bool.eq_false_iff, ne_eq, startsWith_iff]
  rintro ⟨rest, hrest⟩
  have hfirst := h.head?_trim
  rw [← hrest] at hfirst
  exact hc (Option.some.inj hfirst)

theorem not_interface {line : List Char} {name : String} (h : Defines line name) :
    opensInterface line = false := by
  have hstarts : startsWith "interface ".toList (trim line) = false :=
    h.startsWith_trim (by decide) "nterface ".toList
  rw [opensInterface, hstarts, Bool.and_false]

end Defines

namespace Outline

/-! ## Numbered lines -/

section Numbered

variable {front rest : List (List Char)} {line : List Char} {number n : Nat}

theorem mem_zipIdx_append : (line, n) ∈ (front ++ rest).zipIdx number ↔
    (line, n) ∈ front.zipIdx number ∨ (line, n) ∈ rest.zipIdx (number + front.length) := by
  rw [List.zipIdx_append, List.mem_append]

/-- The lines behind others have higher numbers. -/
theorem mem_zipIdx_behind (hn : number + front.length ≤ n)
    (h : (line, n) ∈ (front ++ rest).zipIdx number) :
    (line, n) ∈ rest.zipIdx (number + front.length) := by
  refine (mem_zipIdx_append.1 h).resolve_left fun hfront => ?_
  have := List.snd_lt_add_of_mem_zipIdx hfront
  omega

/-- The lines in front of others have lower numbers. -/
theorem mem_zipIdx_front (hn : n < number + front.length)
    (h : (line, n) ∈ (front ++ rest).zipIdx number) : (line, n) ∈ front.zipIdx number := by
  refine (mem_zipIdx_append.1 h).resolve_right fun hbehind => ?_
  have := List.le_snd_of_mem_zipIdx hbehind
  omega

end Numbered

/-- A function has lines of its own, among numbered ones: from the line `head` that defines it
those that are indented deeper, up to the last one that is not blank. -/
structure Occupies (ls : List (List Char × Nat)) (head : List Char) (f : OutlinedFunction) :
    Prop where
  first_le_last : f.firstLine ≤ f.lastLine
  head_mem : (head, f.firstLine) ∈ ls
  last_mem : ∃ line, (line, f.lastLine) ∈ ls ∧ isBlankLine line = false
  defines : Defines head f.name
  deeper : ∀ line n, (line, n) ∈ ls → f.firstLine < n → n ≤ f.lastLine →
    isBlankLine line = false → indent head < indent line
  stops : ∀ line n, (line, n) ∈ ls → f.lastLine < n → isBlankLine line = false →
    (∀ between m, (between, m) ∈ ls → f.lastLine < m → m < n → isBlankLine between = true) →
    indent line ≤ indent head

/-- The line of number `n` belongs to the indented block below a line that starts an interface. -/
def InInterface (ls : List (List Char × Nat)) (n : Nat) : Prop :=
  ∃ head m, (head, m) ∈ ls ∧ opensInterface head = true ∧ m < n ∧
    ∀ line k, (line, k) ∈ ls → m < k → k ≤ n → isBlankLine line = true ∨ 0 < indent line

/-- The functions take numbered lines apart: each has lines of its own, they follow one another, and
every line that defines a function belongs to one or to an interface. -/
structure TakeApart (ls : List (List Char × Nat)) (functions : List OutlinedFunction) : Prop where
  occupies : ∀ f ∈ functions, ∃ head, Occupies ls head f
  increasing : functions.Pairwise fun f g => f.lastLine < g.firstLine
  covers : ∀ line n name, (line, n) ∈ ls → Defines line name →
    (∃ f ∈ functions, f.firstLine ≤ n ∧ n ≤ f.lastLine) ∨ InInterface ls n

/-! ## Lines in front -/

section Front

variable {front rest : List (List Char)} {number : Nat}

theorem Occupies.prepend {head : List Char} {f : OutlinedFunction}
    (h : Occupies (rest.zipIdx (number + front.length)) head f) :
    Occupies ((front ++ rest).zipIdx number) head f := by
  have hbound : number + front.length ≤ f.firstLine := List.le_snd_of_mem_zipIdx h.head_mem
  have hle := h.first_le_last
  refine ⟨hle, mem_zipIdx_append.2 (.inr h.head_mem), ?_, h.defines, ?_, ?_⟩
  · obtain ⟨line, hline, hblank⟩ := h.last_mem
    exact ⟨line, mem_zipIdx_append.2 (.inr hline), hblank⟩
  · intro line n hline hfirst
    exact h.deeper line n (mem_zipIdx_behind (by omega) hline) hfirst
  · intro line n hline hlast hblank hbetween
    refine h.stops line n (mem_zipIdx_behind (by omega) hline) hlast hblank fun between m hm => ?_
    exact hbetween between m (mem_zipIdx_append.2 (.inr hm))

theorem InInterface.prepend {n : Nat} (h : InInterface (rest.zipIdx (number + front.length)) n) :
    InInterface ((front ++ rest).zipIdx number) n := by
  obtain ⟨head, m, hhead, hopens, hlt, hblock⟩ := h
  have hbound : number + front.length ≤ m := List.le_snd_of_mem_zipIdx hhead
  refine ⟨head, m, mem_zipIdx_append.2 (.inr hhead), hopens, hlt, fun line k hline hk => ?_⟩
  exact hblock line k (mem_zipIdx_behind (by omega) hline) hk

/-- Lines in front that define functions only in an interface. -/
theorem TakeApart.prepend {functions : List OutlinedFunction}
    (h : TakeApart (rest.zipIdx (number + front.length)) functions)
    (hfront : ∀ line n name, (line, n) ∈ front.zipIdx number → Defines line name →
      InInterface ((front ++ rest).zipIdx number) n) :
    TakeApart ((front ++ rest).zipIdx number) functions := by
  refine ⟨fun f hf => ?_, h.increasing, fun line n name hline hdefines => ?_⟩
  · obtain ⟨head, hhead⟩ := h.occupies f hf
    exact ⟨head, hhead.prepend⟩
  · rcases mem_zipIdx_append.1 hline with hline | hline
    · exact .inr (hfront line n name hline hdefines)
    · exact (h.covers line n name hline hdefines).imp_right InInterface.prepend

/-- A function in front of others, with its lines. -/
theorem TakeApart.cons {functions : List OutlinedFunction} {head : List Char} {f : OutlinedFunction}
    (h : TakeApart (rest.zipIdx (number + front.length)) functions)
    (hf : Occupies ((front ++ rest).zipIdx number) head f)
    (hlast : f.lastLine < number + front.length)
    (hfront : ∀ line n name, (line, n) ∈ front.zipIdx number → Defines line name →
      f.firstLine ≤ n ∧ n ≤ f.lastLine) :
    TakeApart ((front ++ rest).zipIdx number) (f :: functions) := by
  refine ⟨List.forall_mem_cons.2 ⟨⟨head, hf⟩, fun g hg => ?_⟩, List.pairwise_cons.2 ⟨fun g hg => ?_,
    h.increasing⟩, fun line n name hline hdefines => ?_⟩
  · obtain ⟨head, hhead⟩ := h.occupies g hg
    exact ⟨head, hhead.prepend⟩
  · obtain ⟨head, hhead⟩ := h.occupies g hg
    exact hlast.trans_le (List.le_snd_of_mem_zipIdx hhead.head_mem)
  · rcases mem_zipIdx_append.1 hline with hline | hline
    · exact .inl ⟨f, List.mem_cons_self, hfront line n name hline hdefines⟩
    · refine (h.covers line n name hline hdefines).imp ?_ InInterface.prepend
      rintro ⟨g, hg, hn⟩
      exact ⟨g, List.mem_cons_of_mem f hg, hn⟩

end Front

/-! ## The lines of one function -/

/-- The blank lines at the end of a block are all that is left out of it. -/
theorem exists_append_dropTrailingBlanks (body : List (List Char)) :
    ∃ blanks, (∀ line ∈ blanks, isBlankLine line = true) ∧
      body = dropTrailingBlanks body ++ blanks := by
  refine ⟨(body.reverse.takeWhile isBlankLine).reverse, fun line hline => ?_, ?_⟩
  · exact List.mem_takeWhile_imp (List.mem_reverse.1 hline)
  · rw [dropTrailingBlanks, ← List.reverse_append, List.takeWhile_append_dropWhile,
      List.reverse_reverse]

/-- A block without the blank lines at its end ends in another line. -/
theorem getLast?_dropTrailingBlanks {body : List (List Char)} {line : List Char}
    (h : (dropTrailingBlanks body).getLast? = some line) : isBlankLine line = false := by
  rw [dropTrailingBlanks, List.getLast?_reverse] at h
  exact dropWhile_head? h

section Block

variable {head : List Char} {kept blanks rest : List (List Char)} {f : OutlinedFunction}

/-- A function with a block of lines that are blank or indented deeper than its first, blank ones at
the end, and no such line behind them. -/
theorem occupies_block (hdefines : Defines head f.name)
    (hkept : ∀ line ∈ kept, isWithin (indent head) line = true)
    (hend : ∀ line, kept.getLast? = some line → isBlankLine line = false)
    (hblanks : ∀ line ∈ blanks, isBlankLine line = true)
    (hrest : ∀ line, rest.head? = some line → isWithin (indent head) line = false)
    (hlast : f.lastLine = f.firstLine + kept.length) :
    Occupies ((head :: (kept ++ (blanks ++ rest))).zipIdx f.firstLine) head f := by
  refine ⟨by omega, by simp, ?_, hdefines, ?_, ?_⟩
  · rcases List.eq_nil_or_concat kept with rfl | ⟨front, line, rfl⟩
    · exact ⟨head, by simp [hlast], hdefines.not_blank⟩
    · refine ⟨line, ?_, hend line (by simp)⟩
      rw [List.concat_eq_append, List.length_append] at hlast
      have hnumber : f.lastLine = f.firstLine + 1 + front.length := by
        simp only [hlast, List.length_singleton]
        omega
      rw [List.zipIdx_cons, hnumber]
      refine List.mem_cons_of_mem _ (mem_zipIdx_append.2 (.inl ?_))
      rw [List.concat_eq_append]
      exact mem_zipIdx_append.2 (.inr (by simp))
  · intro line n hline hfirst hn hblank
    rcases List.mem_cons.1 hline with heq | hline
    · obtain ⟨-, rfl⟩ := Prod.mk.inj heq
      omega
    · have hkeptLine : (line, n) ∈ kept.zipIdx (f.firstLine + 1) :=
        mem_zipIdx_front (by omega) hline
      have hwithin := hkept line (List.fst_mem_of_mem_zipIdx hkeptLine)
      simpa [isWithin, hblank] using hwithin
  · intro line n hline hn hblank hbetween
    rw [show head :: (kept ++ (blanks ++ rest)) = (head :: (kept ++ blanks)) ++ rest by simp]
      at hline hbetween
    have hrestLine : (line, n) ∈ rest.zipIdx (f.firstLine + (head :: (kept ++ blanks)).length) := by
      refine (mem_zipIdx_append.1 hline).resolve_left fun hfront => ?_
      rcases List.mem_cons.1 hfront with heq | hfront
      · obtain ⟨-, rfl⟩ := Prod.mk.inj heq
        omega
      · rcases mem_zipIdx_append.1 hfront with hkeptLine | hblankLine
        · have := List.snd_lt_add_of_mem_zipIdx hkeptLine
          simp only at this
          omega
        · simp [hblanks line (List.fst_mem_of_mem_zipIdx hblankLine)] at hblank
    cases rest with
    | nil => cases hrestLine
    | cons next rest =>
        -- A line further down has the line that ends the block in front of it.
        have hnext := hrest next rfl
        rw [isWithin, Bool.or_eq_false_iff, decide_eq_false_iff_not, not_lt] at hnext
        rcases List.mem_cons.1 hrestLine with heq | hbehind
        · obtain ⟨rfl, -⟩ := Prod.mk.inj heq
          exact hnext.2
        · have hlt := List.le_snd_of_mem_zipIdx hbehind
          have hblankNext := hbetween next _ (mem_zipIdx_append.2 (.inr List.mem_cons_self))
            (by simp only [List.length_cons, List.length_append]; omega) hlt
          simp [hnext.1] at hblankNext

end Block

/-- The function on a line has that line and those of its block. -/
theorem occupies_functionAt {head : List Char} {name : String} (hdefines : Defines head name)
    (number : Nat) (decorators tail : List (List Char)) :
    Occupies ((head :: tail).zipIdx number) head
      (functionAt number name decorators (tail.takeWhile (isWithin (indent head)))) := by
  obtain ⟨blanks, hblanks, hbody⟩ :=
    exists_append_dropTrailingBlanks (tail.takeWhile (isWithin (indent head)))
  have htail : tail = dropTrailingBlanks (tail.takeWhile (isWithin (indent head))) ++
      (blanks ++ tail.dropWhile (isWithin (indent head))) := by
    rw [← List.append_assoc, ← hbody, List.takeWhile_append_dropWhile]
  have hkept : ∀ line ∈ dropTrailingBlanks (tail.takeWhile (isWithin (indent head))),
      isWithin (indent head) line = true := by
    intro line hline
    have hmem := List.mem_append_left blanks hline
    rw [← hbody] at hmem
    exact List.mem_takeWhile_imp hmem
  have hrest : ∀ line, (tail.dropWhile (isWithin (indent head))).head? = some line →
      isWithin (indent head) line = false := fun line => dropWhile_head?
  have hoccupies := occupies_block (f := functionAt number name decorators
    (tail.takeWhile (isWithin (indent head)))) hdefines hkept
    (fun line => getLast?_dropTrailingBlanks) hblanks hrest rfl
  rwa [← htail] at hoccupies

/-! ## The whole scan -/

section Scan

variable {line : List Char} {rest : List (List Char)} {number : Nat}
  {functions : List OutlinedFunction}

/-- A line that defines nothing is passed over. -/
theorem TakeApart.skip (h : TakeApart (rest.zipIdx (number + 1)) functions)
    (hline : ∀ name, ¬ Defines line name) : TakeApart ((line :: rest).zipIdx number) functions := by
  have hfront := @TakeApart.prepend [line] rest number functions h
  refine hfront fun line' n name hmem hdefines => ?_
  obtain ⟨rfl, -⟩ := Prod.mk.inj (List.mem_singleton.1 hmem)
  exact absurd hdefines (hline name)

/-- An interface is passed over with its block. -/
theorem TakeApart.interface (hopens : opensInterface line = true)
    (h : TakeApart ((rest.dropWhile (isWithin 0)).zipIdx
      (number + 1 + (rest.takeWhile (isWithin 0)).length)) functions) :
    TakeApart ((line :: rest).zipIdx number) functions := by
  have hblock : ∀ line ∈ rest.takeWhile (isWithin 0), isWithin 0 line = true :=
    fun _ => List.mem_takeWhile_imp
  have hrest := (List.takeWhile_append_dropWhile (p := isWithin 0) (l := rest)).symm
  generalize rest.takeWhile (isWithin 0) = block at h hblock hrest
  generalize rest.dropWhile (isWithin 0) = behind at h hrest
  subst hrest
  rw [Nat.add_assoc, Nat.add_comm 1] at h
  have hfront := @TakeApart.prepend (line :: block) behind number functions h
  refine hfront fun line' n name hmem hdefines => ?_
  have hn := List.snd_lt_add_of_mem_zipIdx hmem
  rcases List.mem_cons.1 hmem with heq | hinside
  · obtain ⟨rfl, -⟩ := Prod.mk.inj heq
    simp [hdefines.not_interface] at hopens
  · refine ⟨line, number, by simp, hopens, List.le_snd_of_mem_zipIdx hinside, ?_⟩
    intro inner k hinner hlt hle
    have hinBlock : (inner, k) ∈ (line :: block).zipIdx number :=
      mem_zipIdx_front (hle.trans_lt hn) hinner
    rcases List.mem_cons.1 hinBlock with heq | hinBlock
    · obtain ⟨-, rfl⟩ := Prod.mk.inj heq
      omega
    · have hwithin := hblock inner (List.fst_mem_of_mem_zipIdx hinBlock)
      simpa [isWithin] using hwithin

/-- A function takes its block. -/
theorem TakeApart.functionAt {name : String} (hdefines : Defines line name)
    (decorators : List (List Char))
    (h : TakeApart ((rest.dropWhile (isWithin (indent line))).zipIdx
      (number + 1 + (rest.takeWhile (isWithin (indent line))).length)) functions) :
    TakeApart ((line :: rest).zipIdx number)
      (functionAt number name decorators (rest.takeWhile (isWithin (indent line))) ::
        functions) := by
  have hoccupies := occupies_functionAt hdefines number decorators rest
  obtain ⟨blanks, hblanks, hbody⟩ :=
    exists_append_dropTrailingBlanks (rest.takeWhile (isWithin (indent line)))
  have hsplit : line :: rest = (line :: rest.takeWhile (isWithin (indent line))) ++
      rest.dropWhile (isWithin (indent line)) := by
    rw [List.cons_append, List.takeWhile_append_dropWhile]
  rw [Nat.add_assoc, Nat.add_comm 1] at h
  rw [hsplit] at hoccupies ⊢
  refine TakeApart.cons h hoccupies ?_ fun line' n name' hmem hdefines' => ?_
  · have hlength := congrArg List.length hbody
    simp only [Outline.functionAt, List.length_cons, List.length_append] at hlength ⊢
    omega
  · refine ⟨List.le_snd_of_mem_zipIdx hmem, ?_⟩
    rcases List.mem_cons.1 hmem with heq | hmem
    · obtain ⟨-, rfl⟩ := Prod.mk.inj heq
      exact hoccupies.first_le_last
    · rw [hbody] at hmem
      rcases mem_zipIdx_append.1 hmem with hmem | hmem
      · have := List.snd_lt_add_of_mem_zipIdx hmem
        simp only [Outline.functionAt] at this ⊢
        omega
      · have hblank := hblanks line' (List.fst_mem_of_mem_zipIdx hmem)
        simp [hdefines'.not_blank] at hblank

end Scan

/-- Every way the scan goes on puts lines, or a function with its lines, in front of what it finds
further down. -/
theorem takeApart_functionsFrom (number : Nat) (decorators ls : List (List Char)) :
    TakeApart (ls.zipIdx number) (functionsFrom number decorators ls) := by
  fun_induction functionsFrom number decorators ls with
  | case1 number decorators => exact ⟨nofun, .nil, nofun⟩
  | case2 number decorators line rest hskip ih =>
      refine ih.skip fun name hdefines => ?_
      rcases Bool.or_eq_true _ _ ▸ hskip with hblank | hcomment
      · simp [hdefines.not_blank] at hblank
      · have hstarts := hdefines.startsWith_trim (c := '#') (by decide) []
        simp [isComment, hstarts] at hcomment
  | case3 number decorators line rest hskip hopens hlength ih => exact .interface hopens ih
  | case4 number decorators line rest hskip hopens hdecorator ih =>
      refine ih.skip fun name hdefines => ?_
      have hstarts := hdefines.startsWith_trim (c := '@') (by decide) []
      simp [isDecorator, hstarts] at hdecorator
  | case5 number decorators line rest hskip hopens hdecorator hnone ih =>
      refine ih.skip fun name hdefines => ?_
      rw [definedName?_eq_some_iff.2 hdefines] at hnone
      cases hnone
  | case6 number decorators line rest hskip hopens hdecorator name hname hlength body ih =>
      exact ih.functionAt (definedName?_eq_some_iff.1 hname) decorators

end Outline

end ContractCalls.Vyper
