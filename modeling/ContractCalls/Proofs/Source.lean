/-
# Lines and bytes of a span

The lines of a text are numbered from 1: the first one begins the text, and
every other begins behind a line feed, as many line feeds into the text as its
number tells (`lineStart?_eq_some_iff`).  The line of a byte is the last one
that begins at the byte or in front of it (`le_lineOf_iff`).

So the lines of a span without recorded lines are the fewest that contain its
bytes, and what these lines show contains what the bytes show
(`lineRange?_encloses`).  Line numbers are words of 32 bits.  A text with as
many lines as there are such numbers has no number for the line behind the last
one, and of the lines up to its last one nothing is shown there.
-/
import ContractCalls.Proofs.Text.Blank
import ContractCalls.Proofs.Text.Lines
import ContractCalls.Source

namespace ContractCalls

namespace Text

/-! ## Where lines begin -/

/-- The line with the number begins at the offset. -/
inductive Begins (text : List Char) : (line offset : Nat) → Prop
  | first : Begins text 1 0
  | behind {front rear : List Char} : text = front ++ '\n' :: rear →
      Begins text (front.count '\n' + 2) (byteLength front + 1)

theorem newlineEnds_getElem? {text : List Char} {offset k stop : Nat} :
    (newlineEnds offset text)[k]? = some stop ↔ ∃ front rear, text = front ++ '\n' :: rear ∧
      front.count '\n' = k ∧ offset + (byteLength front + 1) = stop := by
  induction text generalizing offset k with
  | nil => simp [newlineEnds]
  | cons c cs ih =>
      -- The text in front of a line feed is empty or begins as the text does.
      have hfront (P : List Char → Prop) :
          (∃ front rear, c :: cs = front ++ '\n' :: rear ∧ P front) ↔
            (c = '\n' ∧ P []) ∨ ∃ front rear, cs = front ++ '\n' :: rear ∧ P (c :: front) := by
        constructor
        · rintro ⟨_ | ⟨d, front⟩, rear, h, hP⟩
          · exact .inl ⟨(List.cons.inj h).1, hP⟩
          · obtain ⟨rfl, rfl⟩ := List.cons.inj h
            exact .inr ⟨front, rear, rfl, hP⟩
        · rintro (⟨rfl, hP⟩ | ⟨front, rear, rfl, hP⟩)
          · exact ⟨[], cs, rfl, hP⟩
          · exact ⟨c :: front, rear, rfl, hP⟩
      rw [hfront, newlineEnds]
      by_cases hc : c = '\n'
      · subst hc
        cases k with
        | zero => simp [show '\n'.utf8Size = 1 from rfl]
        | succ k => simp [ih, Nat.add_assoc]
      · simp [hc, ih, Nat.add_assoc]

/-- The numbers 0 and 1 both stand for the first line. -/
theorem lineStart?_eq_some_iff {text : List Char} {line offset : Nat} :
    lineStart? text line = some offset ↔ Begins text (max line 1) offset := by
  rw [lineStart?]
  split
  · next hle =>
      rw [Nat.max_eq_right hle]
      constructor
      · intro h
        obtain rfl := Option.some.inj h
        exact .first
      · rintro ⟨⟩
        rfl
  · next hlt =>
      obtain ⟨k, rfl⟩ := Nat.exists_eq_add_of_lt (Nat.lt_of_not_le hlt)
      rw [Nat.max_eq_left (by omega), show 1 + k + 1 - 2 = k by omega, newlineEnds_getElem?]
      constructor
      · rintro ⟨front, rear, htext, rfl, rfl⟩
        rw [Nat.zero_add, Nat.add_right_comm, Nat.add_comm (1 + 1)]
        exact .behind htext
      · generalize hline : 1 + k + 1 = line
        intro h
        cases h with
        | first => omega
        | @behind front rear htext => exact ⟨front, rear, htext, by omega, Nat.zero_add _⟩

/-- The offset of a line that does not begin is the end of the text. -/
theorem lineOffset_eq_iff {text : List Char} {line offset : Nat} :
    lineOffset text line = offset ↔ Begins text (max line 1) offset ∨
      (∀ k, ¬ Begins text (max line 1) k) ∧ offset = byteLength text := by
  simp only [← lineStart?_eq_some_iff]
  cases hstart : lineStart? text line with
  | none => simp [lineOffset, hstart, eq_comm]
  | some k => simp [lineOffset, hstart]

/-! ## The line of a byte -/

theorem lt_of_mem_newlineEnds {text : List Char} {offset stop : Nat}
    (h : stop ∈ newlineEnds offset text) : offset < stop := by
  obtain ⟨k, hk⟩ := List.mem_iff_getElem?.1 h
  obtain ⟨front, rear, -, -, rfl⟩ := newlineEnds_getElem?.1 hk
  omega

theorem pairwise_newlineEnds (offset : Nat) (text : List Char) :
    (newlineEnds offset text).Pairwise (· < ·) := by
  fun_induction newlineEnds offset text with
  | case1 => exact .nil
  | case2 offset cs next ih => exact ih.cons fun _ => lt_of_mem_newlineEnds
  | case3 offset c cs next hc ih => exact ih

/-- Of an ascending list, the elements up to a bound are in front. -/
theorem lt_countP_le_iff {l : List Nat} (h : l.Pairwise (· < ·)) {bound k : Nat} :
    k < l.countP (· ≤ bound) ↔ ∃ x, l[k]? = some x ∧ x ≤ bound := by
  induction h generalizing k with
  | nil => simp
  | @cons x l hx _ ih =>
      by_cases hbound : x ≤ bound
      · cases k <;> simp [hbound, ih]
      · have habove : ∀ y ∈ x :: l, ¬ y ≤ bound := by
          intro y hy
          rcases List.mem_cons.1 hy with rfl | hy
          · exact hbound
          · exact fun hle => hbound ((hx y hy).le.trans hle)
        rw [List.countP_eq_zero.2 (by simpa using habove)]
        exact iff_of_false (Nat.not_lt_zero k) fun ⟨y, hy, hle⟩ =>
          habove y (List.mem_of_getElem? hy) hle

section Byte

variable {text : List Char} {offset : Nat}

/-- The line of a byte is the last one that begins at the byte or in front of it. -/
theorem le_lineOf_iff (h : offset < byteLength text) {line : Nat} :
    line ≤ lineOf text offset ↔ lineOffset text line ≤ offset := by
  rw [lineOffset, lineStart?, lineOf]
  split
  · next hle => simp [Nat.le_add_left_of_le hle]
  · next hlt =>
      obtain ⟨k, rfl⟩ := Nat.exists_eq_add_of_lt (Nat.lt_of_not_le hlt)
      rw [show 1 + k + 1 - 2 = k by omega, Nat.add_comm 1 k, Nat.add_le_add_iff_right,
        Nat.succ_le_iff, lt_countP_le_iff (pairwise_newlineEnds 0 text)]
      cases (newlineEnds 0 text)[k]? with
      | none => simp [h]
      | some stop => simp

theorem lineOf_pos : 0 < lineOf text offset := Nat.succ_pos _

theorem exists_begins_lineOf (h : offset < byteLength text) :
    ∃ k, Begins text (lineOf text offset) k ∧ k ≤ offset := by
  have hle := (le_lineOf_iff h).1 (Nat.le_refl _)
  cases hstart : lineStart? text (lineOf text offset) with
  | none =>
      rw [lineOffset, hstart, Option.getD_none] at hle
      omega
  | some k =>
      rw [lineOffset, hstart, Option.getD_some] at hle
      rw [lineStart?_eq_some_iff, Nat.max_eq_left lineOf_pos] at hstart
      exact ⟨k, hstart, hle⟩

theorem lt_lineOffset_succ (h : offset < byteLength text) :
    offset < lineOffset text (lineOf text offset + 1) := by
  rw [← Nat.not_le, ← le_lineOf_iff h]
  exact Nat.not_succ_le_self _

theorem lineOf_le_length (h : offset < byteLength text) :
    lineOf text offset ≤ (lines text).length := by
  have hle := (le_lineOf_iff h).1 (Nat.le_refl _)
  rw [lineOffset_eq] at hle
  rw [length_lines]
  by_contra hlt
  rw [List.take_of_length_le (by omega), flatten_endedLines] at hle
  omega

end Byte

/-! ## The lines of a range of bytes -/

/-- The lines from `first` to `last` are the fewest that contain the bytes from `start` up to
`stop`. -/
structure Encloses (text : List Char) (start stop first last : Nat) : Prop where
  first_le_last : first ≤ last
  last_le_length : last ≤ (lines text).length
  /-- The first byte is on the first line. -/
  first_begins : ∃ k, Begins text first k ∧ k ≤ start
  first_ends : start < lineOffset text (first + 1)
  /-- The last byte is on the last line. -/
  last_begins : ∃ k, Begins text last k ∧ k < stop
  last_ends : stop ≤ lineOffset text (last + 1)
  /-- Any lines that contain the bytes are at least these. -/
  least : ∀ c d, lineOffset text c ≤ start → stop ≤ lineOffset text (d + 1) → c ≤ first ∧ last ≤ d

theorem encloses_lineOf {text : List Char} {start stop : Nat} (hlt : start < stop)
    (hstop : stop ≤ byteLength text) :
    Encloses text start stop (lineOf text start) (lineOf text (stop - 1)) where
  first_le_last := by
    rw [le_lineOf_iff (by omega)]
    have hle := (le_lineOf_iff (hlt.trans_le hstop)).1 (Nat.le_refl _)
    omega
  last_le_length := lineOf_le_length (by omega)
  first_begins := exists_begins_lineOf (by omega)
  first_ends := lt_lineOffset_succ (by omega)
  last_begins := by
    obtain ⟨k, hbegins, hle⟩ := exists_begins_lineOf (show stop - 1 < byteLength text by omega)
    exact ⟨k, hbegins, by omega⟩
  last_ends := by
    have hlt := lt_lineOffset_succ (show stop - 1 < byteLength text by omega)
    omega
  least c d hc hd := by
    refine ⟨(le_lineOf_iff (by omega)).2 hc, ?_⟩
    rw [← Nat.lt_succ_iff, ← Nat.not_le, Nat.succ_eq_add_one, le_lineOf_iff (by omega)]
    omega

/-- Of two slices, that with the wider bounds contains the other. -/
theorem infix_of_slice? {text word whole : List Char} {start stop first last : Nat}
    (hword : slice? text start stop = some word) (hwhole : slice? text first last = some whole)
    (hfirst : first ≤ start) (hlast : stop ≤ last) : word <:+: whole := by
  obtain ⟨hle, front, rear, htext, hfront, hlength⟩ := slice?_eq_some_iff.1 hword
  obtain ⟨hle', front', rear', htext', hfront', hlength'⟩ := slice?_eq_some_iff.1 hwhole
  have hcut : front' ++ (whole ++ rear') = front ++ (word ++ rear) := by
    rw [← List.append_assoc, ← List.append_assoc, ← htext, ← htext']
  obtain ⟨before, rfl, hbefore⟩ := exists_of_byteLength_le hcut (by omega)
  rw [← List.append_assoc] at hbefore
  obtain ⟨behind, rfl, -⟩ := exists_of_byteLength_le hbefore.symm (by
    rw [byteLength_append] at hfront ⊢
    omega)
  exact ⟨before, behind, rfl⟩

end Text

open Text

namespace SourceFiles

variable {files : SourceFiles} {span : Span} {source : String}

/-- A span without recorded lines shows its bytes alone. -/
theorem slice?_of_snippet? {word : String} (htext : files.get? span.file = some source)
    (hrecorded : span.lines = none) (hword : files.snippet? span = some word) :
    slice? source.toList span.start span.stop = some word.toList := by
  simp only [snippet?, htext, hrecorded, Option.bind_eq_bind, Option.bind_some] at hword
  split at hword
  · next found hfound =>
      obtain ⟨hslice, -⟩ := Option.filter_eq_some_iff.1 hfound
      rw [hslice, ← Option.some.inj hword, String.toList_ofList]
  · cases hword

/-- What is shown of whole lines is their text without the line feeds at its end. -/
theorem lineSnippet?_eq {text : List Char} {first last k : Nat} (hbegins : Begins text first k)
    (hle : first ≤ last) (hlast : last + 1 < 2 ^ 32) :
    lineSnippet? text first last = some (dropRight (· == '\n') (textOfLines text first last)) := by
  have hpos : 1 ≤ first := by cases hbegins <;> omega
  rw [← Nat.max_eq_left hpos] at hbegins
  have hoffset : lineOffset text first = k := lineOffset_eq_iff.2 (.inl hbegins)
  have hnext : nextLine last = last + 1 := Nat.mod_eq_of_lt hlast
  have hslice := slice?_lineOffset text hle
  rw [hoffset, lineOffset] at hslice
  simp [lineSnippet?, lineStart?_eq_some_iff.2 hbegins, hnext, hslice]

/-- A span of no bytes shows its lines. -/
theorem snippet?_of_lines {first last : Nat} {shown : List Char}
    (htext : files.get? span.file = some source) (hlength : span.length = 0)
    (hlines : span.lines = some (first, last))
    (hshown : lineSnippet? source.toList first last = some shown) :
    files.snippet? span = some (String.ofList shown) := by
  have hnone : (slice? source.toList span.start span.stop).filter (fun _ => 0 < span.length) =
      none := by
    simp [hlength]
  simp only [snippet?, htext, hnone, hlines, hshown, Option.bind_eq_bind, Option.bind_some]
  rfl

/-- The lines of a span without recorded lines are the fewest that contain its bytes, and they show
what the bytes show, up to line feeds at the end, as long as the line behind them has a number too.
Lines are looked up where they begin. -/
theorem lineRange?_encloses (htext : files.get? span.file = some source)
    (hcount : (lines source.toList).length < 2 ^ 32) (hsize : byteLength source.toList < maxWord)
    (hlength : 0 < span.length) (hrecorded : span.lines = none)
    (hstop : span.stop ≤ byteLength source.toList) :
    (∃ first last, files.lineRange? span = some (first, last) ∧ last < 2 ^ 32 ∧
      Encloses source.toList span.start span.stop first last ∧
      (last + 1 < 2 ^ 32 → ∀ start, ∃ shown,
        files.snippet? ⟨span.file, start, 0, some (first, last)⟩ = some (String.ofList shown) ∧
        shown = dropRight (· == '\n') (textOfLines source.toList first last) ∧
        ∀ word, files.snippet? span = some word →
          dropRight (· == '\n') word.toList <:+: shown)) ∧
    ∀ line offset, (lineStart? source.toList line = some offset ↔
        Begins source.toList (max line 1) offset) ∧
      (lineOffset source.toList line = offset ↔ Begins source.toList (max line 1) offset ∨
        (∀ k, ¬ Begins source.toList (max line 1) k) ∧ offset = byteLength source.toList) := by
  refine ⟨?_, fun line offset => ⟨lineStart?_eq_some_iff, lineOffset_eq_iff⟩⟩
  have hlt : span.start < span.stop := by
    unfold Span.stop at hstop ⊢
    omega
  have hencloses := encloses_lineOf hlt hstop
  refine ⟨_, _, ?_, hencloses.last_le_length.trans_lt hcount, hencloses, ?_⟩
  · rw [lineRange?, hrecorded]
    simp only [htext, Option.bind_eq_bind, Option.bind_some]
    rw [if_neg (Nat.not_lt.2 hstop), Nat.max_eq_left (Nat.le_sub_one_of_lt hlt)]
    rfl
  · intro hlast start
    obtain ⟨k, hbegins, hk⟩ := hencloses.first_begins
    have hshown := lineSnippet?_eq hbegins hencloses.first_le_last hlast
    refine ⟨_, snippet?_of_lines htext rfl rfl hshown, rfl, fun word hword => ?_⟩
    have hslice := slice?_of_snippet? htext hrecorded hword
    have hfirst : lineOffset source.toList (lineOf source.toList span.start) ≤ span.start :=
      (le_lineOf_iff (hlt.trans_le hstop)).1 (Nat.le_refl _)
    exact infix_dropRight _ (infix_of_slice? hslice
      (slice?_lineOffset source.toList hencloses.first_le_last) hfirst hencloses.last_ends)

end SourceFiles

/-- Three bytes, the last of the first line and the first of the third one among them. -/
def feedsSpan : Span := .bytes "Feeds.vy" 1 3

def feedsFiles : SourceFiles := .insert .empty "Feeds.vy" "a\n\nbc\n"

theorem feedsSpan_encloses :
    feedsFiles.snippet? feedsSpan = some "\n\nb" ∧ feedsFiles.lineRange? feedsSpan = some (1, 3) ∧
      Encloses "a\n\nbc\n".toList 1 4 1 3 ∧
      ∃ shown, feedsFiles.snippet? ⟨"Feeds.vy", 0, 0, some (1, 3)⟩ = some (String.ofList shown) ∧
        shown = "a\n\nbc".toList ∧ "\n\nb".toList <:+: shown := by
  have hrange : feedsFiles.lineRange? feedsSpan = some (1, 3) := by decide
  have hsnippet : feedsFiles.snippet? feedsSpan = some "\n\nb" := by decide
  obtain ⟨⟨first, last, hlines, -, hencloses, hshown⟩, -⟩ :=
    @SourceFiles.lineRange?_encloses feedsFiles feedsSpan "a\n\nbc\n" (by decide) (by decide)
      (by decide) (by decide) rfl (by decide)
  obtain ⟨rfl, rfl⟩ : first = 1 ∧ last = 3 := by simpa [hrange, eq_comm] using hlines
  obtain ⟨shown, hshown, rfl, hword⟩ := hshown (by decide) 0
  exact ⟨hsnippet, hrange, hencloses, _, hshown, by decide, hword _ hsnippet⟩

end ContractCalls
