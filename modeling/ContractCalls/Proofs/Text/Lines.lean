/-
# Slices and lines

A slice that exists cuts the text in three; the bytes in front of it and in it
are counted by its bounds.  The lines of a text, joined by line feeds, are the
text with its line ends made uniform: a carriage return in front of a line feed
is dropped, and all else stays.

The byte offset of a line is what the lines in front of it take, line ends
included.
-/
import ContractCalls.Text.Lines
import Mathlib.Algebra.GroupWithZero.Nat
import Mathlib.Data.List.Basic

namespace ContractCalls.Text

/-! ## Bytes -/

theorem byteLength_eq_sum (cs : List Char) : byteLength cs = (cs.map Char.utf8Size).sum := by
  have hfold (n : Nat) (cs : List Char) :
      cs.foldl (fun n c => n + c.utf8Size) n = n + (cs.map Char.utf8Size).sum := by
    induction cs generalizing n with
    | nil => rfl
    | cons c cs ih => rw [List.foldl_cons, ih, List.map_cons, List.sum_cons, Nat.add_assoc]
  rw [byteLength, hfold, Nat.zero_add]

@[simp] theorem byteLength_nil : byteLength [] = 0 := rfl

@[simp] theorem byteLength_cons (c : Char) (cs : List Char) :
    byteLength (c :: cs) = c.utf8Size + byteLength cs := by
  simp [byteLength_eq_sum]

@[simp] theorem byteLength_append (xs ys : List Char) :
    byteLength (xs ++ ys) = byteLength xs + byteLength ys := by
  simp [byteLength_eq_sum]

/-- A text of no bytes is empty. -/
theorem eq_nil_of_byteLength {cs : List Char} (h : byteLength cs = 0) : cs = [] := by
  cases cs with
  | nil => rfl
  | cons c cs =>
      have hpos := c.utf8Size_pos
      rw [byteLength_cons] at h
      omega

/-- Of two cuts of one text, the one with fewer bytes in front has less in front. -/
theorem exists_of_byteLength_le {xs ys xs' ys' : List Char} (h : xs ++ ys = xs' ++ ys')
    (hle : byteLength xs ≤ byteLength xs') : ∃ mid, xs' = xs ++ mid ∧ ys = mid ++ ys' := by
  rcases List.append_eq_append_iff.1 h with ⟨mid, rfl, rfl⟩ | ⟨mid, rfl, rfl⟩
  · exact ⟨mid, rfl, rfl⟩
  · obtain rfl : mid = [] := eq_nil_of_byteLength (by rw [byteLength_append] at hle; omega)
    exact ⟨[], by simp, by simp⟩

theorem dropBytes?_append (front rest : List Char) :
    dropBytes? (byteLength front) (front ++ rest) = some rest := by
  induction front with
  | nil => rw [byteLength_nil, List.nil_append, dropBytes?]
  | cons c front ih =>
      obtain ⟨k, hk⟩ : ∃ k, c.utf8Size + byteLength front = k + 1 :=
        ⟨c.utf8Size - 1 + byteLength front, by have := c.utf8Size_pos; omega⟩
      rw [byteLength_cons, List.cons_append, hk, dropBytes?, if_pos (by omega), ← hk,
        Nat.add_sub_cancel_left, ih]

theorem takeBytes?_append (front rest : List Char) :
    takeBytes? (byteLength front) (front ++ rest) = some front := by
  induction front with
  | nil => rw [byteLength_nil, takeBytes?]
  | cons c front ih =>
      obtain ⟨k, hk⟩ : ∃ k, c.utf8Size + byteLength front = k + 1 :=
        ⟨c.utf8Size - 1 + byteLength front, by have := c.utf8Size_pos; omega⟩
      rw [byteLength_cons, List.cons_append, hk, takeBytes?, if_pos (by omega), ← hk,
        Nat.add_sub_cancel_left, ih, Option.map_some]

theorem of_dropBytes? {n : Nat} {text rest : List Char} (h : dropBytes? n text = some rest) :
    ∃ front, text = front ++ rest ∧ byteLength front = n := by
  fun_induction dropBytes? n text with
  | case1 cs => exact ⟨[], Option.some.inj h, rfl⟩
  | case2 n => cases h
  | case3 n c cs hle ih =>
      obtain ⟨front, rfl, hfront⟩ := ih h
      exact ⟨c :: front, rfl, by rw [byteLength_cons]; omega⟩
  | case4 n c cs hle => cases h

theorem of_takeBytes? {n : Nat} {text front : List Char} (h : takeBytes? n text = some front) :
    ∃ rest, text = front ++ rest ∧ byteLength front = n := by
  fun_induction takeBytes? n text generalizing front with
  | case1 cs => exact ⟨cs, by rw [← Option.some.inj h]; rfl, by rw [← Option.some.inj h]; rfl⟩
  | case2 n => cases h
  | case3 n c cs hle ih =>
      obtain ⟨front', hfront', rfl⟩ := Option.map_eq_some_iff.1 h
      obtain ⟨rest, rfl, hlength⟩ := ih hfront'
      exact ⟨rest, rfl, by rw [byteLength_cons]; omega⟩
  | case4 n c cs hle => cases h

/-- A slice cuts the text in three. -/
theorem slice?_eq_some_iff {text word : List Char} {start stop : Nat} :
    slice? text start stop = some word ↔
      start ≤ stop ∧ ∃ front rear, text = front ++ word ++ rear ∧ byteLength front = start ∧
        byteLength word = stop - start := by
  unfold slice?
  constructor
  · intro h
    split at h
    · cases h
    · obtain ⟨rest, hrest, hword⟩ := Option.bind_eq_some_iff.1 h
      obtain ⟨front, rfl, hfront⟩ := of_dropBytes? hrest
      obtain ⟨rear, rfl, hlength⟩ := of_takeBytes? hword
      exact ⟨by omega, front, rear, by rw [List.append_assoc], hfront, hlength⟩
  · rintro ⟨hle, front, rear, rfl, rfl, hlength⟩
    rw [if_neg (by omega), List.append_assoc, dropBytes?_append, Option.bind_some, ← hlength,
      takeBytes?_append]

/-! ## Uniform line ends -/

/-- The text with every carriage return in front of a line feed dropped. -/
def unified : List Char → List Char
  | [] => []
  | '\r' :: '\n' :: cs => '\n' :: unified cs
  | c :: cs => c :: unified cs

/-- What ends a line: a line feed, or a carriage return and a line feed.  A line that a line feed
alone ends does not end in a carriage return. -/
def Closes (line ending : List Char) : Prop :=
  ending = ['\n'] ∧ line.getLast? ≠ some '\r' ∨ ending = ['\r', '\n']

/-- The text cut into its lines; the last one may lack an end. -/
inductive Lined : List Char → List (List Char) → Prop
  | none : Lined [] []
  | last {line : List Char} : line ≠ [] → '\n' ∉ line → Lined line [line]
  | line {line ending rest : List Char} {ls : List (List Char)} : '\n' ∉ line →
      Closes line ending → Lined rest ls → Lined (line ++ (ending ++ rest)) (line :: ls)

theorem Lined.eq_nil {text : List Char} (h : Lined text []) : text = [] := by
  cases h
  rfl

/-- The lines of a text that starts with another character of its first line. -/
theorem Lined.cons {c : Char} {text line : List Char} {ls : List (List Char)}
    (h : Lined text (line :: ls)) (hc : c ≠ '\n')
    (hfeed : ∀ rest, c = '\r' → text ≠ '\n' :: rest) : Lined (c :: text) ((c :: line) :: ls) := by
  cases h with
  | last hne hline => exact .last (by simp) (by simp [hc.symm, hline])
  | @line _ ending rest _ hline hending hrest =>
      refine @Lined.line (c :: line) ending rest _ (by simp [hc.symm, hline]) ?_ hrest
      rcases hending with ⟨rfl, hlast⟩ | rfl
      · refine .inl ⟨rfl, ?_⟩
        cases line with
        | nil =>
            intro hreturn
            exact hfeed rest (by simpa using hreturn) rfl
        | cons d line => simpa [List.getLast?_cons] using hlast
      · exact .inr rfl

theorem lined_lines (text : List Char) : Lined text (lines text) := by
  fun_induction lines text with
  | case1 => exact .none
  | case2 cs ih => exact @Lined.line [] _ cs _ (by simp) (.inr rfl) ih
  | case3 cs _ ih => exact @Lined.line [] _ cs _ (by simp) (.inl ⟨rfl, by simp⟩) ih
  | case4 c cs hfirst hc hnone ih =>
      rw [hnone] at ih
      obtain rfl := ih.eq_nil
      exact .last (by simp) (by simpa using Ne.symm hc)
  | case5 c cs hfirst hc line rest hlines ih =>
      rw [hlines] at ih
      exact ih.cons hc fun rest hreturn htext => hfirst rest hreturn htext

theorem Lined.eq_nil_iff {text : List Char} {ls : List (List Char)} (h : Lined text ls) :
    text = [] ↔ ls = [] := by
  cases h with
  | none => simp
  | last hne _ => simp [hne]
  | line _ hending _ => rcases hending with ⟨rfl, -⟩ | rfl <;> simp

/-- Only a carriage return in front of a line feed is dropped. -/
theorem unified_cons {c : Char} {cs : List Char} (h : c = '\r' → cs.head? ≠ some '\n') :
    unified (c :: cs) = c :: unified cs := by
  rw [unified]
  rintro rest rfl rfl
  exact h rfl rfl

theorem unified_ending {line ending : List Char} (hending : Closes line ending) (rest : List Char) :
    unified (ending ++ rest) = '\n' :: unified rest := by
  rcases hending with ⟨rfl, -⟩ | rfl
  · exact unified_cons nofun
  · rfl

/-- What ends a line ends every part of it that lacks beginnings only. -/
theorem Closes.tail {c : Char} {line ending : List Char} (h : Closes (c :: line) ending) :
    Closes line ending := by
  rcases h with ⟨rfl, hlast⟩ | rfl
  · refine .inl ⟨rfl, fun hreturn => hlast ?_⟩
    rw [List.getLast?_cons, hreturn, Option.getD_some]
  · exact .inr rfl

/-- A carriage return in a line does not stand in front of a line feed. -/
theorem Closes.head_ne {c : Char} {line ending : List Char} (h : Closes (c :: line) ending)
    (hline : '\n' ∉ line) (rest : List Char) (hc : c = '\r') :
    (line ++ (ending ++ rest)).head? ≠ some '\n' := by
  subst hc
  cases line with
  | nil =>
      rcases h with ⟨rfl, hlast⟩ | rfl
      · exact absurd rfl hlast
      · simp
  | cons d line =>
      intro hfeed
      exact hline (Option.some.inj hfeed ▸ List.mem_cons_self)

theorem unified_line {line ending : List Char} (hline : '\n' ∉ line) (hending : Closes line ending)
    (rest : List Char) : unified (line ++ (ending ++ rest)) = line ++ '\n' :: unified rest := by
  induction line with
  | nil => exact unified_ending hending rest
  | cons c line ih =>
      have hbehind : '\n' ∉ line := fun hmem => hline (List.mem_cons_of_mem c hmem)
      rw [List.cons_append, unified_cons (hending.head_ne hbehind rest), ih hbehind hending.tail,
        List.cons_append]

/-- A text of one line has no line end to change. -/
theorem unified_of_not_mem {text : List Char} (h : '\n' ∉ text) : unified text = text := by
  induction text with
  | nil => rfl
  | cons c text ih =>
      have htext : '\n' ∉ text := fun hmem => h (List.mem_cons_of_mem c hmem)
      rw [unified_cons, ih htext]
      exact fun _ hfeed => htext (List.mem_of_head? hfeed)

/-- A text without carriage returns has uniform line ends. -/
theorem unified_of_no_return {text : List Char} (h : '\r' ∉ text) : unified text = text := by
  induction text with
  | nil => rfl
  | cons c text ih =>
      rw [List.mem_cons, not_or] at h
      rw [unified_cons fun hc => absurd hc.symm h.1, ih h.2]

/-! ## The lines are determined -/

theorem lines_cons {c : Char} {cs line : List Char} {ls : List (List Char)} (hc : c ≠ '\n')
    (hreturn : c = '\r' → cs.head? ≠ some '\n') (h : lines cs = line :: ls) :
    lines (c :: cs) = (c :: line) :: ls := by
  rw [lines, if_neg hc, h]
  rintro rest rfl rfl
  exact hreturn rfl rfl

theorem lines_line {line ending : List Char} (hline : '\n' ∉ line) (hending : Closes line ending)
    (rest : List Char) : lines (line ++ (ending ++ rest)) = line :: lines rest := by
  induction line with
  | nil => rcases hending with ⟨rfl, -⟩ | rfl <;> simp [lines]
  | cons c line ih =>
      rw [List.mem_cons, not_or] at hline
      exact lines_cons (Ne.symm hline.1) (hending.head_ne hline.2 rest) (ih hline.2 hending.tail)

theorem lines_last {line : List Char} (hne : line ≠ []) (hline : '\n' ∉ line) :
    lines line = [line] := by
  induction line with
  | nil => exact absurd rfl hne
  | cons c line ih =>
      rw [List.mem_cons, not_or] at hline
      cases line with
      | nil => simp [lines, Ne.symm hline.1]
      | cons d line =>
          refine lines_cons (Ne.symm hline.1) (fun _ hfeed => hline.2 ?_) (ih (by simp) hline.2)
          exact List.mem_of_head? hfeed

/-- A line is a part of the text without a line feed. -/
theorem Lined.of_mem {text line : List Char} {ls : List (List Char)} (h : Lined text ls)
    (hmem : line ∈ ls) : '\n' ∉ line ∧ line ⊆ text := by
  induction h with
  | none => cases hmem
  | last hne hline =>
      obtain rfl := List.mem_singleton.1 hmem
      exact ⟨hline, List.Subset.refl _⟩
  | line hline _ _ ih =>
      rcases List.mem_cons.1 hmem with rfl | hmem
      · exact ⟨hline, List.subset_append_left ..⟩
      · obtain ⟨hfeed, hsubset⟩ := ih hmem
        exact ⟨hfeed, fun c hc => by simp [hsubset hc]⟩

/-- A text is cut into lines in one way only. -/
theorem Lined.lines_eq {text : List Char} {ls : List (List Char)} (h : Lined text ls) :
    lines text = ls := by
  induction h with
  | none => rfl
  | last hne hline => exact lines_last hne hline
  | line hline hending _ ih => rw [lines_line hline hending, ih]

/-! ## Lines joined -/

/-- The lines joined by line feeds, with one more for a text that ends in one. -/
def joined (text : List Char) (ls : List (List Char)) : List Char :=
  ['\n'].intercalate ls ++ if text.getLast? = some '\n' then ['\n'] else []

/-- The first line may be another one than that of the text. -/
theorem joined_cons {line ending rest : List Char} {ls : List (List Char)}
    (hending : Closes line ending) (hls : rest = [] ↔ ls = []) (first : List Char) :
    joined (line ++ (ending ++ rest)) (first :: ls) = first ++ '\n' :: joined rest ls := by
  have hfeed : ending.getLast? = some '\n' := by rcases hending with ⟨rfl, -⟩ | rfl <;> rfl
  unfold joined
  rw [List.getLast?_append, List.getLast?_append, hfeed]
  cases ls with
  | nil =>
      obtain rfl := hls.2 rfl
      simp
  | cons l ls =>
      obtain ⟨last, hlast⟩ : ∃ last, rest.getLast? = some last :=
        Option.ne_none_iff_exists'.1 fun hnone =>
          List.cons_ne_nil l ls (hls.1 (List.getLast?_eq_none_iff.1 hnone))
      simp [List.intercalate_cons_cons, hlast]

theorem joined_last {line : List Char} (h : '\n' ∉ line) (first : List Char) :
    joined line [first] = first := by
  have hlast : line.getLast? ≠ some '\n' := fun hfeed => h (List.mem_of_getLast? hfeed)
  simp [joined, hlast]

/-- The lines of a text, joined, are the text with uniform line ends. -/
theorem Lined.joined_eq {text : List Char} {ls : List (List Char)} (h : Lined text ls) :
    joined text ls = unified text := by
  induction h with
  | none => rfl
  | last _ hline => rw [joined_last hline, unified_of_not_mem hline]
  | line hline hending hrest ih =>
      rw [joined_cons hending hrest.eq_nil_iff, ih, unified_line hline hending]

/-- Where a line is replaced in a text without carriage returns, the lines are the old ones around
the new one, and the text ends as before. -/
theorem Lined.replace {text line new : List Char} {front rear : List (List Char)}
    (h : Lined text (front ++ line :: rear)) (hreturn : '\r' ∉ text) (hne : new ≠ [])
    (hfeed : '\n' ∉ new) (hnew : '\r' ∉ new) :
    Lined (joined text (front ++ new :: rear)) (front ++ new :: rear) ∧
      ((joined text (front ++ new :: rear)).getLast? = some '\n' ↔ text.getLast? = some '\n') := by
  have hplain {line : List Char} (h : '\r' ∉ line) : Closes line ['\n'] :=
    .inl ⟨rfl, fun hlast => h (List.mem_of_getLast? hlast)⟩
  generalize hls : front ++ line :: rear = ls at h
  induction h generalizing front with
  | none => simp at hls
  | @last last hlast hlastFeed =>
      obtain ⟨rfl, rfl, rfl⟩ : front = [] ∧ line = last ∧ rear = [] := by
        rcases List.append_eq_singleton_iff.1 hls with ⟨rfl, h⟩ | ⟨-, h⟩
        · exact ⟨rfl, List.cons.inj h⟩
        · cases h
      rw [List.nil_append, joined_last hlastFeed]
      exact ⟨.last hne hfeed, iff_of_false (fun h => hfeed (List.mem_of_getLast? h))
        fun h => hlastFeed (List.mem_of_getLast? h)⟩
  | @line first ending rest ls hfirst hending hrest ih =>
      have hrestReturn : '\r' ∉ rest := fun hmem => hreturn (by simp [hmem])
      have hfirstReturn : '\r' ∉ first := fun hmem => hreturn (by simp [hmem])
      have hlast : ending.getLast? = some '\n' := by rcases hending with ⟨rfl, -⟩ | rfl <;> rfl
      cases front with
      | nil =>
          obtain ⟨rfl, rfl⟩ := List.cons.inj hls
          rw [List.nil_append, joined_cons hending hrest.eq_nil_iff, hrest.joined_eq,
            unified_of_no_return hrestReturn]
          refine ⟨.line hfeed (hplain hnew) hrest, ?_⟩
          simp [List.getLast?_append, hlast, List.getLast?_cons]
      | cons l front =>
          obtain ⟨rfl, htail⟩ := List.cons.inj hls
          obtain ⟨hlined, hends⟩ := ih hrestReturn htail
          have hjoined : joined rest (front ++ new :: rear) ≠ [] := fun hnil => by
            have := hlined.eq_nil_iff.1 hnil
            simp at this
          have hrestNe : rest ≠ [] := fun hnil => by
            have := hrest.eq_nil_iff.1 hnil
            simp [← htail] at this
          rw [List.cons_append, joined_cons hending (by simp [hrestNe])]
          refine ⟨.line hfirst (hplain hfirstReturn) hlined, ?_⟩
          rw [List.append_cons, List.getLast?_append_of_ne_nil _ hjoined, ← List.append_assoc,
            List.getLast?_append_of_ne_nil _ hrestNe]
          exact hends

/-! ## Lines with their ends -/

/-- The lines of a text with their line ends: the text cut behind every line feed. -/
def endedLines : List Char → List (List Char)
  | [] => []
  | c :: cs =>
      if c = '\n' then [c] :: endedLines cs
      else match endedLines cs with
        | [] => [[c]]
        | line :: rest => (c :: line) :: rest

/-- A line without the line feed it ends in, or the carriage return and line feed. -/
def withoutEnd : List Char → List Char
  | [] => []
  | ['\n'] => []
  | ['\r', '\n'] => []
  | c :: cs => c :: withoutEnd cs

@[simp] theorem flatten_endedLines (text : List Char) : (endedLines text).flatten = text := by
  fun_induction endedLines text with
  | case1 => rfl
  | case2 cs ih => rw [List.flatten_cons, ih, List.singleton_append]
  | case3 c cs hc hnone ih => simpa [hnone] using ih
  | case4 c cs hc line rest hlines ih => simpa [hlines] using ih

theorem endedLines_ne_nil (c : Char) (cs : List Char) : endedLines (c :: cs) ≠ [] := by
  intro hnil
  have hflatten := flatten_endedLines (c :: cs)
  rw [hnil] at hflatten
  cases hflatten

/-- The lines of a text are its lines with their ends, without the ends. -/
theorem lines_eq_map (text : List Char) : lines text = (endedLines text).map withoutEnd := by
  fun_induction lines text with
  | case1 => rfl
  | case2 cs ih => simpa [endedLines, withoutEnd] using ih
  | case3 cs _ ih => simpa [endedLines, withoutEnd] using ih
  | case4 c cs hfirst hc hnone ih =>
      obtain rfl : cs = [] := by
        cases cs with
        | nil => rfl
        | cons d ds => simp [hnone, endedLines_ne_nil] at ih
      simp [endedLines, hc, withoutEnd]
  | case5 c cs hfirst hc line rest hlines ih =>
      cases hended : endedLines cs with
      | nil => simp [hended, hlines] at ih
      | cons ended others =>
          have hflatten := flatten_endedLines cs
          rw [hended, List.flatten_cons] at hflatten
          rw [hlines, hended, List.map_cons, List.cons.injEq] at ih
          have hwithout : withoutEnd (c :: ended) = c :: withoutEnd ended := by
            rw [withoutEnd]
            · rintro rfl rfl
              exact hc rfl
            · rintro rfl rfl
              exact hfirst _ rfl hflatten.symm
          rw [endedLines, if_neg hc, hended]
          rw [List.map_cons, hwithout, ih.1, ih.2]

theorem length_lines (text : List Char) : (lines text).length = (endedLines text).length := by
  rw [lines_eq_map, List.length_map]

/-- The end of a line, or of the text, is where its lines up to there end. -/
theorem newlineEnds_getD (text : List Char) (offset k : Nat) :
    ((newlineEnds offset text)[k]?).getD (offset + byteLength text) =
      offset + byteLength ((endedLines text).take (k + 1)).flatten := by
  fun_induction endedLines text generalizing offset k with
  | case1 => simp [newlineEnds]
  | case2 cs ih =>
      cases k with
      | zero => simp [newlineEnds]
      | succ k => simpa [newlineEnds, Nat.add_assoc] using ih (offset + '\n'.utf8Size) k
  | case3 c cs hc hnone ih =>
      simpa [newlineEnds, hc, hnone, Nat.add_assoc] using ih (offset + c.utf8Size) k
  | case4 c cs hc line rest hlines ih =>
      simpa [newlineEnds, hc, hlines, Nat.add_assoc] using ih (offset + c.utf8Size) k

/-- In front of a line are the lines with lower numbers. -/
theorem lineOffset_eq (text : List Char) (line : Nat) :
    lineOffset text line = byteLength ((endedLines text).take (line - 1)).flatten := by
  rw [lineOffset, lineStart?]
  split
  · next hle => simp [Nat.sub_eq_zero_of_le hle]
  · next hlt =>
      obtain ⟨k, rfl⟩ := Nat.exists_eq_add_of_le (Nat.lt_of_not_le hlt)
      have hends := newlineEnds_getD text 0 k
      rw [Nat.zero_add, Nat.zero_add] at hends
      rw [show 1 + 1 + k - 2 = k by omega, show 1 + 1 + k - 1 = k + 1 by omega, hends]

/-- The text of the lines from `first` to `last`, with their line ends. -/
def textOfLines (text : List Char) (first last : Nat) : List Char :=
  (((endedLines text).take last).drop (first - 1)).flatten

/-- The bytes between the starts of two lines are the text of the lines between them. -/
theorem slice?_lineOffset (text : List Char) {first last : Nat} (h : first ≤ last) :
    slice? text (lineOffset text first) (lineOffset text (last + 1)) =
      some (textOfLines text first last) := by
  have hfront : (endedLines text).take (first - 1) =
      ((endedLines text).take last).take (first - 1) := by
    rw [List.take_take, Nat.min_eq_left (by omega)]
  have hcut : ((endedLines text).take last).flatten =
      ((endedLines text).take (first - 1)).flatten ++ textOfLines text first last := by
    rw [hfront, textOfLines, ← List.flatten_append, List.take_append_drop]
  rw [slice?_eq_some_iff, lineOffset_eq, lineOffset_eq, Nat.add_sub_cancel, hcut, byteLength_append]
  refine ⟨Nat.le_add_right .., _, ((endedLines text).drop last).flatten, ?_, rfl, ?_⟩
  · rw [← hcut, ← List.flatten_append, List.take_append_drop, flatten_endedLines]
  · rw [Nat.add_sub_cancel_left]

/-- Every line has a character, if only its end. -/
theorem ne_nil_of_mem_endedLines {text line : List Char} (h : line ∈ endedLines text) :
    line ≠ [] := by
  fun_induction endedLines text with
  | case1 => cases h
  | case2 cs ih =>
      rcases List.mem_cons.1 h with rfl | h
      · exact List.cons_ne_nil _ _
      · exact ih h
  | case3 c cs hc hnone ih =>
      rw [List.mem_singleton.1 h]
      exact List.cons_ne_nil _ _
  | case4 c cs hc first rest hlines ih =>
      rcases List.mem_cons.1 h with rfl | h
      · exact List.cons_ne_nil _ _
      · exact ih (by rw [hlines]; exact List.mem_cons_of_mem first h)

theorem textOfLines_ne_nil {text : List Char} {first last : Nat} (hfirst : 1 ≤ first)
    (hlast : first ≤ last) (hlines : first ≤ (lines text).length) :
    textOfLines text first last ≠ [] := by
  rw [length_lines] at hlines
  have hpos : 0 < (((endedLines text).take last).drop (first - 1)).length := by
    rw [List.length_drop, List.length_take]
    omega
  obtain ⟨line, hline⟩ := List.exists_mem_of_length_pos hpos
  have hne := ne_nil_of_mem_endedLines (List.mem_of_mem_take (List.mem_of_mem_drop hline))
  intro hnil
  exact hne (List.flatten_eq_nil_iff.1 hnil line hline)

theorem lineOffset_le (text : List Char) (line : Nat) : lineOffset text line ≤ byteLength text := by
  have htext := congrArg byteLength (flatten_endedLines text)
  rw [← List.take_append_drop (line - 1) (endedLines text), List.flatten_append,
    byteLength_append] at htext
  rw [lineOffset_eq]
  omega

end ContractCalls.Text
