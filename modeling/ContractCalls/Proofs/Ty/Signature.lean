/-
# Signatures

A function has its signature by the types of its parameters, and a callee that
only a compiler's text tells of has it by the parameters in that text, which
are found by counting brackets.  Both are the same where the text was put
together from the types of the parameters (`signature_eq_fullName`).

What is between commas is read without the blanks around it, and with as much
fuel as it has characters; neither matters to the type that is read.  Two
counters tell which bracket closes which; on no text does one leave its range.
-/
import ContractCalls.Function
import ContractCalls.Proofs.Ty.Parser

namespace ContractCalls.Ty

open Text

/-! ## Fuel -/

theorem length_dropLocation_le (text location : List Char) :
    (dropLocation text location).length ≤ text.length := by
  unfold dropLocation
  split
  · next rest hrest =>
      rw [stripEnd?_eq_some_iff.1 hrest, List.length_append]
      have hbegins : trimRight rest <+: rest := dropRight_prefix isBlank rest
      have := hbegins.length_le
      omega
  · exact le_rfl

theorem length_dropPass_le (text : List Char) : (dropPass text).length ≤ text.length := by
  unfold dropPass
  induction locations generalizing text with
  | nil => exact le_rfl
  | cons location locations ih =>
      exact (ih (dropLocation text location)).trans (length_dropLocation_le text location)

theorem length_dropLocations_le (fuel : Nat) (text : List Char) :
    (dropLocations fuel text).length ≤ text.length := by
  induction fuel generalizing text with
  | zero => exact le_rfl
  | succ fuel ih =>
      rw [dropLocations]
      split
      · exact le_rfl
      · exact (ih (dropPass text)).trans (length_dropPass_le text)

theorem length_between? {opening closing : String} {text inner : List Char}
    (h : between? opening closing text = some inner) :
    opening.toList.length + inner.length + closing.toList.length = text.length := by
  obtain ⟨rest, hrest, hend⟩ := Option.bind_eq_some_iff.1 h
  rw [strip?_eq_some_iff.1 hrest, stripEnd?_eq_some_iff.1 hend, List.length_append,
    List.length_append, Nat.add_assoc]

theorem length_le_of_mem_splitOutside {sep : List Char} {skip : Nat} {depth : Int}
    {cs piece : List Char} (h : piece ∈ splitOutside sep skip depth cs) :
    piece.length ≤ cs.length := by
  induction cs generalizing skip depth piece with
  | nil => cases skip <;> simp_all [splitOutside]
  | cons c cs ih =>
      have hskip {skip : Nat} {depth : Int} {piece : List Char}
          (h : piece ∈ splitOutside sep skip depth cs) : piece.length ≤ (c :: cs).length :=
        (ih h).trans (Nat.le_succ _)
      cases skip with
      | succ skip => exact hskip h
      | zero =>
          rw [splitOutside] at h
          split at h
          · rcases List.mem_cons.1 h with rfl | h
            · exact Nat.zero_le _
            · exact hskip h
          · split at h
            · next hnil => exact absurd hnil (splitOutside_ne_nil _ _ _ _)
            · next part rest hpieces =>
                rcases List.mem_cons.1 h with rfl | h
                · exact Nat.succ_le_succ (ih (hpieces ▸ List.mem_cons_self))
                · exact hskip (hpieces ▸ List.mem_cons_of_mem part h)

theorem length_le_of_mem_parts {sep : String} {cs piece : List Char} (h : piece ∈ parts sep cs) :
    piece.length ≤ cs.length := by
  obtain ⟨raw, hraw, rfl⟩ := List.mem_map.1 h
  exact (length_trim_le raw).trans (length_le_of_mem_splitOutside hraw)

theorem length_openingBracket? {depth : Int} {inside cs front rest : List Char}
    (h : openingBracket? depth inside cs = some (front, rest)) : front.length < cs.length := by
  fun_induction openingBracket? depth inside cs with
  | case1 => cases h
  | case2 depth inside cs ih =>
      have := ih h
      rw [List.length_cons]
      omega
  | case3 inside cs _ =>
      cases h
      simp
  | case4 depth inside cs _ hdepth ih =>
      have := ih h
      rw [List.length_cons]
      omega
  | case5 depth inside c cs _ _ ih =>
      have := ih h
      rw [List.length_cons]
      omega

theorem length_arrayParts? {text element size : List Char}
    (h : arrayParts? text = some (element, size)) : element.length < text.length := by
  unfold arrayParts? at h
  split at h
  · next cs hreverse =>
      have hlength := congrArg List.length hreverse
      rw [List.length_reverse, List.length_cons] at hlength
      have := length_openingBracket? h
      omega
  · cases h

/-- Reading a text goes on to shorter texts, blanks around it left out. -/
theorem parseWith_succ_congr {m n : Nat} {raw : List Char}
    (h : ∀ cs, cs.length < (trim raw).length → parseWith m cs = parseWith n cs) :
    parseWith (m + 1) raw = parseWith (n + 1) raw := by
  simp only [parseWith]
  split
  · rfl
  · have hlocations := length_dropLocations_le (trim raw).length (trim raw)
    generalize dropLocations (trim raw).length (trim raw) = text at hlocations
    have hbetween {opening : String} {inner : List Char}
        (hinner : between? opening ")" text = some inner) : inner.length < (trim raw).length := by
      have := length_between? hinner
      rw [show ")".toList.length = 1 from rfl] at this
      omega
    split
    · next inner hinner => rw [h inner (hbetween hinner)]
    · split
      · next inner hinner =>
          split
          · next key value hparts =>
              have hpart {piece : List Char} (hpiece : piece ∈ parts "=>" inner) :
                  piece.length < (trim raw).length :=
                (length_le_of_mem_parts hpiece).trans_lt (hbetween hinner)
              rw [h key (hpart (by simp [hparts])), h value (hpart (by simp [hparts]))]
          · rfl
      · split
        · next inner hinner =>
            have hpart {piece : List Char} (hpiece : piece ∈ parts "," inner) :
                piece.length < (trim raw).length :=
              (length_le_of_mem_parts hpiece).trans_lt (hbetween hinner)
            rw [List.map_congr_left fun piece hpiece => h piece (hpart hpiece)]
        · split
          · rfl
          · split
            · next element size harray =>
                rw [h element ((length_arrayParts? harray).trans_le hlocations)]
            · rfl

/-- More fuel than characters is as good as any. -/
theorem parseWith_eq_of_lt {m n : Nat} {raw : List Char} (hm : (trim raw).length < m)
    (hn : (trim raw).length < n) : parseWith m raw = parseWith n raw := by
  induction m generalizing n raw with
  | zero => exact absurd hm (Nat.not_lt_zero _)
  | succ m ih =>
      obtain ⟨n, rfl⟩ := Nat.exists_eq_add_one_of_ne_zero (Nat.ne_zero_of_lt hn)
      refine parseWith_succ_congr fun cs hcs => ?_
      have := length_trim_le cs
      exact ih (by omega) (by omega)

/-- A type is read off a text without the blanks around it. -/
theorem parseWith_congr {fuel : Nat} {raw raw' : List Char} (h : trim raw = trim raw') :
    parseWith fuel raw = parseWith fuel raw' := by
  cases fuel with
  | zero => rfl
  | succ fuel => rw [parseWith, parseWith, h]

theorem parse_ofList_trim (raw : List Char) :
    parse (String.ofList (trim raw)) = parse (String.ofList raw) := by
  have hlength := length_trim_le raw
  have htrim := (isTrimmed_trim raw).trim
  rw [parse, parse, String.toList_ofList, String.toList_ofList, parseWith_congr htrim]
  exact parseWith_eq_of_lt (by omega) (by omega)

/-! ## Commas outside brackets -/

theorem splitCommas_eq (depth : Int) (cs : List Char) :
    splitCommas depth cs = splitOutside [','] 0 depth cs := by
  induction cs generalizing depth with
  | nil => rfl
  | cons c cs ih =>
      have hcomma : c = ',' ∧ depth = 0 ↔
          depthAfter depth c = 0 ∧ [','].isPrefixOf (c :: cs) := by
        constructor
        · rintro ⟨rfl, rfl⟩
          exact ⟨rfl, rfl⟩
        · rintro ⟨hdepth, hbegins⟩
          rw [List.isPrefixOf_iff_prefix, List.cons_prefix_cons] at hbegins
          obtain ⟨rfl, -⟩ := hbegins
          exact ⟨rfl, hdepth⟩
      rw [splitCommas, splitOutside, ih, ih]
      by_cases h : c = ',' ∧ depth = 0
      · rw [if_pos h, if_pos (hcomma.1 h)]
        obtain ⟨rfl, rfl⟩ := h
        rfl
      · rw [if_neg h, if_neg (mt hcomma.2 h)]

/-- Characters that do not cut go to the last piece. -/
theorem splitCommas_append (depth : Int) {rear : List Char}
    (hrear : ∀ c ∈ rear, c ∉ ['(', ')', '[', ']']) (hcomma : ',' ∉ rear) (cs : List Char) :
    ∃ pieces last, splitCommas depth cs = pieces ++ [last] ∧
      splitCommas depth (cs ++ rear) = pieces ++ [last ++ rear] := by
  induction cs generalizing depth with
  | nil =>
      refine ⟨[], [], rfl, ?_⟩
      have hpasses : Passes [','] depth depth rear := passes_of_plain hrear (.inl hcomma)
      have hsplit := hpasses []
      rw [List.append_nil, ← splitCommas_eq] at hsplit
      rw [List.nil_append, hsplit]
      simp [splitOutside, prepend]
  | cons c cs ih =>
      rw [List.cons_append, splitCommas, splitCommas]
      split
      · obtain ⟨pieces, last, hpieces, hrest⟩ := ih depth
        exact ⟨[] :: pieces, last, by rw [hpieces]; rfl, by rw [hrest]; rfl⟩
      · obtain ⟨pieces, last, hpieces, hrest⟩ := ih (depthAfter depth c)
        rw [hpieces, hrest]
        cases pieces with
        | nil => exact ⟨[], c :: last, rfl, rfl⟩
        | cons piece pieces => exact ⟨(c :: piece) :: pieces, last, rfl, rfl⟩

theorem not_mem_of_blank {c : Char} {marks : List Char}
    (hmarks : ∀ c ∈ marks, isBlank c = false) (hc : isBlank c) : c ∉ marks := by
  intro h
  rw [hmarks c h] at hc
  cases hc

/-- Trimming a text changes its pieces by blanks around them. -/
theorem map_trim_splitCommas (cs : List Char) :
    (splitCommas 0 (trim cs)).map trim = (splitCommas 0 cs).map trim := by
  obtain ⟨front, rear, hfront, hrear, hcs⟩ := exists_trim cs
  have hplain {blanks : List Char} (h : ∀ c ∈ blanks, isBlank c) :
      (∀ c ∈ blanks, c ∉ ['(', ')', '[', ']']) ∧ ',' ∉ blanks := by
    refine ⟨fun c hc => not_mem_of_blank (by simp [isBlank]) (h c hc), fun hmem => ?_⟩
    exact absurd (h ',' hmem) (by decide)
  have hpasses : Passes [','] 0 0 front :=
    passes_of_plain (hplain hfront).1 (.inl (hplain hfront).2)
  obtain ⟨pieces, last, hpieces, hrest⟩ :=
    splitCommas_append 0 (hplain hrear).1 (hplain hrear).2 (trim cs)
  have hsplit : splitCommas 0 cs = prepend front (splitCommas 0 (trim cs ++ rear)) := by
    rw [splitCommas_eq, splitCommas_eq, ← hpasses, ← hcs]
  have hlast : trim (last ++ rear) = trim last :=
    trim_append_append last (List.forall_mem_nil _) hrear
  rw [hsplit, hrest, hpieces]
  cases pieces with
  | nil => simp [prepend, trim_append_append last hfront hrear]
  | cons piece pieces =>
      have hpiece : trim (front ++ piece) = trim piece := by
        simpa using trim_append_append piece hfront (List.forall_mem_nil _)
      simp [prepend, hlast, hpiece]

/-! ## Texts of parameters -/

/-- Closing brackets close what was opened before them, and nothing stays open. -/
structure Balanced (opening closing : Char) (text : List Char) : Prop where
  opened : ∀ front, front <+: text → front.count closing ≤ front.count opening
  closed : text.count closing = text.count opening

instance (opening closing : Char) (text : List Char) : Decidable (Balanced opening closing text) :=
  decidable_of_iff ((∀ front ∈ text.inits, front.count closing ≤ front.count opening) ∧
      text.count closing = text.count opening)
    ⟨fun h => ⟨fun front hfront => h.1 front ((List.mem_inits ..).2 hfront), h.2⟩,
      fun h => ⟨fun front hfront => h.opened front ((List.mem_inits ..).1 hfront), h.closed⟩⟩

/-- Wherever a comma stands, a bracket of one sort is open. -/
def CommasInside (text : List Char) : Prop :=
  ∀ front, front ++ [','] <+: text →
    front.count ')' < front.count '(' ∨ front.count ']' < front.count '['

instance (text : List Char) : Decidable (CommasInside text) :=
  decidable_of_iff (∀ front ∈ text.inits, front ++ [','] <+: text →
      front.count ')' < front.count '(' ∨ front.count ']' < front.count '[')
    ⟨fun h front hfront =>
        h front ((List.mem_inits ..).2 ((List.prefix_append front [',']).trans hfront)) hfront,
      fun h front _ => h front⟩

/-- The text of the type of a parameter. -/
structure IsParameter (text : List Char) : Prop where
  not_blank : ∃ c ∈ text, isBlank c = false
  round : Balanced '(' ')' text
  square : Balanced '[' ']' text
  commas : CommasInside text

theorem Balanced.append {opening closing : Char} {xs ys : List Char}
    (hx : Balanced opening closing xs) (hy : Balanced opening closing ys) :
    Balanced opening closing (xs ++ ys) where
  opened front hfront := by
    rcases List.prefix_or_prefix_of_prefix hfront (List.prefix_append xs ys) with h | ⟨front, rfl⟩
    · exact hx.opened front h
    · have := hy.opened front ((List.prefix_append_right_inj xs).1 hfront)
      have := hx.closed
      rw [List.count_append, List.count_append]
      omega
  closed := by rw [List.count_append, List.count_append, hx.closed, hy.closed]

theorem balanced_of_not_mem {opening closing : Char} {xs : List Char} (hopening : opening ∉ xs)
    (hclosing : closing ∉ xs) : Balanced opening closing xs where
  opened front hfront := by
    rw [List.count_eq_zero_of_not_mem fun h => hclosing (hfront.subset h)]
    exact Nat.zero_le _
  closed := by rw [List.count_eq_zero_of_not_mem hopening, List.count_eq_zero_of_not_mem hclosing]

theorem balanced_intercalate {opening closing : Char} {sep : List Char} {texts : List (List Char)}
    (hsep : Balanced opening closing sep) (h : ∀ text ∈ texts, Balanced opening closing text) :
    Balanced opening closing (sep.intercalate texts) := by
  induction texts with
  | nil => exact balanced_of_not_mem (by simp) (by simp)
  | cons text texts ih =>
      rw [List.forall_mem_cons] at h
      cases texts with
      | nil => simpa using h.1
      | cons other texts =>
          rw [List.intercalate_cons_cons]
          exact (h.1.append hsep).append (ih h.2)

/-- What is open in either sense. -/
theorem foldl_depthAfter (depth : Int) (cs : List Char) : cs.foldl depthAfter depth =
    depth + cs.count '(' + cs.count '[' - cs.count ')' - cs.count ']' := by
  induction cs generalizing depth with
  | nil => simp
  | cons c cs ih =>
      rw [List.foldl_cons, ih, depthAfter]
      simp only [List.count_cons, beq_iff_eq]
      split
      · next h => rcases h with rfl | rfl <;> simp <;> omega
      · next hopen =>
          rw [not_or] at hopen
          split
          · next h => rcases h with rfl | rfl <;> simp <;> omega
          · next hclose =>
              rw [not_or] at hclose
              simp [hopen, hclose]

/-- Commas inside brackets do not cut. -/
theorem passes_of_comma (depth : Int) {cs : List Char}
    (h : ∀ front, front ++ [','] <+: cs → front.foldl depthAfter depth ≠ 0) :
    Passes [','] depth (cs.foldl depthAfter depth) cs := by
  induction cs generalizing depth with
  | nil => exact passes_nil
  | cons c cs ih =>
      have hfirst : Passes [','] depth (depthAfter depth c) [c] := by
        refine passes_char (or_iff_not_imp_left.2 fun hc => ?_)
        rw [not_not.1 hc]
        exact h [] (by simp [not_not.1 hc])
      have hrest := ih (depthAfter depth c) fun front hfront =>
        h (c :: front) (List.cons_prefix_cons.2 ⟨rfl, hfront⟩)
      exact hfirst.append hrest

theorem IsParameter.passes {text : List Char} (h : IsParameter text) : Passes [','] 0 0 text := by
  have hdepth (front : List Char) (hfront : front ++ [','] <+: text) :
      front.foldl depthAfter 0 ≠ 0 := by
    have hbegins := (List.prefix_append front [',']).trans hfront
    have := h.round.opened front hbegins
    have := h.square.opened front hbegins
    have := h.commas front hfront
    rw [foldl_depthAfter]
    omega
  have hpasses := passes_of_comma 0 hdepth
  have hround := h.round.closed
  have hsquare := h.square.closed
  rwa [foldl_depthAfter, show (0 : Int) + text.count '(' + text.count '[' - text.count ')' -
    text.count ']' = 0 by omega] at hpasses

/-! ## The closing parenthesis -/

theorem closing_append {depth : Nat} {cs : List Char}
    (h : ∀ front, front <+: cs → front.count ')' ≤ depth + front.count '(') (rest : List Char) :
    firstParenthesis?.closing (depth + 1) (cs ++ rest) =
      (firstParenthesis?.closing (depth + cs.count '(' - cs.count ')' + 1) rest).map (cs ++ ·) := by
  induction cs generalizing depth with
  | nil => simp
  | cons c cs ih =>
      have hfirst := h [c] (by simp)
      have hrest (front : List Char) (hfront : front <+: cs) :=
        h (c :: front) (List.cons_prefix_cons.2 ⟨rfl, hfront⟩)
      rw [List.cons_append, firstParenthesis?.closing]
      by_cases hopen : c = '('
      · subst hopen
        have hdeeper (front : List Char) (hfront : front <+: cs) :
            front.count ')' ≤ depth + 1 + front.count '(' := by
          have hmore := hrest front hfront
          rw [List.count_cons_of_ne (by decide), List.count_cons_self] at hmore
          omega
        rw [if_pos rfl, ih hdeeper, Option.map_map, List.count_cons_self,
          List.count_cons_of_ne (by decide), Nat.add_assoc depth 1, Nat.add_comm 1]
        rfl
      · rw [if_neg hopen]
        by_cases hclose : c = ')'
        · subst hclose
          have hpos : 1 ≤ depth := hfirst
          obtain ⟨depth, rfl⟩ := Nat.exists_eq_add_one_of_ne_zero (Nat.ne_zero_of_lt hpos)
          have hshallower (front : List Char) (hfront : front <+: cs) :
              front.count ')' ≤ depth + front.count '(' := by
            have hmore := hrest front hfront
            rw [List.count_cons_self, List.count_cons_of_ne (by decide)] at hmore
            omega
          rw [if_pos rfl, if_neg (by omega), Nat.add_sub_cancel, ih hshallower, Option.map_map,
            List.count_cons_self, List.count_cons_of_ne (by decide), Nat.add_right_comm depth 1,
            Nat.add_sub_add_right]
          rfl
        · have hsame (front : List Char) (hfront : front <+: cs) :
              front.count ')' ≤ depth + front.count '(' := by
            have hmore := hrest front hfront
            rwa [List.count_cons_of_ne hopen, List.count_cons_of_ne hclose] at hmore
          rw [if_neg hclose, ih hsame, Option.map_map, List.count_cons_of_ne hopen,
            List.count_cons_of_ne hclose]
          rfl

/-- What stands inside parentheses is found, whatever follows. -/
theorem firstParenthesis?_append {before inner : List Char} (hbefore : '(' ∉ before)
    (hinner : Balanced '(' ')' inner) (suffix : List Char) :
    firstParenthesis? (before ++ '(' :: (inner ++ ')' :: suffix)) = some inner := by
  have hcut : splitFirst? (· == '(') (before ++ '(' :: (inner ++ ')' :: suffix)) =
      some (before, inner ++ ')' :: suffix) := by
    refine splitFirst?_append (fun c hc => ?_) rfl
    rw [beq_eq_false_iff_ne]
    rintro rfl
    exact hbefore hc
  rw [firstParenthesis?, hcut]
  show firstParenthesis?.closing (0 + 1) _ = _
  rw [closing_append (by simpa using hinner.opened), hinner.closed, Nat.zero_add, Nat.sub_self]
  simp [firstParenthesis?.closing]

/-- The parameters are those that the text was put together from. -/
theorem functionParameters?_text {texts : List String}
    (h : ∀ text ∈ texts, IsParameter text.toList) (suffix : String) :
    functionParameters? ("function (" ++ ",".intercalate texts ++ ")" ++ suffix) =
      some (texts.map fun text => (parse text).render) := by
  let inner := [','].intercalate (texts.map String.toList)
  have htexts : ∀ text ∈ texts.map String.toList, IsParameter text := by
    simpa using h
  have hround : Balanced '(' ')' inner :=
    balanced_intercalate (balanced_of_not_mem (by simp) (by simp)) fun text htext =>
      (htexts text htext).round
  have htext : ("function (" ++ ",".intercalate texts ++ ")" ++ suffix).toList =
      "function".toList ++ ([' '] ++ '(' :: (inner ++ ')' :: suffix.toList)) := by
    simp [inner]
  have htrim : trim ("function (" ++ ",".intercalate texts ++ ")" ++ suffix).toList =
      "function".toList ++ ([' '] ++ '(' :: (inner ++ ')' :: trimRight suffix.toList)) := by
    rw [htext, trim, dropBoth]
    show dropRight isBlank (("function (".toList ++ inner) ++ ')' :: suffix.toList) = _
    rw [dropRight_append_cons (by decide)]
    rfl
  have hspace : '(' ∉ [' '] := by simp
  simp only [functionParameters?, htrim, strip?_append, Option.bind_eq_bind, Option.bind_some,
    firstParenthesis?_append hspace hround]
  cases texts with
  | nil => rfl
  | cons text texts =>
      have hne : (trim inner).isEmpty = false := by
        obtain ⟨c, hc, hblank⟩ := (h text List.mem_cons_self).not_blank
        have hmem : c ∈ inner := by
          cases texts <;> simp [inner, List.intercalate_cons_cons, hc]
        simpa using trim_ne_nil hmem hblank
      have hpieces : (splitCommas 0 (trim inner)).map trim =
          ((text :: texts).map String.toList).map trim := by
        rw [map_trim_splitCommas, splitCommas_eq,
          splitOutside_intercalate (by simp) fun xs hxs => (htexts xs hxs).passes]
      have hparse := congrArg (List.map fun part => (parse (String.ofList part)).render) hpieces
      simp only [List.map_map, Function.comp_def, parse_ofList_trim, String.ofList_toList] at hparse
      rw [hne, if_neg Bool.false_ne_true, hparse]

/-! ## Counters with a range -/

/-- A counter would leave its range. -/
inductive CounterFault where
  | belowZero
  | tooWide

/-- What stands up to the parenthesis that closes the first, with a counter that has no sign. -/
def closeCounted : (depth : Nat) → List Char → Except CounterFault (Option (List Char))
  | _, [] => return none
  | depth, c :: cs =>
      if c = '(' then return (← closeCounted (depth + 1) cs).map (c :: ·)
      else if c = ')' then
        match depth with
        | 0 => throw .belowZero
        | depth + 1 =>
            if depth = 0 then return some [] else return (← closeCounted depth cs).map (c :: ·)
      else return (← closeCounted depth cs).map (c :: ·)

/-- The text inside the first parenthesis, counted from that parenthesis on. -/
def firstParenthesisCounted (text : List Char) : Except CounterFault (Option (List Char)) :=
  match splitFirst? (· == '(') text with
  | some (_, rest) => return (← closeCounted 0 ('(' :: rest)).map List.tail
  | none => return none

/-- The text cut at the commas outside brackets, with a signed counter up to a limit. -/
def splitCounted (limit : Nat) : (depth : Int) → List Char → Except CounterFault (List (List Char))
  | _, [] => return [[]]
  | depth, c :: cs =>
      if c = ',' ∧ depth = 0 then return [] :: (← splitCounted limit depth cs)
      else if limit < (depthAfter depth c).natAbs then throw .tooWide
      else return prepend [c] (← splitCounted limit (depthAfter depth c) cs)

/-- Parameter types of a function type text, with both counters. -/
def functionParametersCounted (limit : Nat) (text : String) :
    Except CounterFault (Option (List String)) := do
  match strip? "function".toList (trim text.toList) with
  | none => return none
  | some rest =>
    match ← firstParenthesisCounted rest with
    | none => return none
    | some inside =>
        let inner := trim inside
        if inner.isEmpty then return some []
        else return some ((← splitCounted limit 0 inner).map fun part =>
          (parse (String.ofList part)).render)

/-- Behind an opening parenthesis the counter is never taken below zero. -/
theorem closeCounted_succ (depth : Nat) (cs : List Char) :
    closeCounted (depth + 1) cs = .ok (firstParenthesis?.closing (depth + 1) cs) := by
  induction cs generalizing depth with
  | nil => rfl
  | cons c cs ih =>
      rw [closeCounted, firstParenthesis?.closing, ih, ih]
      split
      · rfl
      · split
        · cases depth with
          | zero => rfl
          | succ depth => rw [if_neg (by omega), if_neg (by omega), ih]; rfl
        · rfl

theorem firstParenthesisCounted_eq (text : List Char) :
    firstParenthesisCounted text = .ok (firstParenthesis? text) := by
  rw [firstParenthesisCounted, firstParenthesis?]
  cases splitFirst? (· == '(') text with
  | none => rfl
  | some cut =>
      dsimp only
      rw [closeCounted, if_pos rfl, closeCounted_succ]
      show Except.ok (Option.map List.tail (Option.map (List.cons '(') _)) = _
      rw [Option.map_map]
      exact congrArg Except.ok (congrFun Option.map_id _)

theorem natAbs_depthAfter_le (depth : Int) (c : Char) :
    (depthAfter depth c).natAbs ≤ depth.natAbs + 1 := by
  unfold depthAfter
  split
  · omega
  · split <;> omega

/-- The depth is no more than the characters passed. -/
theorem splitCounted_eq {limit : Nat} {depth : Int} {cs : List Char}
    (h : depth.natAbs + cs.length ≤ limit) :
    splitCounted limit depth cs = .ok (splitCommas depth cs) := by
  induction cs generalizing depth with
  | nil => rfl
  | cons c cs ih =>
      rw [List.length_cons] at h
      have hdepth := natAbs_depthAfter_le depth c
      rw [splitCounted, splitCommas, ih (by omega), ih (by omega), if_neg (by omega : ¬ limit < _)]
      split
      · rfl
      · show Except.ok (prepend [c] (splitCommas (depthAfter depth c) cs)) = _
        cases splitCommas (depthAfter depth c) cs <;> rfl

theorem length_closing {depth : Nat} {cs inner : List Char}
    (h : firstParenthesis?.closing depth cs = some inner) : inner.length ≤ cs.length := by
  induction cs generalizing depth inner with
  | nil => cases h
  | cons c cs ih =>
      have hrest {depth : Nat}
          (h : (firstParenthesis?.closing depth cs).map (c :: ·) = some inner) :
          inner.length ≤ (c :: cs).length := by
        obtain ⟨rest, hrest, rfl⟩ := Option.map_eq_some_iff.1 h
        exact Nat.succ_le_succ (ih hrest)
      rw [firstParenthesis?.closing] at h
      split at h
      · exact hrest h
      · split at h
        · split at h
          · cases h
            exact Nat.zero_le _
          · exact hrest h
        · exact hrest h

theorem length_firstParenthesis? {text inner : List Char}
    (h : firstParenthesis? text = some inner) : inner.length ≤ text.length := by
  rw [firstParenthesis?] at h
  split at h
  · next before rest hcut => exact (length_closing h).trans (length_splitFirst? hcut)
  · cases h

/-- No counter leaves its range on a text, as long as depths up to its length are in range. -/
theorem functionParametersCounted_eq {limit : Nat} {text : String}
    (h : text.toList.length ≤ limit) :
    functionParametersCounted limit text = .ok (functionParameters? text) := by
  have htext := length_trim_le text.toList
  rw [functionParametersCounted, functionParameters?]
  cases hstrip : strip? "function".toList (trim text.toList) with
  | none => rfl
  | some rest =>
      rw [strip?_eq_some_iff.1 hstrip, List.length_append] at htext
      dsimp only
      rw [firstParenthesisCounted_eq]
      cases hinner : firstParenthesis? rest with
      | none => simp [hinner]; rfl
      | some inside =>
          have hinside := length_firstParenthesis? hinner
          have htrim := length_trim_le inside
          have hsplit : splitCounted limit 0 (trim inside) = .ok (splitCommas 0 (trim inside)) :=
            splitCounted_eq (by simp only [Int.natAbs_zero]; omega)
          simp only [hinner, Option.bind_eq_bind, Option.bind_some]
          show (if _ then _ else _) = _
          rw [hsplit]
          split <;> rfl

/-! ## Signatures -/

/-- The signature by the text of a function type is that by the types of the parameters, whatever
stands behind them.  On no text does a counter leave its range, if depths up to its length are in
range. -/
theorem signature_eq_fullName (f : Function) {parameters : List Parameter} {texts : List String}
    (hparameters : parameters.map (·.ty) = texts.map parse)
    (htexts : ∀ text ∈ texts, IsParameter text.toList) (suffix : String) :
    signature f.name (some ("function (" ++ ",".intercalate texts ++ ")" ++ suffix)) =
        (f.withSignature parameters).fullName ∧
      ∀ {limit : Nat} {text : String}, text.toList.length ≤ limit →
        functionParametersCounted limit text = .ok (functionParameters? text) := by
  have hrender : parameters.map (·.ty.render) = texts.map fun text => (parse text).render := by
    simpa [Function.comp_def] using congrArg (List.map render) hparameters
  refine ⟨?_, functionParametersCounted_eq⟩
  rw [signature, Option.bind_some, functionParameters?_text htexts]
  show _ = Function.signatureOf f.name parameters
  rw [Function.signatureOf, hrender]
  rfl

/-- Types with commas inside brackets, locations and blanks around them. -/
def ledgerTypes : List String :=
  [" mapping(uint => tuple(int,bool)[]) ref", "tuple(int[2],bool) memory ", "bytes"]

theorem signature_eq_fullName_ledgerTypes :
    (∀ text ∈ ledgerTypes, IsParameter text.toList) ∧
      signature "pay"
          (some ("function (" ++ ",".intercalate ledgerTypes ++ ")" ++ " returns (bool)")) =
        ((Function.new "pay" .free).withSignature
          (ledgerTypes.map fun text => ⟨"", parse text⟩)).fullName ∧
      functionParametersCounted 12 "function ())" = .ok (functionParameters? "function ())") := by
  have htypes : ∀ text ∈ ledgerTypes, IsParameter text.toList := by
    simp only [ledgerTypes, List.forall_mem_cons, List.not_mem_nil, false_implies, implies_true,
      and_true]
    exact ⟨⟨⟨'m', by simp, by decide⟩, by decide +kernel, by decide +kernel, by decide +kernel⟩,
      ⟨⟨'t', by simp, by decide⟩, by decide +kernel, by decide +kernel, by decide +kernel⟩,
      ⟨⟨'b', by simp, by decide⟩, by decide +kernel, by decide +kernel, by decide +kernel⟩⟩
  have hparameters : (ledgerTypes.map fun text => Parameter.mk "" (parse text)).map (·.ty) =
      ledgerTypes.map parse := by simp
  obtain ⟨hsignature, hcounted⟩ :=
    signature_eq_fullName (Function.new "pay" .free) hparameters htypes " returns (bool)"
  exact ⟨htypes, hsignature, hcounted (by simp)⟩

end ContractCalls.Ty
