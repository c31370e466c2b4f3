/-
# Comments in a source text

A line that holds only a comment calls nothing and defines nothing.  Put
between two lines it changes nothing of the functions, as long as the scan does
not take it for the end of a block: where it is indented no deeper than the line
that a block stands below, the block ends there.  This shows only if the block
would have gone on, and then the lines behind are read as if they stood in no
block.
-/
import ContractCalls.Proofs.Vyper.Scan
import ContractCalls.Proofs.Vyper.SourceOnly

namespace ContractCalls.Vyper

open Text

/-! ## Lines without calls -/

namespace CallText

/-- A text of blanks has no name. -/
theorem name?_blank {c : Char} (hc : isBlank c = true) (cs : List Char) :
    name? (c :: cs) = none := by
  rw [name?, if_neg]
  intro hstart
  rw [isBlank_of_isNamePart (isNamePart_of_isNameStart hstart)] at hc
  cases hc

theorem occurrences_blank {α : Type} {found : Option Char → List Char → Option α}
    (hfound : ∀ before c cs, isBlank c = true → found before (c :: cs) = none)
    {code : List Char} (hcode : ∀ c ∈ code, isBlank c = true) (before : Option Char) :
    occurrences found before code = [] := by
  induction code generalizing before with
  | nil => rfl
  | cons c code ih =>
      rw [List.forall_mem_cons] at hcode
      rw [occurrences, hfound before c code hcode.1, ih hcode.2]
      rfl

theorem ownCall?_blank (before : Option Char) (c : Char) (cs : List Char) (hc : isBlank c = true) :
    ownCall? before (c :: cs) = none := by
  have hself : strip? "self.".toList (c :: cs) = none := by
    show strip? ('s' :: "elf.".toList) (c :: cs) = none
    rw [strip?, if_neg]
    rintro rfl
    cases hc
  rw [ownCall?, hself]
  split <;> rfl

theorem memberCall?_blank (before : Option Char) (c : Char) (cs : List Char)
    (hc : isBlank c = true) : memberCall? before (c :: cs) = none := by
  rw [memberCall?, name?_blank hc]
  split <;> rfl

theorem namedCall?_blank (before : Option Char) (c : Char) (cs : List Char)
    (hc : isBlank c = true) : namedCall? before (c :: cs) = none := by
  rw [namedCall?, calledName?, name?_blank hc]
  split <;> rfl

end CallText

namespace OutlinedFunction

/-- Nothing but blanks in front of a comment sign, or in a whole line, calls nothing. -/
theorem lineCallees_of_blank {line : List Char}
    (h : ∀ c ∈ line.takeWhile (· != '#'), isBlank c = true) (layout : Layout) :
    lineCallees layout line = [] := by
  have hown := CallText.occurrences_blank CallText.ownCall?_blank h none
  have hmember := CallText.occurrences_blank CallText.memberCall?_blank h none
  have hnamed := CallText.occurrences_blank CallText.namedCall?_blank h none
  simp [lineCallees, CallText.ownCalls, CallText.memberCalls, CallText.bareCalls, hown, hmember,
    hnamed]

/-- What of an outlined function comments have no part in: its name, its visibility and its
callees. -/
def gist (f : OutlinedFunction) : String × Option Visibility × (Layout → List Callee) :=
  (f.name, f.visibility, fun layout => f.body.flatMap (lineCallees layout))

end OutlinedFunction

namespace Outline

open OutlinedFunction (lineCallees gist)

/-- A comment line has a comment sign behind blanks. -/
theorem exists_of_isComment {line : List Char} (h : isComment line = true) :
    ∃ front rest, (∀ c ∈ front, isBlank c = true) ∧ line = front ++ '#' :: rest := by
  obtain ⟨rest, hrest⟩ := startsWith_iff.1 h
  have hfirst := head?_trim line
  rw [← hrest] at hfirst
  cases hleft : trimLeft line with
  | nil => rw [hleft] at hfirst; cases hfirst
  | cons c cs =>
      rw [hleft] at hfirst
      obtain rfl : '#' = c := Option.some.inj hfirst
      obtain ⟨⟨front, hfront, rfl⟩, -⟩ := dropWhile_eq_iff.1 hleft
      exact ⟨front, cs, hfront, rfl⟩

/-- A line without code: a blank one or a comment. -/
def isSilent (line : List Char) : Bool := isBlankLine line || isComment line

theorem lineCallees_of_isSilent {line : List Char} (h : isSilent line = true) (layout : Layout) :
    lineCallees layout line = [] := by
  refine OutlinedFunction.lineCallees_of_blank (fun c hc => ?_) layout
  rcases Bool.or_eq_true _ _ ▸ h with hblank | hcomment
  · exact List.all_eq_true.1 hblank c ((List.takeWhile_sublist _).subset hc)
  · obtain ⟨front, rest, hfront, rfl⟩ := exists_of_isComment hcomment
    have hsign : ∀ c ∈ front, (c != '#') = true := by
      intro c hc
      rw [bne_iff_ne]
      rintro rfl
      exact absurd (hfront '#' hc) (by decide)
    rw [List.takeWhile_append_of_pos hsign] at hc
    exact hfront c (by simpa using hc)

/-! ## Places that differ in silent lines -/

/-- Two places from which the same functions are found, as far as their gist goes. -/
inductive Place.Alike : Place → Place → Prop
  | outside (decorators : List (List Char)) : Alike (.outside decorators) (.outside decorators)
  | interface : Alike .interface .interface
  | function {number number' outer : Nat} {name : String}
      {decorators body body' : List (List Char)} :
      (∀ layout, body.flatMap (lineCallees layout) = body'.flatMap (lineCallees layout)) →
      Alike (.function number outer name decorators body)
        (.function number' outer name decorators body')

namespace Place.Alike

variable {p q : Place}

theorem refl (p : Place) : p.Alike p := by
  cases p with
  | outside decorators => exact .outside decorators
  | interface => exact .interface
  | function => exact .function fun _ => rfl

theorem opened (number number' : Nat) (decorators : List (List Char)) (line : List Char) :
    (opened number decorators line).Alike (Outline.opened number' decorators line) := by
  unfold Outline.opened
  split
  · exact .outside decorators
  · split
    · exact .interface
    · split
      · exact .outside _
      · split
        · exact .outside []
        · exact .function fun _ => rfl

/-- One line keeps places alike. -/
theorem next (h : p.Alike q) (number number' : Nat) (line : List Char) :
    (p.next number line).Alike (q.next number' line) := by
  cases h with
  | outside decorators => exact opened number number' decorators line
  | interface =>
      rw [Place.next, Place.next]
      split
      · exact .interface
      · exact opened number number' [] line
  | function hbody =>
      rw [Place.next, Place.next]
      split
      · refine .function fun layout => ?_
        rw [List.flatMap_append, List.flatMap_append, hbody layout]
      · exact opened number number' [] line

theorem isLeftBy (h : p.Alike q) (line : List Char) : p.isLeftBy line = q.isLeftBy line := by
  cases h <;> rfl

theorem pending (h : p.Alike q) : p.pending.map gist = q.pending.map gist := by
  cases h with
  | outside decorators => rfl
  | interface => rfl
  | function hbody =>
      have hsame := funext hbody
      simp only [Place.pending, functionAt, List.map_cons, List.map_nil, gist, hsame]

/-- From places alike the same functions are found. -/
theorem scan (h : p.Alike q) (number number' : Nat) (ls : List (List Char)) :
    (scan number p ls).map gist = (Outline.scan number' q ls).map gist := by
  induction ls generalizing number number' p q with
  | nil => exact h.pending
  | cons line ls ih =>
      rw [Outline.scan, Outline.scan, List.map_append, List.map_append, h.isLeftBy line,
        ih (h.next number number' line)]
      split
      · rw [h.pending]
      · rfl

end Place.Alike

/-- A silent line that does not end the block changes nothing. -/
theorem alike_of_isSilent {line : List Char} (h : isSilent line = true) {place : Place}
    (hleft : place.isLeftBy line = false) (number : Nat) :
    (place.next number line).Alike place := by
  cases place with
  | outside decorators =>
      have hopened : opened number decorators line = .outside decorators := if_pos h
      rw [Place.next, hopened]
      exact .outside decorators
  | interface =>
      rw [Place.next, if_pos (by simpa [Place.isLeftBy, Place.outer?] using hleft)]
      exact .interface
  | function first outer name decorators body =>
      rw [Place.next, if_pos (by simpa [Place.isLeftBy, Place.outer?] using hleft)]
      refine .function fun layout => ?_
      rw [List.flatMap_append, List.flatMap_singleton, lineCallees_of_isSilent h, List.append_nil]

theorem scan_silent {line : List Char} (h : isSilent line = true) {place : Place}
    (hleft : place.isLeftBy line = false) (number number' : Nat) (rest : List (List Char)) :
    (scan number place (line :: rest)).map gist = (scan number' place rest).map gist := by
  rw [scan, hleft, if_neg Bool.false_ne_true, List.nil_append]
  exact (alike_of_isSilent h hleft number).scan _ _ rest

/-- Blank lines change nothing. -/
theorem scan_blanks {blanks : List (List Char)} (h : ∀ line ∈ blanks, isBlankLine line = true)
    (place : Place) (number number' : Nat) (rest : List (List Char)) :
    (scan number place (blanks ++ rest)).map gist = (scan number' place rest).map gist := by
  induction blanks generalizing number with
  | nil => exact (Place.Alike.refl place).scan number number' rest
  | cons line blanks ih =>
      rw [List.forall_mem_cons] at h
      have hleft : place.isLeftBy line = false := by
        cases place <;> simp [Place.isLeftBy, Place.outer?, isWithin, h.1]
      rw [List.cons_append, scan_silent (by simp [isSilent, h.1]) hleft number number]
      exact ih h.2 number

/-! ## A comment between two lines -/

/-- A line put behind others ends the block that is open there. -/
def closesBlock (line : List Char) (before : List (List Char)) : Bool :=
  ((Place.outside []).behind 1 before).isLeftBy line

/-- A line put between others ends a block that would go on: the next line that is not blank belongs
to the block. -/
def interrupts (line : List Char) (before after : List (List Char)) : Bool :=
  closesBlock line before && (after.find? fun next => !isBlankLine next).any fun next =>
    !closesBlock next before

/-- A silent line that ends a block. -/
theorem scan_closing {line : List Char} (h : isSilent line = true) {place : Place}
    (hleft : place.isLeftBy line = true) (number : Nat) (after : List (List Char)) :
    scan number place (line :: after) = place.pending ++ scan (number + 1) (.outside []) after := by
  obtain ⟨outer, houter, hnot⟩ := (Option.any_eq_true _ _).1 hleft
  have hopened : opened number [] line = .outside [] := if_pos h
  rw [scan_of_left houter (by simpa using hnot), scan, Place.next, hopened]
  rfl

/-- A silent line that interrupts no block changes nothing. -/
theorem scan_insert {line : List Char} (h : isSilent line = true) {place : Place}
    {after : List (List Char)} (hgoes : (place.isLeftBy line &&
      (after.find? fun next => !isBlankLine next).any fun next => !place.isLeftBy next) = false)
    (number : Nat) :
    (scan number place (line :: after)).map gist = (scan number place after).map gist := by
  cases hleft : place.isLeftBy line with
  | false => exact scan_silent h hleft number number after
  | true =>
      -- The block ends at the line; without it, behind the blank lines that follow.
      obtain ⟨outer, houter, -⟩ := (Option.any_eq_true _ _).1 hleft
      have hrest : ∀ next, (after.dropWhile isBlankLine).head? = some next →
          isWithin outer next = false := by
        intro next hnext
        have hfind : (after.find? fun next => !isBlankLine next) = some next := by
          rw [List.find?_eq_head?_dropWhile_not]
          simpa using hnext
        rw [hleft, hfind] at hgoes
        simpa [Place.isLeftBy, houter] using hgoes
      have hblanks : ∀ line ∈ after.takeWhile isBlankLine, isBlankLine line = true :=
        fun _ => List.mem_takeWhile_imp
      rw [scan_closing h hleft, ← List.takeWhile_append_dropWhile (p := isBlankLine) (l := after),
        List.map_append, scan_blanks hblanks (.outside []) (number + 1) number,
        scan_blanks hblanks place number number, scan_of_left houter hrest, List.map_append]

/-- Lines with one more among them, for a compiled text. -/
theorem functionsFrom_insert {line : List Char} (h : isSilent line = true)
    (before after : List (List Char)) :
    (interrupts line before after = false →
      (functionsFrom 1 [] (before ++ line :: after)).map gist =
        (functionsFrom 1 [] (before ++ after)).map gist) ∧
    (closesBlock line before = true → functionsFrom 1 [] (before ++ line :: after) =
      functionsFrom 1 [] before ++ functionsFrom (before.length + 2) [] after) := by
  obtain ⟨found, hfound⟩ := scan_append 1 (.outside []) before
  simp only [functionsFrom_eq_scan, hfound, List.map_append]
  refine ⟨fun hgoes => ?_, fun hcloses => ?_⟩
  · rw [scan_insert h hgoes]
  · have hbefore := hfound []
    rw [List.append_nil] at hbefore
    rw [scan_closing h hcloses, hbefore, List.append_assoc, Nat.add_comm 1, Nat.add_assoc]
    rfl

end Outline

/-! ## A comment in a source text -/

/-- What the call graph of a module shows of a function. -/
def callSummary (f : Function) : String × Visibility × List Callee × List Callee :=
  (f.name, f.visibility, f.calls.internal, f.calls.highLevel)

/-- The summary of a function of a compilation, from the gist of the outlined one. -/
def summaryOf (layout : Layout) (gist : String × Option Visibility × (Layout → List Callee)) :
    String × Visibility × List Callee × List Callee :=
  let calls := (gist.2.2 layout).foldl Function.recordCallee .none
  (gist.1, gist.2.1.getD .external, calls.internal, calls.highLevel)

/-- Outlines with one gist give functions with the same calls. -/
theorem map_callSummary_finished {source source' : String}
    (h : (outline source').map OutlinedFunction.gist = (outline source).map OutlinedFunction.gist)
    (contractName file : String) :
    (finishedFunctions contractName file source').map callSummary =
      (finishedFunctions contractName file source).map callSummary := by
  have hsummary (source : String) :
      (finishedFunctions contractName file source).map callSummary =
        ((outline source).map OutlinedFunction.gist).map (summaryOf (Layout.ofNames contractName
          (((outline source).map OutlinedFunction.gist).map (·.1)))) := by
    rw [List.map_map, List.map_map]
    refine List.ext_getElem? fun j => ?_
    rw [List.getElem?_map, getElem?_finishedFunctions, List.getElem?_map, Option.map_map]
    cases (outline source)[j]? <;> rfl
  rw [hsummary, hsummary, h]

/-- A comment between two lines changes no function and no call, unless it interrupts a block; a
comment that ends a block parts the outline there. -/
theorem outline_comment {source source' : String} {before after : List (List Char)}
    {comment : List Char} (hsource : lines source.toList = before ++ after)
    (hsource' : lines source'.toList = before ++ comment :: after)
    (hcomment : Outline.isComment comment = true) (target contractName file : String)
    (policy : FailurePolicy) :
    (Outline.interrupts comment before after = false →
      (outline source').map (fun f => (f.name, f.visibility)) =
        (outline source).map (fun f => (f.name, f.visibility)) ∧
      ∃ u u', sourceUnit target contractName file source policy = .ok u ∧
        sourceUnit target contractName file source' policy = .ok u' ∧
        u'.functions.toList.map callSummary = u.functions.toList.map callSummary) ∧
    (Outline.closesBlock comment before = true →
      outline source' = Outline.functionsFrom 1 [] before ++
        Outline.functionsFrom (before.length + 2) [] after) := by
  have hsilent : Outline.isSilent comment = true := by simp [Outline.isSilent, hcomment]
  obtain ⟨hsame, hparts⟩ := Outline.functionsFrom_insert hsilent before after
  rw [← hsource, ← hsource'] at hsame
  rw [← hsource'] at hparts
  refine ⟨fun hgoes => ⟨?_, ?_⟩, hparts⟩
  · have hnames := congrArg (List.map fun gist => (gist.1, gist.2.1)) (hsame hgoes)
    rwa [List.map_map, List.map_map] at hnames
  · obtain ⟨u, hu, -, hfunctions⟩ := exists_sourceUnit target contractName file source policy
    obtain ⟨u', hu', -, hfunctions'⟩ := exists_sourceUnit target contractName file source' policy
    refine ⟨u, u', hu, hu', ?_⟩
    rw [hfunctions, hfunctions', map_callSummary_finished (hsame hgoes)]

/-- A function that makes two calls, with text between them. -/
def payText (between : String) : String :=
  "def pay():\n    self.check()\n" ++ between ++ "    self.send()\n"

/-- The lines of the function in front of that text. -/
def payLines : List (List Char) := ["def pay():".toList, "    self.check()".toList]

theorem outline_comment_pay :
    lines (payText "").toList = payLines ++ ["    self.send()".toList] ∧
      lines (payText "    # sends\n").toList =
        payLines ++ "    # sends".toList :: ["    self.send()".toList] ∧
      lines (payText "# sends\n").toList =
        payLines ++ "# sends".toList :: ["    self.send()".toList] ∧
      Outline.isComment "    # sends".toList = true ∧ Outline.isComment "# sends".toList = true ∧
      (outline (payText "    # sends\n")).map (fun f => (f.name, f.visibility)) =
        (outline (payText "")).map (fun f => (f.name, f.visibility)) ∧
      outline (payText "# sends\n") = Outline.functionsFrom 1 [] payLines ++
        Outline.functionsFrom 4 [] ["    self.send()".toList] := by
  have hplain : lines (payText "").toList = payLines ++ ["    self.send()".toList] := by
    decide +kernel
  have hdeep : lines (payText "    # sends\n").toList =
      payLines ++ "    # sends".toList :: ["    self.send()".toList] := by decide +kernel
  have hflat : lines (payText "# sends\n").toList =
      payLines ++ "# sends".toList :: ["    self.send()".toList] := by decide +kernel
  have hdeepComment : Outline.isComment "    # sends".toList = true := by decide +kernel
  have hflatComment : Outline.isComment "# sends".toList = true := by decide +kernel
  have hkeeps := (outline_comment hplain hdeep hdeepComment "C.vy" "C" "C.vy" .stopOnFirst).1
    (by decide +kernel)
  have hparts := (outline_comment hplain hflat hflatComment "C.vy" "C" "C.vy" .stopOnFirst).2
    (by decide +kernel)
  exact ⟨hplain, hdeep, hflat, hdeepComment, hflatComment, hkeeps.1, hparts⟩

/-- An interface with two signatures, and text between them. -/
def tokenText (between : String) : String :=
  "interface Token:\n    def send(): view\n" ++ between ++ "    def burn(): view\n"

/-- Comments that interrupt a block: a signature of the interface becomes a function, and the
function has no call of `send`. -/
theorem comment_interrupts_block :
    lines (tokenText "# burns\n").toList =
        (lines (tokenText "").toList).take 2 ++ "# burns".toList ::
          (lines (tokenText "").toList).drop 2 ∧
      lines (payText "# sends\n").toList = (lines (payText "").toList).take 2 ++
        "# sends".toList :: (lines (payText "").toList).drop 2 ∧
      Outline.isComment "# burns".toList = true ∧ Outline.isComment "# sends".toList = true ∧
      (outline (tokenText "")).map (·.name) = [] ∧
      (outline (tokenText "# burns\n")).map (·.name) = ["burn"] ∧
      ∃ u u', sourceUnit "C.vy" "C" "C.vy" (payText "") .stopOnFirst = .ok u ∧
        sourceUnit "C.vy" "C" "C.vy" (payText "# sends\n") .stopOnFirst = .ok u' ∧
        u'.functions.toList.map callSummary ≠ u.functions.toList.map callSummary := by
  obtain ⟨u, hu, -, hfunctions⟩ := exists_sourceUnit "C.vy" "C" "C.vy" (payText "") .stopOnFirst
  obtain ⟨u', hu', -, hfunctions'⟩ :=
    exists_sourceUnit "C.vy" "C" "C.vy" (payText "# sends\n") .stopOnFirst
  refine ⟨by decide +kernel, by decide +kernel, by decide +kernel, by decide +kernel,
    by decide +kernel, by decide +kernel, u, u', hu, hu', ?_⟩
  rw [hfunctions, hfunctions']
  decide +kernel

end ContractCalls.Vyper
