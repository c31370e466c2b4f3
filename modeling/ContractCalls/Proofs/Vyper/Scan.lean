/-
# The scan for functions, line by line

The outline of a text takes whole blocks at a time.  The same scan can be made
line by line: what the lines above have to say to the next one is where the scan
stands, outside all blocks with some decorators, or in the block of an interface
or of a function.  In this form a text can be cut between any two lines.
-/
import ContractCalls.Proofs.Text.Blank
import ContractCalls.Vyper.Outline

namespace ContractCalls.Vyper.Outline

open Text

/-- Where the scan stands between two lines. -/
inductive Place where
  /-- In no block, with the decorators just above. -/
  | outside (decorators : List (List Char))
  /-- In the block of an interface. -/
  | interface
  /-- In the block of a function that a line with a number and an indentation defines, behind the
  lines `body` of the block. -/
  | function (number outer : Nat) (name : String) (decorators body : List (List Char))

/-- The place behind a line that belongs to no block. -/
def opened (number : Nat) (decorators : List (List Char)) (line : List Char) : Place :=
  if isBlankLine line || isComment line then .outside decorators
  else if opensInterface line then .interface
  else if isDecorator line then .outside (decorators ++ [trim line])
  else
    match definedName? line with
    | none => .outside []
    | some name => .function number (indent line) name decorators []

namespace Place

/-- The indentation of the line below which the open block is. -/
def outer? : Place → Option Nat
  | outside _ => none
  | interface => some 0
  | function _ outer .. => some outer

/-- The function of the open block, with the lines of the block so far. -/
def pending : Place → List OutlinedFunction
  | function number _ name decorators body => [functionAt number name decorators body]
  | _ => []

/-- There is a block, and the line does not belong to it. -/
def isLeftBy (line : List Char) (place : Place) : Bool :=
  place.outer?.any fun outer => !isWithin outer line

/-- The place behind a line. -/
def next (number : Nat) (line : List Char) : Place → Place
  | outside decorators => opened number decorators line
  | interface => if isWithin 0 line then .interface else opened number [] line
  | function first outer name decorators body =>
      if isWithin outer line then .function first outer name decorators (body ++ [line])
      else opened number [] line

/-- The place behind several lines, the first of which has the given number. -/
def behind (number : Nat) (place : Place) : List (List Char) → Place
  | [] => place
  | line :: rest => (place.next number line).behind (number + 1) rest

end Place

/-- The functions in lines read from a place on: the one of the open block, and those below. -/
def scan (number : Nat) (place : Place) : List (List Char) → List OutlinedFunction
  | [] => place.pending
  | line :: rest =>
      (if place.isLeftBy line then place.pending else []) ++
        scan (number + 1) (place.next number line) rest

/-- The scan of lines up to any cut does not see those behind it. -/
theorem scan_append (number : Nat) (place : Place) (before : List (List Char)) :
    ∃ found, ∀ after, scan number place (before ++ after) =
      found ++ scan (number + before.length) (place.behind number before) after := by
  induction before generalizing number place with
  | nil => exact ⟨[], fun _ => rfl⟩
  | cons line before ih =>
      obtain ⟨found, hfound⟩ := ih (number + 1) (place.next number line)
      refine ⟨(if place.isLeftBy line then place.pending else []) ++ found, fun after => ?_⟩
      rw [List.cons_append, scan, hfound, List.append_assoc, List.length_cons, Place.behind,
        Nat.add_assoc, Nat.add_comm 1]

/-! ## Blocks -/

/-- Where a block ends, the scan goes on without it. -/
theorem scan_of_left {place : Place} {outer : Nat} (houter : place.outer? = some outer)
    {rest : List (List Char)}
    (hrest : ∀ line, rest.head? = some line → isWithin outer line = false) (number : Nat) :
    scan number place rest = place.pending ++ scan number (.outside []) rest := by
  cases rest with
  | nil => exact (List.append_nil _).symm
  | cons line rest =>
      have hline := hrest line rfl
      have hleft : place.isLeftBy line = true := by simp [Place.isLeftBy, houter, hline]
      have hnext : place.next number line = opened number [] line := by
        cases place with
        | outside decorators => cases houter
        | interface => cases houter; simp [Place.next, hline]
        | function => cases houter; simp [Place.next, hline]
      rw [scan, hleft, if_pos rfl, hnext, scan]
      rfl

theorem scan_interface {block : List (List Char)} (hblock : ∀ line ∈ block, isWithin 0 line = true)
    (rest : List (List Char)) (number : Nat) :
    scan number .interface (block ++ rest) = scan (number + block.length) .interface rest := by
  induction block generalizing number with
  | nil => rfl
  | cons line block ih =>
      rw [List.forall_mem_cons] at hblock
      rw [List.cons_append, scan, Place.next, if_pos hblock.1, ih hblock.2, List.length_cons,
        Nat.add_assoc, Nat.add_comm 1]
      simp [Place.isLeftBy, Place.outer?, hblock.1]

theorem scan_function {block : List (List Char)} {outer : Nat}
    (hblock : ∀ line ∈ block, isWithin outer line = true) (rest : List (List Char))
    (number first : Nat) (name : String) (decorators body : List (List Char)) :
    scan number (.function first outer name decorators body) (block ++ rest) =
      scan (number + block.length) (.function first outer name decorators (body ++ block))
        rest := by
  induction block generalizing number body with
  | nil => rw [List.nil_append, List.append_nil]; rfl
  | cons line block ih =>
      rw [List.forall_mem_cons] at hblock
      rw [List.cons_append, scan, Place.next, if_pos hblock.1, ih hblock.2, List.length_cons,
        Nat.add_assoc, Nat.add_comm 1, List.append_assoc, List.singleton_append]
      simp [Place.isLeftBy, Place.outer?, hblock.1]

/-- The two scans find the same. -/
theorem functionsFrom_eq_scan (number : Nat) (decorators ls : List (List Char)) :
    functionsFrom number decorators ls = scan number (.outside decorators) ls := by
  have hscan (number : Nat) (decorators : List (List Char)) (line : List Char)
      (rest : List (List Char)) : scan number (.outside decorators) (line :: rest) =
        scan (number + 1) (opened number decorators line) rest := rfl
  fun_induction functionsFrom number decorators ls with
  | case1 number decorators => rfl
  | case2 number decorators line rest hskip ih => rw [ih, hscan, opened, if_pos hskip]
  | case3 number decorators line rest hskip hopens hlength ih =>
      rw [ih, hscan, opened, if_neg hskip, if_pos hopens]
      -- The line-by-line scan is cut where the block ends.
      conv_rhs => rw [← List.takeWhile_append_dropWhile (p := isWithin 0) (l := rest)]
      rw [scan_interface fun _ => List.mem_takeWhile_imp]
      exact (@scan_of_left .interface 0 rfl _ (fun line => dropWhile_head?) _).symm
  | case4 number decorators line rest hskip hopens hdecorator ih =>
      rw [ih, hscan, opened, if_neg hskip, if_neg hopens, if_pos hdecorator]
  | case5 number decorators line rest hskip hopens hdecorator hnone ih =>
      rw [ih, hscan, opened, if_neg hskip, if_neg hopens, if_neg hdecorator, hnone]
  | case6 number decorators line rest hskip hopens hdecorator name hname hlength body ih =>
      rw [ih, hscan, opened, if_neg hskip, if_neg hopens, if_neg hdecorator, hname]
      conv_rhs => rw [← List.takeWhile_append_dropWhile (p := isWithin (indent line)) (l := rest)]
      rw [scan_function fun _ => List.mem_takeWhile_imp]
      exact (@scan_of_left (.function ..) (indent line) rfl _ (fun line => dropWhile_head?) _).symm

end ContractCalls.Vyper.Outline
