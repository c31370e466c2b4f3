/-
# The compilation of a source text

A source text that was not compiled gives a compilation whatever it says: its
functions have no bodies, so no pass over bodies fails.  The functions are those
of the outline in order, each under its position, with the calls in its lines.

Main statement: the functions take the lines of the text apart, and the span of
each delimits the text of its lines, line ends included, as long as the line
behind them has a number: line numbers are 32-bit words.
-/
import ContractCalls.Proofs.Pipeline
import ContractCalls.Proofs.Vyper.Outline
import ContractCalls.Proofs.Vyper.Retarget
import ContractCalls.Vyper.SourceOnly

namespace ContractCalls.Vyper

open Text

/-- The layout of a module in which functions with the given names stand at their positions. -/
def Layout.ofNames (contractName : String) (names : List String) : Layout :=
  { Layout.new contractName with
    functions := names.zipIdx.foldl (fun table (name, i) => table.insert name ⟨i⟩) .empty }

theorem Layout.ofNames_concat (contractName : String) (names : List String) (name : String) :
    Layout.ofNames contractName (names ++ [name]) =
      { Layout.ofNames contractName names with
        functions :=
          (Layout.ofNames contractName names).functions.insert name ⟨names.length⟩ } := by
  simp [Layout.ofNames, List.zipIdx_append]

/-! ## Adding headers -/

section Headers

variable {contract : ContractId} {contractName file : String} {source : List Char}

/-- What adding headers leaves: the headers in order, and the functions with their positions. -/
structure Added (contractName file : String) (source : List Char) (u : Compilation)
    (functions : List OutlinedFunction)
    (result : Compilation × Layout × List (OutlinedFunction × FunctionId)) : Prop where
  headers : result.1.functions.toList =
    functions.mapIdx fun i f => { f.header contractName file source with id := ⟨i⟩ }
  sources : result.1.sources = u.sources
  layout : result.2.1 = Layout.ofNames contractName (functions.map (·.name))
  added : result.2.2 = functions.mapIdx fun i f => (f, ⟨i⟩)

/-- One more function. -/
theorem Added.concat {u u' : Compilation} {functions : List OutlinedFunction} {layout : Layout}
    {added : List (OutlinedFunction × FunctionId)}
    (h : Added contractName file source u functions (u', layout, added)) (f : OutlinedFunction) :
    Added contractName file source u (functions ++ [f])
      ((addModuleFunction u' contract (f.header contractName file source)).2,
        { layout with functions := layout.functions.insert f.name u'.nextFunctionId },
        added ++ [(f, u'.nextFunctionId)]) := by
  obtain ⟨headers, sources, layout_eq, added_eq⟩ := h
  dsimp only at headers sources layout_eq added_eq
  have hid : u'.nextFunctionId = ⟨functions.length⟩ := by
    rw [Compilation.nextFunctionId, ← Array.length_toList, headers, List.length_mapIdx]
  refine ⟨?_, (Loader.sources_addModuleFunction ..).trans sources, ?_, ?_⟩
  · rw [Loader.functions_addModuleFunction, Array.toList_push, headers, List.mapIdx_concat, hid]
  · rw [layout_eq, hid, List.map_append, List.map_singleton, Layout.ofNames_concat, List.length_map]
  · rw [added_eq, hid, List.mapIdx_concat]

theorem added_addOutlined {u : Compilation} (hu : u.functions = #[])
    (functions : List OutlinedFunction) :
    Added contractName file source u functions
      (addOutlined contract contractName file source functions u) := by
  induction functions using List.reverseRecOn with
  | nil => exact ⟨congrArg Array.toList hu, rfl, rfl, rfl⟩
  | append_singleton functions f ih =>
      rw [addOutlined, List.foldl_append, List.foldl_cons, List.foldl_nil, ← addOutlined]
      exact ih.concat f

end Headers

/-! ## Setting calls -/

/-- Changes at the positions of a list, each by the element there. -/
theorem getElem?_foldl_modifyFunction {α : Type} (change : α → Function → Function) (xs : List α)
    (u : Compilation) (j : Nat) :
    ((xs.mapIdx fun i x => (x, (⟨i⟩ : FunctionId))).foldl
      (fun u (x, id) => u.modifyFunction id (change x)) u).functions[j]? =
        match xs[j]? with
        | some x => u.functions[j]?.map (change x)
        | none => u.functions[j]? := by
  induction xs using List.reverseRecOn with
  | nil => rfl
  | append_singleton xs x ih =>
      rw [List.mapIdx_concat, List.foldl_append, List.foldl_cons, List.foldl_nil]
      show (Array.modify _ xs.length (change x))[j]? = _
      rw [Array.getElem?_modify, ih]
      rcases Nat.lt_trichotomy j xs.length with hlt | rfl | hgt
      · rw [if_neg (by omega), List.getElem?_append_left hlt]
      · simp
      · have hend : (xs ++ [x]).length ≤ j := by simpa using hgt
        rw [if_neg (by omega), List.getElem?_eq_none (by omega), List.getElem?_eq_none hend]

/-! ## The whole compilation -/

section Unit

variable (target contractName file source : String) (policy : FailurePolicy)

/-- The function of a compilation that an outlined one becomes. -/
def OutlinedFunction.finished (f : OutlinedFunction) (contractName file source : String)
    (i : Nat) : Function :=
  { f.header contractName file source.toList with
    id := ⟨i⟩
    calls := f.calls (Layout.ofNames contractName ((outline source).map (·.name))) }

/-- The functions of the compilation of a source text. -/
def finishedFunctions : List Function :=
  (outline source).mapIdx fun i f => f.finished contractName file source i

theorem getElem?_finishedFunctions (i : Nat) :
    (finishedFunctions contractName file source)[i]? =
      (outline source)[i]?.map fun f => f.finished contractName file source i :=
  List.getElem?_mapIdx

theorem moduleUnit_functions : (moduleUnit target contractName file source).2.functions = #[] := by
  rfl

theorem moduleUnit_sources :
    (moduleUnit target contractName file source).2.sources.get? file = some source := by
  show (SourceFiles.empty.insert file source).get? file = some source
  simp [SourceFiles.get?, SourceFiles.insert]

/-- Functions without bodies are analysed without failure. -/
theorem exists_analysis {u : Compilation} (h : u.IsBodiless) (hparsed : u.isParsed = true) :
    ∃ v : Compilation, (do Compilation.runPasses policy Pass.default; Compilation.finishAnalysis :
        OnCompilation Unit).run u = (.ok (), v) ∧
      v.sources = u.sources ∧ v.functions = u.functions := by
  have hends : Ends (do Compilation.runPasses policy Pass.default; Compilation.finishAnalysis :
      OnCompilation Unit) u (fun _ v => v.sources = u.sources ∧ v.functions = u.functions)
        fun _ _ => False := by
    refine (h.ends_runPasses hparsed policy Pass.default).bind ?_
    rintro - _ ⟨d, rfl⟩
    refine ends_bind (ends_get ?_)
    rw [Compilation.markAnalyzed, if_pos hparsed]
    exact ends_set ⟨rfl, rfl⟩
  obtain ⟨⟨⟩, v, hrun, hv⟩ := hends.exists_run
  exact ⟨v, hrun, hv⟩

/-- Every source text has a compilation, with the functions of its outline. -/
theorem exists_sourceUnit : ∃ u, sourceUnit target contractName file source policy = .ok u ∧
    u.sources.get? file = some source ∧
    u.functions.toList = finishedFunctions contractName file source := by
  have htext := moduleUnit_sources target contractName file source
  obtain ⟨headers, sources, layout, added⟩ : Added contractName file source.toList
      (moduleUnit target contractName file source).2 (outline source)
      (addOutlined (moduleUnit target contractName file source).1 contractName file source.toList
        (outline source) (moduleUnit target contractName file source).2) :=
    added_addOutlined (moduleUnit_functions target contractName file source) (outline source)
  unfold sourceUnit
  generalize moduleUnit target contractName file source = start at *
  obtain ⟨contract, start⟩ := start
  dsimp only at htext headers sources layout added ⊢
  generalize addOutlined contract contractName file source.toList (outline source) start = result
    at *
  obtain ⟨u, names, pairs⟩ := result
  dsimp only at htext headers sources layout added ⊢
  subst layout added
  generalize hv : List.foldl _ u _ = v
  have hsources : v.sources = start.sources := by
    rw [← hv, ← sources]
    exact foldl_keeps (P := fun v : Compilation => v.sources = u.sources) rfl fun _ _ _ heq => heq
  have hfunctions : v.functions.toList = finishedFunctions contractName file source := by
    refine List.ext_getElem? fun j => ?_
    rw [Array.getElem?_toList, ← hv]
    refine (getElem?_foldl_modifyFunction (fun (f : OutlinedFunction) g =>
      { g with calls := (f.calls (Layout.ofNames contractName ((outline source).map (·.name)))) })
      _ u j).trans ?_
    rw [← Array.getElem?_toList, headers, List.getElem?_mapIdx, getElem?_finishedFunctions]
    cases (outline source)[j]? <;> rfl
  have hbodiless : v.markParsed.IsBodiless := by
    intro f hf
    rw [show v.markParsed.functions = v.functions from rfl, hfunctions, finishedFunctions,
      List.mem_mapIdx] at hf
    obtain ⟨i, hi, rfl⟩ := hf
    rfl
  obtain ⟨w, hrun, hsame, hfunctionsSame⟩ := exists_analysis policy hbodiless rfl
  rw [hrun]
  refine ⟨w, rfl, ?_, ?_⟩
  · rw [hsame]
    exact (congrArg (·.get? file) hsources).trans htext
  · rw [hfunctionsSame]
    exact hfunctions

variable {source}

/-- The span of a function whose lines and the one behind them have numbers. -/
theorem OutlinedFunction.span_eq {f : OutlinedFunction} (source : List Char)
    (hle : f.firstLine ≤ f.lastLine) (hlast : f.lastLine + 1 < 2 ^ 32) :
    f.span file source =
      { Span.bytes file (lineOffset source f.firstLine)
          (lineOffset source (f.lastLine + 1) - lineOffset source f.firstLine) with
        lines := some (f.firstLine, f.lastLine) } := by
  have hfirstWord : f.firstLine % Nat.pow 2 32 = f.firstLine :=
    Nat.mod_eq_of_lt (by omega : f.firstLine < 2 ^ 32)
  have hlastWord : f.lastLine % Nat.pow 2 32 = f.lastLine :=
    Nat.mod_eq_of_lt (by omega : f.lastLine < 2 ^ 32)
  have hnext : nextLine f.lastLine = f.lastLine + 1 := Nat.mod_eq_of_lt hlast
  simp only [span, hfirstWord, hlastWord, hnext]

/-- The span of a function delimits the text of its lines. -/
theorem snippet?_span {files : SourceFiles} {head : List Char} {f : OutlinedFunction}
    (hsource : byteLength source.toList ≤ maxWord) (hfiles : files.get? file = some source)
    (hf : Outline.Occupies ((lines source.toList).zipIdx 1) head f)
    (hlast : f.lastLine + 1 < 2 ^ 32) :
    files.snippet? (f.span file source.toList) =
      some (String.ofList (textOfLines source.toList f.firstLine f.lastLine)) := by
  have hslice := slice?_lineOffset source.toList hf.first_le_last
  obtain ⟨hle, front, rear, -, -, hlength⟩ := slice?_eq_some_iff.1 hslice
  have hspan := OutlinedFunction.span_eq file source.toList hf.first_le_last hlast
  have hstop : (f.span file source.toList).stop = lineOffset source.toList (f.lastLine + 1) := by
    have hend := lineOffset_le source.toList (f.lastLine + 1)
    rw [hspan]
    show min (lineOffset source.toList f.firstLine + (lineOffset source.toList (f.lastLine + 1) -
      lineOffset source.toList f.firstLine)) maxWord = _
    omega
  have hpos : 0 < (f.span file source.toList).length := by
    have hne := textOfLines_ne_nil (List.le_snd_of_mem_zipIdx hf.head_mem) hf.first_le_last
      (Nat.lt_one_add_iff.1 (List.snd_lt_add_of_mem_zipIdx hf.head_mem))
    rw [hspan]
    exact Nat.pos_of_ne_zero fun hzero => hne (eq_nil_of_byteLength (hlength.trans hzero))
  refine Source.snippet?_of_slice? hfiles hpos ?_
  rw [hstop, hspan]
  exact hslice

/-- The functions of a text take its lines apart, and in its compilation the span of each delimits
the text of its lines, as long as the line behind them has a number. -/
theorem sourceUnit_takes_lines (hsource : byteLength source.toList ≤ maxWord) :
    Outline.TakeApart ((lines source.toList).zipIdx 1) (outline source) ∧
      ∃ u, sourceUnit target contractName file source policy = .ok u ∧
        u.functions.size = (outline source).length ∧
        ∀ i f, (outline source)[i]? = some f → ∃ g span, u.function? ⟨i⟩ = some g ∧
          g.name = f.name ∧ g.source = some span ∧
          (f.lastLine + 1 < 2 ^ 32 → u.sources.snippet? span =
            some (String.ofList (textOfLines source.toList f.firstLine f.lastLine))) := by
  have hlines := Outline.takeApart_functionsFrom 1 [] (lines source.toList)
  obtain ⟨u, hu, htext, hfunctions⟩ := exists_sourceUnit target contractName file source policy
  refine ⟨hlines, u, hu, ?_, fun i f hf => ?_⟩
  · rw [← Array.length_toList, hfunctions, finishedFunctions, List.length_mapIdx]
  · obtain ⟨head, hoccupies⟩ := hlines.occupies f (List.mem_of_getElem? hf)
    refine ⟨f.finished contractName file source i, f.span file source.toList, ?_, rfl, rfl,
      snippet?_span file hsource htext hoccupies⟩
    rw [Compilation.function?, ← Array.getElem?_toList, hfunctions, getElem?_finishedFunctions, hf,
      Option.map_some]

end Unit

/-- An interface, a function with a tab, a blank line and a comment in it, and a variable. -/
def vaultText : String :=
  "interface Token:\n    def send(to: address)\n" ++
    "@internal\ndef pay(to: address):\n\tself.check(to)\n\n    # done\n\ntotal: uint256\n"

theorem vault_takes_lines :
    byteLength vaultText.toList ≤ maxWord ∧
      (outline vaultText).map (fun f => (f.name, f.firstLine, f.lastLine)) = [("pay", 4, 7)] ∧
      String.ofList (textOfLines vaultText.toList 4 7) =
        "def pay(to: address):\n\tself.check(to)\n\n    # done\n" ∧
      Outline.TakeApart ((lines vaultText.toList).zipIdx 1) (outline vaultText) ∧
      ∃ u, sourceUnit "Vault.vy" "Vault" "Vault.vy" vaultText .stopOnFirst = .ok u ∧
        u.functions.size = (outline vaultText).length ∧
        ∀ i f, (outline vaultText)[i]? = some f → ∃ g span, u.function? ⟨i⟩ = some g ∧
          g.name = f.name ∧ g.source = some span ∧
          (f.lastLine + 1 < 2 ^ 32 → u.sources.snippet? span =
            some (String.ofList (textOfLines vaultText.toList f.firstLine f.lastLine))) := by
  have hlength : byteLength vaultText.toList ≤ maxWord := by decide +kernel
  exact ⟨hlength, by decide +kernel, by decide +kernel,
    sourceUnit_takes_lines "Vault.vy" "Vault" "Vault.vy" .stopOnFirst hlength⟩

end ContractCalls.Vyper
