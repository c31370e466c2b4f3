/-
# Source spans under another version

The compiler is given the source with its directive asking for another version;
the compilation keeps the source as it is, and reads the spans of the compiler
in it.  The two texts agree in front of the directive and behind it, up to line
ends, so a span in front of the directive delimits the same text in both.  A
span behind it delimits the same text if the two directives have the same
number of bytes; if they have not, the text of the span stands as many bytes
further on in the source, and what is shown is cut out of another place.
-/
import ContractCalls.Proofs.Pipeline
import ContractCalls.Proofs.Text.Lines
import ContractCalls.Proofs.Vyper.Module
import ContractCalls.Proofs.Vyper.Version
import ContractCalls.Vyper.Source

namespace ContractCalls.Vyper

open Text

/-! ## Rewriting a directive -/

namespace Version

/-- A text around one of its lines, and what is written in the place of the line. -/
structure Edit where
  before : List Char
  line : List Char
  written : List Char
  after : List Char

namespace Edit

/-- The text that is rewritten. -/
def source (e : Edit) : List Char := e.before ++ (e.line ++ e.after)

/-- The text after it; its line ends are uniform. -/
def result (e : Edit) : List Char := unified e.before ++ (e.written ++ unified e.after)

/-- The bytes up to the end of the line. -/
def sourceHead (e : Edit) : Nat := byteLength e.before + byteLength e.line

/-- The bytes up to the end of what is written. -/
def resultHead (e : Edit) : Nat := byteLength (unified e.before) + byteLength e.written

/-- The edit makes a directive of the source ask for the version. -/
structure Retargets (e : Edit) (source version : String) : Prop where
  source_eq : source.toList = e.source
  result_eq : (retarget source version).toList = e.result
  directive : ∃ lead spec, directive? e.line = some (lead, spec) ∧
    e.written = writeDirective lead version.toList

variable {e : Edit} {start stop : Nat} {word : List Char}

/-- In front of the line nothing changes but line ends. -/
theorem slice?_before (hplain : unified e.before = e.before)
    (hslice : slice? e.result start stop = some word) (hstop : stop ≤ byteLength e.before) :
    slice? e.source start stop = some word := by
  obtain ⟨hle, front, rear, htext, hfront, hword⟩ := slice?_eq_some_iff.1 hslice
  rw [result, hplain] at htext
  have hshort : byteLength (front ++ word) ≤ byteLength e.before := by
    rw [byteLength_append]
    omega
  obtain ⟨mid, hmid, -⟩ := exists_of_byteLength_le htext.symm hshort
  refine slice?_eq_some_iff.2 ⟨hle, front, mid ++ (e.line ++ e.after), ?_, hfront, hword⟩
  rw [source, hmid, List.append_assoc, List.append_assoc]

/-- Behind the line everything moves by the same number of bytes. -/
theorem slice?_behind (hplain : unified e.after = e.after)
    (hslice : slice? e.result start stop = some word) (hstart : e.resultHead ≤ start) :
    slice? e.source (start - e.resultHead + e.sourceHead) (stop - e.resultHead + e.sourceHead) =
      some word := by
  obtain ⟨hle, front, rear, htext, hfront, hword⟩ := slice?_eq_some_iff.1 hslice
  rw [result, hplain, ← List.append_assoc, List.append_assoc front] at htext
  have hlong : byteLength (unified e.before ++ e.written) ≤ byteLength front := by
    rw [byteLength_append, hfront]
    exact hstart
  obtain ⟨mid, hmid, hafter⟩ := exists_of_byteLength_le htext hlong
  refine slice?_eq_some_iff.2 ⟨by omega, e.before ++ (e.line ++ mid), rear, ?_, ?_, by omega⟩
  · rw [source, hafter]
    simp only [List.append_assoc]
  · rw [hmid] at hfront
    simp only [byteLength_append, sourceHead, resultHead] at hfront ⊢
    omega

end Edit

/-- Lines in front of a text whose line is rewritten. -/
def Edit.behind (e : Edit) (front : List Char) : Edit := { e with before := front ++ e.before }

/-- Replacing the first directive among the lines of a text. -/
theorem replaceFirst?_edit {version : List Char} {count : Nat} {text : List Char}
    {ls replaced : List (List Char)} (h : Lined text ls)
    (hreplaced : replaceFirst? version count ls = some replaced) :
    (replaced.length = ls.length) ∧ ∃ e : Edit, text = e.source ∧ joined text replaced = e.result ∧
      ∃ lead spec, directive? e.line = some (lead, spec) ∧
        e.written = writeDirective lead version := by
  induction h generalizing count replaced with
  | none => cases count <;> cases hreplaced
  | @last line hne hline =>
      cases count with
      | zero => cases hreplaced
      | succ count =>
          simp only [replaceFirst?] at hreplaced
          split at hreplaced
          · next lead spec hdirective =>
              cases hreplaced
              refine ⟨rfl, ⟨[], line, writeDirective lead version, []⟩, by simp [Edit.source], ?_,
                lead, spec, hdirective, rfl⟩
              rw [joined_last hline]
              simp [Edit.result, unified]
          · cases count <;> cases hreplaced
  | @line line ending rest ls hline hending hrest ih =>
      cases count with
      | zero => cases hreplaced
      | succ count =>
          simp only [replaceFirst?] at hreplaced
          split at hreplaced
          · next lead spec hdirective =>
              cases hreplaced
              refine ⟨rfl, ⟨[], line, writeDirective lead version, ending ++ rest⟩, rfl, ?_,
                lead, spec, hdirective, rfl⟩
              rw [joined_cons hending hrest.eq_nil_iff, hrest.joined_eq, Edit.result,
                unified_ending hending]
              rfl
          · obtain ⟨others, hothers, rfl⟩ := Option.map_eq_some_iff.1 hreplaced
            obtain ⟨hlength, e, hsource, hresult, hdirective⟩ := ih hothers
            refine ⟨congrArg (· + 1) hlength, e.behind (line ++ ending), ?_, ?_, hdirective⟩
            · simp [Edit.behind, Edit.source, hsource]
            · have hnil : rest = [] ↔ others = [] := by
                rw [hrest.eq_nil_iff, ← List.length_eq_zero_iff, ← hlength,
                  List.length_eq_zero_iff]
              have hbefore : unified (line ++ ending ++ e.before) =
                  line ++ '\n' :: unified e.before := by
                rw [List.append_assoc, unified_line hline hending]
              rw [joined_cons hending hnil, hresult, Edit.result, Edit.result, Edit.behind, hbefore]
              simp

/-- A source without a directive stays as it is, any other has one line rewritten. -/
theorem retarget_cases (source version : String) :
    retarget source version = source ∨ ∃ e : Edit, e.Retargets source version := by
  cases hreplaced : replaceFirst? version.toList headerLines (lines source.toList) with
  | none =>
      refine .inl ?_
      rw [retarget, hreplaced]
  | some replaced =>
      obtain ⟨-, e, hsource, hresult, hdirective⟩ :=
        replaceFirst?_edit (lined_lines source.toList) hreplaced
      refine .inr ⟨e, hsource, ?_, hdirective⟩
      rw [toList_retarget hreplaced, hresult]

end Version

/-! ## What loading keeps of positions -/

namespace Loader

/-- What a function shows of the definition it comes from. -/
def place (f : Function) : String × Option Span := (f.name, f.source)

/-- The functions of a loader come from the definitions among the members in `done`, in order, and
their spans are read in the text that the loader was given. -/
structure Located (file source : String) (tree : Json) (done : List Node) (l : Loader) : Prop where
  file_eq : l.file = file
  tree_eq : l.tree.json = tree
  source_eq : l.unit.sources.get? file = some source
  places : (l.unit.functions.map place).toList =
    (definitions done).map fun n => (n.functionName, n.span? file (some source))

section Members

variable {file source : String} {tree : Json} {done : List Node} {l : Loader}

theorem Located.skip (h : Located file source tree done l) {n : Node}
    (hn : n.is "FunctionDef" = false) : Located file source tree (done ++ [n]) l :=
  { h with places := by rw [h.places]; simp [definitions, hn] }

/-- A change that functions and texts do not see. -/
theorem Located.congr (h : Located file source tree done l) {l' : Loader} (hfile : l'.file = l.file)
    (htree : l'.tree = l.tree) (hsources : l'.unit.sources = l.unit.sources)
    (hplaces : l'.unit.functions.map place = l.unit.functions.map place) :
    Located file source tree done l' :=
  ⟨hfile.trans h.file_eq, by rw [htree, h.tree_eq], by rw [hsources, h.source_eq],
    by rw [hplaces, h.places]⟩

theorem sources_addDeclaration (u : Compilation) (scope : ScopeId) (owner : Option String)
    (name : String) (kind : DeclKind) (raw : List Json) :
    (u.addDeclaration scope owner name kind raw).2.sources = u.sources := by
  simp only [Compilation.addDeclaration]
  split <;> rfl

theorem sources_addModuleFunction (u : Compilation) (contract : ContractId) (f : Function) :
    (addModuleFunction u contract f).2.sources = u.sources := by
  simp only [addModuleFunction]
  split <;> rfl

theorem locates_registerFunction (h : Located file source tree done l) {n : Node}
    (hn : n.is "FunctionDef") :
    Leads (registerFunction n) l (fun _ => Located file source tree (done ++ [n]))
      fun _ => True := by
  have hadded := functions_addModuleFunction l.unit l.contract (functionHeader l.layout l.locate n)
  refine leads_modify ⟨h.file_eq, h.tree_eq, ?_, ?_⟩
  · exact (congrArg (·.get? file) (sources_addModuleFunction ..)).trans h.source_eq
  · have hspan : l.locate n = n.span? file (some source) := by
      rw [locate, h.file_eq, h.source_eq]
    have hpushed := congrArg (fun fs => (fs.map place).toList) hadded
    refine hpushed.trans ?_
    rw [Array.map_push, Array.toList_push, h.places]
    simp [definitions, hn, place, functionHeader, moduleFunction, Function.withBareNames,
      Function.withSignature, Node.functionName, hspan, Function.new]

theorem locates_registerMember (h : Located file source tree done l) (n : Node) :
    Leads (registerMember n) l (fun _ => Located file source tree (done ++ [n]))
      fun _ => True := by
  unfold registerMember
  split
  · next kind hkind =>
      have hskip := h.skip (pendingKind?_ne hkind)
      refine leads_bind (leads_get ?_)
      split
      · refine leads_modify (hskip.congr rfl rfl (sources_addDeclaration ..) ?_)
        exact congrArg (Array.map place) (functions_addDeclaration ..)
      · exact leads_pure hskip
      · exact leads_throw trivial
  · next htype _ =>
      refine leads_bind (leads_get ?_)
      split
      · exact leads_throw trivial
      · exact leads_set ((h.skip (by simp [Node.is, htype])).congr rfl rfl rfl rfl)
  · next htype _ => exact locates_registerFunction h (by simp [Node.is, htype])
  · exact leads_pure (h.skip (by simpa [Node.is]))

end Members

theorem locates_parse (target contractName file source : String) (tree : Json)
    (policy : FailurePolicy) :
    Leads parse (new target contractName file source tree policy)
      (fun _ => Located file source tree (membersOf tree)) fun _ => True := by
  unfold parse
  refine leads_bind (leads_get ?_)
  have hfresh : (new target contractName file source tree policy).unit.isParsed = false := rfl
  rw [hfresh, if_neg Bool.false_ne_true]
  split
  · exact leads_bind (leads_throw trivial)
  · refine leads_bind (leads_set ?_)
    refine (leads_forM (fun rest l => ∃ done, done ++ rest = membersOf tree ∧
      Located file source tree done l) ?_ ?_).bind ?_
    · refine ⟨[], rfl, rfl, rfl, ?_, congrArg Array.toList Array.map_empty⟩
      show (SourceFiles.empty.insert file source).get? file = some source
      simp [SourceFiles.get?, SourceFiles.insert]
    · rintro n rest l - ⟨done, hdone, h⟩
      refine (locates_registerMember h n).mono fun _ _ h' => ⟨done ++ [n], ?_, h'⟩
      rw [← hdone, List.append_assoc]
      rfl
    · rintro _ l ⟨done, hdone, h⟩
      rw [List.append_nil] at hdone
      subst hdone
      exact leads_modify (h.congr rfl rfl rfl rfl)

section Analysis

variable {file source : String} {tree : Json} {members : List Node} {l : Loader}

theorem Located.framed (h : Located file source tree members l) {l' : Loader} (hl : Framed l l') :
    Located file source tree members l' :=
  h.congr hl.file hl.tree hl.sources (congrArg (Array.map place) hl.functions)

/-- A change of bodies, call sites and records. -/
theorem Located.outlined (h : Located file source tree members l) {u : Compilation}
    (hu : l.unit.SameOutline u) : Located file source tree members { l with unit := u } :=
  h.congr rfl rfl hu.sources (hu.map_eq fun _ => rfl)

theorem sameOutline_store (done : Lowered) (u : Compilation) : u.SameOutline (done.store u) := by
  refine .trans (foldl_keeps (.refl u) fun v entry _ hv => ?_)
    (Compilation.sameOutline_recordErrors _ done.failures)
  exact hv.trans (Compilation.sameOutline_modifyFunction v entry.1 fun _ => rfl)

theorem locates_lower (h : Located file source tree members l) :
    Leads lower l (fun _ => Located file source tree members) fun _ => True := by
  refine leads_bind (leads_get ((leads_forM (fun _ => Framed l) (.refl l) ?_).bind ?_))
  · intro position rest t _ hframe
    exact (leads_readDeclaration t position).mono fun _ _ h' => hframe.trans h'
  · intro _ t hframe
    refine leads_bind (leads_get ?_)
    refine (leads_foldlM (fun _ => Framed t) (.refl t) ?_).bind ?_
    · intro done n t' hframe'
      exact (leads_lowerFunction t' done n).mono fun _ _ h' => hframe'.trans h'.1
    · intro done t' hframe'
      have ht' := h.framed (hframe.trans hframe')
      exact leads_modify (ht'.outlined (sameOutline_store done t'.unit))

theorem locates_analyze (h : Located file source tree members l) :
    Leads analyze l (fun _ => Located file source tree members) fun _ => True := by
  refine leads_bind (leads_get ?_)
  dsimp only
  split
  · exact leads_bind (leads_throw trivial)
  · split
    · exact leads_pure h
    · refine (locates_lower h).bind fun _ t ht => ?_
      refine leads_bind (leads_onUnit ?_)
      refine (Compilation.leaves_runPasses l.policy Pass.default t.unit).leads.mono ?_
      intro _ u hu
      have hpassed := ht.outlined hu
      refine leads_onUnit (leads_bind (leads_get ?_))
      split
      · next hmarked =>
          unfold Compilation.markAnalyzed at hmarked
          split at hmarked
          · cases hmarked
            exact leads_set (hpassed.congr rfl rfl rfl rfl)
          · cases hmarked
      · exact leads_throw trivial

end Analysis

theorem locates_load (target contractName file source : String) (tree : Json)
    (policy : FailurePolicy) :
    Leads load (new target contractName file source tree policy)
      (fun _ => Located file source tree (membersOf tree)) fun _ => True :=
  (locates_parse target contractName file source tree policy).bind fun _ _ h => locates_analyze h

end Loader

namespace Source

/-- What a compilation by the tree of the compiler holds: the source as it is, and the functions of
the tree with the spans of their definitions. -/
theorem build_places {s : Source} {options : Options} {policy : FailurePolicy} {answer tree : Json}
    {u : Compilation} (hbuild : s.build options policy (.ok answer) = .ok u)
    (htree : Compiler.tree? answer = some tree) :
    u.sources.get? s.file = some s.text ∧
      (u.functions.map Loader.place).toList =
        (Loader.definitions (Loader.membersOf tree)).map fun n =>
          (n.functionName, n.span? s.file (some s.text)) := by
  simp only [build, compilation, htree, ofTree] at hbuild
  split at hbuild
  · next l hload =>
      have hl := (Loader.locates_load ..).of_run hload
      cases hbuild
      refine ⟨hl.source_eq, ?_⟩
      rw [← hl.places]
      simp [pruneCalls, Function.comp_def, Loader.place]
  · cases hbuild

theorem file_of_ofAttribute? {src file : String} {span : Span}
    (h : Span.ofAttribute? src [file] file = some span) : span.file = file := by
  simp only [Span.ofAttribute?, Option.bind_eq_bind, Option.bind_eq_some_iff] at h
  obtain ⟨start, -, length, -, hspan⟩ := h
  cases hspan
  show ((Span.fileIndex? src).bind fun index => [file][index]?).getD file = file
  cases Span.fileIndex? src with
  | none => rfl
  | some index => cases index <;> rfl

/-- The snippet of a span that fits the text is what its bytes delimit. -/
theorem snippet?_of_slice? {files : SourceFiles} {span : Span} {text : String} {word : List Char}
    (htext : files.get? span.file = some text) (hlength : 0 < span.length)
    (hword : slice? text.toList span.start span.stop = some word) :
    files.snippet? span = some (String.ofList word) := by
  have hfits : (slice? text.toList span.start span.stop).filter (fun _ => 0 < span.length) =
      some word := by
    simp [hword, Option.filter, hlength]
  simp only [SourceFiles.snippet?, htext, hfits, Option.bind_eq_bind, Option.bind_some]
  rfl

/-- The bytes from `start` to `stop` of the compiler's text have the same offsets in the source: the
two are the same text, or the bytes stand in front of the directive, or behind a directive that
ends at the same offset in both. -/
inductive Aligned (s : Source) (options : Options) (start stop : Nat) : Prop
  | same : s.compilerText options = s.text → Aligned s options start stop
  | before {version : String} {e : Version.Edit} : options.version = some version →
      e.Retargets s.text version → unified e.before = e.before → stop ≤ byteLength e.before →
      Aligned s options start stop
  | behind {version : String} {e : Version.Edit} : options.version = some version →
      e.Retargets s.text version → unified e.after = e.after → e.resultHead ≤ start →
      e.resultHead = e.sourceHead → Aligned s options start stop

/-- What aligned bytes of the compiler's text delimit, they delimit in the source. -/
theorem Aligned.slice?_eq {s : Source} {options : Options} {start stop : Nat} {word : List Char}
    (h : s.Aligned options start stop)
    (hword : slice? (s.compilerText options).toList start stop = some word) :
    slice? s.text.toList start stop = some word := by
  cases h with
  | same hsame => rwa [hsame] at hword
  | before hversion he hplain hstop =>
      rw [compilerText, hversion] at hword
      rw [he.source_eq]
      exact Version.Edit.slice?_before hplain (he.result_eq ▸ hword) hstop
  | behind hversion he hplain hstart hhead =>
      rw [compilerText, hversion] at hword
      have hmoved := Version.Edit.slice?_behind hplain (he.result_eq ▸ hword) hstart
      have hle := (slice?_eq_some_iff.1 hword).1
      rwa [← he.source_eq, ← hhead, Nat.sub_add_cancel hstart,
        Nat.sub_add_cancel (hstart.trans hle)] at hmoved

/-- A definition whose `src` attribute delimits `word` in the compiler's text becomes the function
at its place, with that span.  Where the span is aligned the function shows `word`.  The compiler's
text is the source, or comes from it by rewriting a directive; behind the directive `word` then
stands in the source as many bytes further on as the line of the directive ends there. -/
theorem snippet_of_definition {s : Source} {options : Options} {policy : FailurePolicy}
    {answer tree : Json} {u : Compilation} (hbuild : s.build options policy (.ok answer) = .ok u)
    (htree : Compiler.tree? answer = some tree) {i : Nat} {n : Node}
    (hn : (Loader.definitions (Loader.membersOf tree))[i]? = some n) {src : String} {span : Span}
    (hsrc : n.text? "src" = some src) (hspan : Span.ofAttribute? src [s.file] s.file = some span)
    (hlength : 0 < span.length) {word : List Char}
    (hword : slice? (s.compilerText options).toList span.start span.stop = some word) :
    ∃ (f : Function) (shown : Span), u.functions[i]? = some f ∧ f.name = n.functionName ∧
      f.source = some shown ∧ shown = { span with lines := n.lines? } ∧
      (s.Aligned options span.start span.stop →
        u.sources.snippet? shown = some (String.ofList word)) ∧
      (s.compilerText options = s.text ∨
        ∃ (version : String) (e : Version.Edit), options.version = some version ∧
          e.Retargets s.text version ∧
          (unified e.after = e.after → e.resultHead ≤ span.start →
            slice? s.text.toList (span.start - e.resultHead + e.sourceHead)
              (span.stop - e.resultHead + e.sourceHead) = some word)) := by
  obtain ⟨htext, hplaces⟩ := build_places hbuild htree
  have hplace : (u.functions.map Loader.place).toList[i]? =
      some (n.functionName, some { span with lines := n.lines? }) := by
    rw [hplaces, List.getElem?_map, hn, Option.map_some]
    simp only [Node.span?, hsrc, hspan, Option.map_some]
  rw [Array.getElem?_toList, Array.getElem?_map, Option.map_eq_some_iff] at hplace
  obtain ⟨f, hf, hplace⟩ := hplace
  refine ⟨f, { span with lines := n.lines? }, hf, congrArg Prod.fst hplace, congrArg Prod.snd hplace,
    rfl, ?_, ?_⟩
  · intro haligned
    have hfile : u.sources.get? span.file = some s.text := by
      rw [file_of_ofAttribute? hspan]
      exact htext
    exact snippet?_of_slice? hfile hlength (haligned.slice?_eq hword)
  · cases hversion : options.version with
    | none => exact .inl (by rw [compilerText, hversion])
    | some version =>
        rw [compilerText, hversion] at hword ⊢
        refine (Version.retarget_cases s.text version).imp id ?_
        rintro ⟨e, he⟩
        refine ⟨version, e, rfl, he, fun hplain hstart => ?_⟩
        rw [he.source_eq]
        exact Version.Edit.slice?_behind hplain (he.result_eq ▸ hword) hstart

/-- The definition of a function `f` that does nothing. -/
def idleDefinition (src : String) : Json :=
  .object [("ast_type", .string "FunctionDef"),
    ("body", .array [.object [("ast_type", .string "Pass")]]), ("name", .string "f"),
    ("src", .string src)]

/-- What the compiler says of a module that has the function alone. -/
def idleAnswer (src : String) : Json :=
  .object [("sources", .object [("C.vy", .object [("ast", .object [("ast_type", .string "Module"),
    ("body", .array [idleDefinition src])])])])]

/-- The module, written for version 0.3.9. -/
def idleSource : Source := ⟨"C.vy", "# @version 0.3.9\n@external\ndef f():\n    pass\n"⟩

/-- Asks for a version. -/
def asking (version : String) : Options := { Options.default with version := some version }

/-- The directive that asks for version 0.4.0 ends where the one of the module does. -/
def sameLengthEdit : Version.Edit :=
  ⟨[], "# @version 0.3.9".toList, "# @version 0.4.0".toList,
    "\n@external\ndef f():\n    pass\n".toList⟩

theorem sameLengthEdit_retargets : sameLengthEdit.Retargets idleSource.text "0.4.0" where
  source_eq := by decide +kernel
  result_eq := by decide +kernel
  directive := ⟨"# ".toList, "0.3.9".toList, by decide +kernel, by decide +kernel⟩

theorem snippet_of_definition_idle : ∃ (u : Compilation) (f : Function) (shown : Span),
    idleSource.build (asking "0.4.0") .stopOnFirst (.ok (idleAnswer "27:17:0")) = .ok u ∧
    idleSource.compilerText (asking "0.4.0") ≠ idleSource.text ∧
    u.functions[0]? = some f ∧ f.source = some shown ∧
    u.sources.snippet? shown = some "def f():\n    pass" := by
  have hok : (idleSource.build (asking "0.4.0") .stopOnFirst (.ok (idleAnswer "27:17:0"))).isOk =
      true := by
    decide +kernel
  cases hbuild : idleSource.build (asking "0.4.0") .stopOnFirst (.ok (idleAnswer "27:17:0")) with
  | error e => rw [hbuild] at hok; cases hok
  | ok u =>
      obtain ⟨f, shown, hf, -, hshown, -, hsnippet, -⟩ :=
        @snippet_of_definition _ _ _ _ _ _ hbuild rfl 0 ⟨idleDefinition "27:17:0"⟩ rfl "27:17:0"
          (.bytes "C.vy" 27 17) rfl (by decide +kernel) (by decide) "def f():\n    pass".toList
          (by decide +kernel)
      refine ⟨u, f, shown, rfl, by decide +kernel, hf, hshown, hsnippet ?_⟩
      exact .behind rfl sameLengthEdit_retargets (by decide +kernel) (by decide +kernel)
        (by decide +kernel)

/-- A directive that is one byte longer moves every span behind it by one byte. -/
theorem snippet_of_longer_directive :
    slice? (idleSource.compilerText (asking "0.3.10")).toList 28 45 =
        some "def f():\n    pass".toList ∧
      (match idleSource.build (asking "0.3.10") .stopOnFirst (.ok (idleAnswer "28:17:0")) with
        | .ok u => (u.functions[0]?.bind (·.source)).bind u.sources.snippet?
        | .error _ => none) = some "ef f():\n    pass\n" :=
  ⟨by decide +kernel, by decide +kernel⟩

end Source

end ContractCalls.Vyper
