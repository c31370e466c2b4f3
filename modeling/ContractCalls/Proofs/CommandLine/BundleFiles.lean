/-
# The files of bundles

A run writes the bundle of every external function to a file of its own name:
below the chosen directory, the portable names of the target (if there are
several), of the contract and of the uid lead to it.  Two bundles go to one
file exactly if these names agree, and then the later one is all that is left.

Main statement: if portable names tell the targets apart, and the uids of the
external functions of each compilation, then no two external functions of a
run share a file, and at its end each file holds the bundle of its function.
The condition is not idle: `f(uint256)` and `f(uint256[])` have one portable
name, and so have `f()` and `f_()`.
-/
import ContractCalls.CommandLine.Run
import ContractCalls.Proofs.Attempt
import ContractCalls.Proofs.Output.FileName

namespace ContractCalls

open FileName

/-- The contract whose directory the bundle of a function goes to. -/
def Function.bundleContract (f : Function) : String :=
  (f.context.or f.declarer).getD "UnknownContract"

/-- Different functions of the compilation have different uids. -/
def Compilation.UidsDistinct (u : Compilation) : Prop :=
  ∀ id id' f f', u.function? id = some f → u.function? id' = some f' → f.uid = f'.uid → id = id'

/-- The uids of the external functions of a compilation. -/
def Compilation.externalUids (u : Compilation) (query : VisibilityQuery) : List String :=
  ((u.externalEntries query).filterMap u.function?).map Function.uid

namespace CommandLine

/-! ## The place of a bundle -/

/-- The names that lead to the bundle of a function of a target. -/
def bundleNames (targets : List String) (target : String) (f : Function) : List String :=
  (if 1 < targets.length then [safe target] else []) ++ [safe f.bundleContract, f.bundleFile]

theorem placeOf_bundlePath (f : Function) (directory : String) :
    placeOf (f.bundlePath directory) = ⟨(placeOf directory).origin,
      (placeOf directory).names ++ [safe f.bundleContract, f.bundleFile]⟩ := by
  show placeOf (join (join directory (safe f.bundleContract)) f.bundleFile) = _
  rw [placeOf_join f.isPlain_bundleFile, placeOf_join (isPlain_safe _)]
  simp

theorem placeOf_bundlePath_in (base : String) (targets : List String) (target : String)
    (f : Function) :
    placeOf (f.bundlePath (bundleDirectory base targets target)) =
      ⟨(placeOf base).origin, (placeOf base).names ++ bundleNames targets target f⟩ := by
  rw [placeOf_bundlePath, bundleDirectory, bundleNames]
  split
  · rw [placeOf_join (isPlain_safe target)]
    simp
  · simp

/-- Bundles go to one place exactly if the same names lead to it. -/
theorem placeOf_bundlePath_eq_iff (base : String) (targets : List String) (target target' : String)
    (f g : Function) :
    placeOf (f.bundlePath (bundleDirectory base targets target)) =
        placeOf (g.bundlePath (bundleDirectory base targets target')) ↔
      bundleNames targets target f = bundleNames targets target' g := by
  rw [placeOf_bundlePath_in, placeOf_bundlePath_in]
  simp

theorem bundleNames_eq_iff (targets : List String) (target target' : String) (f g : Function) :
    bundleNames targets target f = bundleNames targets target' g ↔
      (1 < targets.length → safe target = safe target') ∧
        safe f.bundleContract = safe g.bundleContract ∧ safe f.uid = safe g.uid ∧
        f.sourceExtension = g.sourceExtension := by
  unfold bundleNames
  rw [← Function.bundleFile_eq_iff]
  split
  · next hseveral => simp [hseveral]
  · next hone => simp [hone]

/-- Bundles have one path exactly if all their portable names agree. -/
theorem bundlePath_eq_iff (base : String) (targets : List String) (target target' : String)
    (f g : Function) :
    f.bundlePath (bundleDirectory base targets target) =
        g.bundlePath (bundleDirectory base targets target') ↔
      (1 < targets.length → safe target = safe target') ∧
        safe f.bundleContract = safe g.bundleContract ∧ safe f.uid = safe g.uid ∧
        f.sourceExtension = g.sourceExtension := by
  constructor
  · intro hpath
    rw [← bundleNames_eq_iff, ← placeOf_bundlePath_eq_iff base, hpath]
  · rintro ⟨htarget, hcontract, huid, hextension⟩
    have hdirectory : bundleDirectory base targets target = bundleDirectory base targets target' := by
      unfold bundleDirectory
      split
      · next hseveral => rw [htarget hseveral]
      · rfl
    show join (join _ (safe f.bundleContract)) (safe f.uid ++ f.sourceExtension) = _
    rw [hdirectory, hcontract, huid, hextension]
    rfl

/-- The only device of the tree is `/dev/null`. -/
def FileTree.OnlyNull (t : FileTree) : Prop :=
  ∀ place, t.entry? place = some .sink → place = ⟨.root, ["dev", "null"]⟩

theorem FileTree.OnlyNull.kept {t t' : FileTree} (h : t.OnlyNull) {changed : Place → Prop}
    (hkept : t.Kept changed t') : t'.OnlyNull :=
  fun place hplace => h place (hkept.sinks place hplace)

/-- A bundle goes to a file, since the name of its file has a dot. -/
theorem FileTree.OnlyNull.not_sink {t : FileTree} (h : t.OnlyNull) (f : Function)
    (directory : String) : t.entry? (placeOf (f.bundlePath directory)) ≠ some .sink := by
  intro hsink
  have hplace := h _ hsink
  rw [placeOf_bundlePath] at hplace
  have hlast := congrArg (fun place : Place => place.names.getLast?) hplace
  have hname : f.bundleFile = "null" := by simpa using hlast
  obtain ⟨extension, hextension, -⟩ := f.sourceExtension_spec
  have hdot : '.' ∈ f.bundleFile.toList := by simp [Function.bundleFile, hextension]
  rw [hname] at hdot
  simp at hdot

/-! ## Requests -/

section Requests

variable {α : Type} {w : Workspace} {err : Failure → Workspace → Prop}

theorem ends_request {context : Option String}
    {outcome : StateM Workspace (Except SystemError α)} {ok : α → Workspace → Prop}
    (hok : ∀ a, (outcome w).1 = .ok a → ok a (outcome w).2)
    (herr : ∀ failure, err failure (outcome w).2) : Ends (request context outcome) w ok err := by
  unfold request
  refine ends_bind (ends_lift ?_)
  cases h : (outcome w).1 with
  | ok a => exact ends_pure (hok a h)
  | error e =>
      cases context with
      | none => exact ends_throw (herr _)
      | some context => exact ends_throw (herr _)

end Requests

variable {compile : FileTree → (binary request : String) → Except SystemError ProgramOutput}
  {w : Workspace}

/-- A file is written, or nothing changes. -/
theorem ends_writeFile (path text : String) :
    Ends (writeFile (Workspace.host compile) path text) w
      (fun _ w' => w.tree.Kept (· = placeOf path) w'.tree ∧
        (¬ w.tree.entry? (placeOf path) = some .sink → w'.tree.Holds path text))
      fun _ w' => w.tree.Kept (· = placeOf path) w'.tree := by
  unfold writeFile
  have hchange : (Workspace.host compile).write path text w =
      ((w.tree.settle (w.tree.write path text)).1,
        { w with tree := (w.tree.settle (w.tree.write path text)).2 }) := rfl
  refine ends_request ?_ ?_
  · rw [hchange]
    intro _ hok
    cases hresult : w.tree.write path text with
    | error e => simp [hresult, FileTree.settle] at hok
    | ok t => exact FileTree.write_spec hresult
  · intro _
    rw [hchange]
    exact FileTree.kept_settle fun t ht => (FileTree.write_spec ht).1

theorem leaves_makeDirectories (context : Option String) (path : String) :
    Leaves (request context ((Workspace.host compile).makeDirectories path)) w
      fun w' => w.tree.Kept (fun _ => False) w'.tree :=
  ends_request (fun _ _ => FileTree.kept_makeDirectories w.tree path)
    fun _ => FileTree.kept_makeDirectories w.tree path

/-- A file is written behind the directories above it. -/
theorem ends_writeBelow (path text : String) :
    Ends (do
        if let some parent := parent? path then
          request (some ("creating " ++ parent)) ((Workspace.host compile).makeDirectories parent)
        writeFile (Workspace.host compile) path text
        return path) w
      (fun _ w' => w.tree.Kept (· = placeOf path) w'.tree ∧
        (¬ w.tree.entry? (placeOf path) = some .sink → w'.tree.Holds path text))
      fun _ w' => w.tree.Kept (· = placeOf path) w'.tree := by
  have hwrite (v : Workspace) (hv : w.tree.Kept (· = placeOf path) v.tree) :
      Ends (do
          writeFile (Workspace.host compile) path text
          return path) v
        (fun _ w' => w.tree.Kept (· = placeOf path) w'.tree ∧
          (¬ w.tree.entry? (placeOf path) = some .sink → w'.tree.Holds path text))
        fun _ w' => w.tree.Kept (· = placeOf path) w'.tree := by
    refine Ends.bind ((ends_writeFile path text).imp (fun _ _ h => h) fun _ _ h => hv.trans h) ?_
    rintro _ w' ⟨hkept, hholds⟩
    exact ends_pure ⟨hv.trans hkept, fun hno => hholds fun hsink => hno (hv.sinks _ hsink)⟩
  have hdirectories : ∀ v : Workspace, w.tree.Kept (fun _ => False) v.tree →
      w.tree.Kept (· = placeOf path) v.tree := fun v hv => hv.mono fun _ hno => hno.elim
  cases parent? path with
  | none => exact hwrite w (.refl w.tree)
  | some parent =>
      exact Ends.bind ((leaves_makeDirectories _ parent).imp (fun _ v hv => hdirectories v hv)
        fun _ v hv => hdirectories v hv) fun _ v hv => hwrite v hv

/-! ## Writing bundles -/

section Writing

variable (filters : CallFilters) (u : Compilation) (directory : String)

/-- The tree holds the bundle of a function. -/
def Written (t : FileTree) (id : FunctionId) : Prop :=
  ∃ f text, u.function? id = some f ∧ u.bundleText id filters = .ok text ∧
    t.Holds (f.bundlePath directory) text

/-- The place is that of the bundle of one of the functions. -/
def BundlePlace (ids : List FunctionId) (place : Place) : Prop :=
  ∃ id ∈ ids, ∃ f, u.function? id = some f ∧ place = placeOf (f.bundlePath directory)

/-- The bundles of different functions go to different places. -/
def PlacesApart (ids : List FunctionId) : Prop :=
  ∀ id ∈ ids, ∀ id' ∈ ids, ∀ f f', u.function? id = some f → u.function? id' = some f' →
    placeOf (f.bundlePath directory) = placeOf (f'.bundlePath directory) → id = id'

variable {filters u directory}

theorem Written.kept {t t' : FileTree} {id : FunctionId} (h : Written filters u directory t id)
    {changed : Place → Prop} (hkept : t.Kept changed t')
    (hplace : ∀ f, u.function? id = some f → ¬ changed (placeOf (f.bundlePath directory))) :
    Written filters u directory t' id := by
  obtain ⟨f, text, hf, htext, hholds⟩ := h
  exact ⟨f, text, hf, htext, hholds.kept hkept (hplace f hf)⟩

theorem bundlePlace_of_function {id : FunctionId} {f : Function} (hf : u.function? id = some f)
    {ids : List FunctionId} (hid : id ∈ ids) :
    BundlePlace u directory ids (placeOf (f.bundlePath directory)) :=
  ⟨id, hid, f, hf, rfl⟩

/-- Writing a bundle changes its file alone; if it succeeds the file holds the bundle. -/
theorem ends_writeBundle (hdevices : w.tree.OnlyNull) (id : FunctionId) :
    Ends (writeBundle (Workspace.host compile) directory filters u id) w
      (fun _ w' => w.tree.Kept (BundlePlace u directory [id]) w'.tree ∧
        Written filters u directory w'.tree id)
      fun _ w' => w.tree.Kept (BundlePlace u directory [id]) w'.tree := by
  unfold writeBundle
  split
  · next f text hf htext =>
      have hplace : BundlePlace u directory [id] (placeOf (f.bundlePath directory)) :=
        bundlePlace_of_function hf (List.mem_singleton_self id)
      have hsink := hdevices.not_sink f directory
      have hwritten (t : FileTree) (ht : t.Holds (f.bundlePath directory) text) :
          Written filters u directory t id := ⟨f, text, hf, htext, ht⟩
      generalize f.bundlePath directory = path at hplace hsink hwritten ⊢
      have hchanged : ∀ place, place = placeOf path → BundlePlace u directory [id] place :=
        fun _ heq => heq ▸ hplace
      refine (ends_writeBelow path text).imp (fun _ w' h => ?_) fun _ _ hkept =>
        hkept.mono hchanged
      exact ⟨h.1.mono hchanged, hwritten w'.tree (h.2 hsink)⟩
  · exact ends_throw (.refl w.tree)

/-- Writing bundles to different places: no bundle is lost to a later one. -/
theorem ends_writeAll (hdevices : w.tree.OnlyNull) (ids : List FunctionId) :
    Ends (ids.mapM (writeBundle (Workspace.host compile) directory filters u)) w
      (fun _ w' => w.tree.Kept (BundlePlace u directory ids) w'.tree ∧
        (PlacesApart u directory ids → ∀ id ∈ ids, Written filters u directory w'.tree id))
      fun _ w' => w.tree.Kept (BundlePlace u directory ids) w'.tree := by
  induction ids generalizing w with
  | nil => exact ends_pure ⟨.refl w.tree, fun _ _ hid => nomatch hid⟩
  | cons id rest ih =>
      rw [List.mapM_cons]
      have hhead : ∀ place, BundlePlace u directory [id] place →
          BundlePlace u directory (id :: rest) place := by
        rintro place ⟨id', hid', h⟩
        exact ⟨id', by simp [List.mem_singleton.1 hid'], h⟩
      have htail : ∀ place, BundlePlace u directory rest place →
          BundlePlace u directory (id :: rest) place := by
        rintro place ⟨id', hid', h⟩
        exact ⟨id', List.mem_cons_of_mem id hid', h⟩
      refine Ends.bind ((ends_writeBundle hdevices id).imp (fun _ _ h => h) fun _ _ h =>
        h.mono hhead) ?_
      rintro _ w₁ ⟨hkept, hwritten⟩
      refine Ends.bind ((ih (hdevices.kept hkept)).imp (fun _ _ h => h) fun _ _ h =>
        (hkept.mono hhead).trans (h.mono htail)) ?_
      rintro _ w₂ ⟨hkept', hrest⟩
      refine ends_pure ⟨(hkept.mono hhead).trans (hkept'.mono htail), ?_⟩
      intro hapart id' hid'
      have hrest := hrest fun i hi j hj => hapart i (List.mem_cons_of_mem id hi) j
        (List.mem_cons_of_mem id hj)
      rcases List.mem_cons.1 hid' with rfl | hmem
      · by_cases hagain : id' ∈ rest
        · exact hrest id' hagain
        · refine hwritten.kept hkept' ?_
          rintro f hf ⟨other, hother, g, hg, hplace⟩
          exact hagain (hapart id' hid' other (List.mem_cons_of_mem id' hother) f g hf hg hplace ▸
            hother)
      · exact hrest id' hmem

end Writing

/-! ## Loading targets -/

section Loading

variable (a : Arguments)

theorem leaves_frontEnd {α : Type} (result : Except FrontEndError α) :
    Leaves (frontEnd result : ExceptT Failure (StateM Workspace) α) w (· = w) := by
  cases result with
  | ok value => exact ends_pure rfl
  | error e => exact ends_throw rfl

theorem leaves_readTarget (path : String) :
    Leaves (readTarget (Workspace.host compile) path) w (· = w) := by
  unfold readTarget
  refine ends_bind (ends_lift ?_)
  split
  · exact ends_pure rfl
  · exact leaves_frontEnd _

theorem host_read (path : String) :
    (Workspace.host compile).read path w = (w.tree.read path, w) := rfl

theorem host_compile (binary request : String) :
    (Workspace.host compile).compile binary request w = (compile w.tree binary request, w) := rfl

theorem readBeside_snd (path : String) (files : List String) :
    (readBeside (Workspace.host compile) path files w).2 = w := by
  induction files with
  | nil => rfl
  | cons file rest ih =>
      unfold readBeside
      simp only [bind, StateT.bind, host_read]
      cases w.tree.read (join ((parent? path).getD ".") file) with
      | ok text => exact ih
      | error e => exact ih

theorem leaves_loadVyper (path : String) :
    Leaves (loadVyper (Workspace.host compile) a path) w (· = w) := by
  unfold loadVyper
  refine Ends.bind (leaves_readTarget path) ?_
  rintro text v rfl
  have hasked : (askCompiler (Workspace.host compile) a ⟨path, text⟩ v).2 = v := by
    unfold askCompiler
    simp only [bind, StateT.bind, host_compile]
    generalize compile v.tree _ _ = output
    cases output with
    | ok output => rfl
    | error e => rfl
  refine ends_bind (ends_lift ?_)
  rw [hasked]
  exact leaves_frontEnd _

theorem leaves_loadSolidity (path : String) :
    Leaves (loadSolidity (Workspace.host compile) a path) w (· = w) := by
  unfold loadSolidity
  refine Ends.bind (leaves_readTarget path) ?_
  rintro text _ rfl
  split
  · exact leaves_frontEnd _
  · refine Ends.bind (leaves_frontEnd _) ?_
    rintro loader _ rfl
    refine ends_bind (ends_lift ?_)
    rw [readBeside_snd]
    dsimp only
    split
    · exact ends_pure rfl
    · exact leaves_frontEnd _

/-- Loading reads and changes nothing. -/
theorem leaves_loadTarget (target : String) :
    Leaves (loadTarget (Workspace.host compile) a target) w (· = w) := by
  unfold loadTarget
  refine ends_bind (ends_lift ?_)
  dsimp only
  split
  · exact ends_bind (ends_throw rfl)
  · split
    · exact leaves_loadVyper a target
    · exact leaves_loadSolidity a target

end Loading

/-! ## Runs -/

/-- Portable names tell the targets apart, if there are several, and the external functions of each
compilation. -/
structure NamesApart (targets : List String) (query : VisibilityQuery)
    (units : List (String × Compilation)) : Prop where
  targets : 1 < targets.length → KeepsApart targets
  distinct : ∀ entry ∈ units, entry.2.UidsDistinct
  uids : ∀ entry ∈ units, KeepsApart (entry.2.externalUids query)

section Runs

variable {a : Arguments} {options : ReportOptions} {targets : List String} {base : String}

theorem NamesApart.subset {query : VisibilityQuery} {units units' : List (String × Compilation)}
    (h : NamesApart targets query units') (hsub : ∀ entry ∈ units, entry ∈ units') :
    NamesApart targets query units :=
  ⟨h.targets, fun entry hentry => h.distinct entry (hsub entry hentry),
    fun entry hentry => h.uids entry (hsub entry hentry)⟩

/-- External functions of one target with the same names are the same function. -/
theorem NamesApart.placesApart {units : List (String × Compilation)}
    (h : NamesApart targets options.query units) {target : String} {u : Compilation}
    (hentry : (target, u) ∈ units) :
    PlacesApart u (bundleDirectory base targets target) (u.externalEntries options.query) := by
  intro id hid id' hid' f f' hf hf' hplace
  rw [placeOf_bundlePath_eq_iff, bundleNames_eq_iff] at hplace
  obtain ⟨-, -, huid, -⟩ := hplace
  have hmem {id : FunctionId} {f : Function} (hid : id ∈ u.externalEntries options.query)
      (hf : u.function? id = some f) : f.uid ∈ u.externalUids options.query :=
    List.mem_map_of_mem (List.mem_filterMap.2 ⟨id, hid, hf⟩)
  exact h.distinct _ hentry id id' f f' hf hf'
    (h.uids _ hentry f.uid (hmem hid hf) f'.uid (hmem hid' hf') huid)

/-- What a run has done for a loaded target: the report says that its bundles could not be written,
or they are all there. -/
def Dumped (options : ReportOptions) (targets : List String) (base : String)
    (errors : List ErrorRecord) (t : FileTree) (entry : String × Compilation) : Prop :=
  (∃ error, ⟨entry.1, "dump-external", error⟩ ∈ errors) ∨
    ∀ id ∈ entry.2.externalEntries options.query,
      Written options.filters entry.2 (bundleDirectory base targets entry.1) t id

/-- A failure that does not end the run is recorded. -/
theorem recordFailure_eq {p p' : Progress} {target stage : String} {failure : Failure}
    (h : p.recordFailure a target stage failure = .ok p') :
    p' = p.addErrors [⟨target, stage, failure.inline⟩] := by
  unfold Progress.recordFailure at h
  split at h
  · cases h
    rfl
  · cases h

/-- Failing to write the bundles of a target is recorded. -/
theorem ends_dumpTarget (hbase : a.value? .bundleDirectory = some base) {p : Progress}
    (hdevices : w.tree.OnlyNull) (target : String) (u : Compilation) :
    Ends (dumpTarget (Workspace.host compile) a options p target u) w
      (fun p' w' =>
        w.tree.Kept (BundlePlace u (bundleDirectory base p.report.targets target)
          (u.externalEntries options.query)) w'.tree ∧
        p'.units = p.units ∧ p'.report.targets = p.report.targets ∧
        (∀ record ∈ p.report.errors, record ∈ p'.report.errors) ∧
        (PlacesApart u (bundleDirectory base p.report.targets target)
            (u.externalEntries options.query) →
          Dumped options p.report.targets base p'.report.errors w'.tree (target, u)))
      fun _ _ => True := by
  unfold dumpTarget
  rw [hbase]
  dsimp only
  refine Ends.bind (ends_writeAll hdevices (u.externalEntries options.query)).outcome ?_
  rintro (failure | paths) w' h
  · refine ends_mk (fun p' hp' => ?_) fun _ _ => trivial
    obtain rfl := recordFailure_eq hp'
    exact ⟨h, rfl, rfl, fun _ => List.mem_append_left _, fun _ => .inl
      ⟨failure.inline, List.mem_append_right _ (List.mem_singleton_self _)⟩⟩
  · exact ends_pure ⟨h.1, rfl, rfl, fun _ hrecord => hrecord, fun hapart => .inr (h.2 hapart)⟩

/-- What a run has done for the targets so far. -/
structure Progressed (options : ReportOptions) (targets : List String) (base : String)
    (done : List String) (p : Progress) (t : FileTree) : Prop where
  targets_eq : p.report.targets = targets
  onlyNull : t.OnlyNull
  loaded : (p.units.map Prod.fst).Sublist done
  dumped : NamesApart targets options.query p.units →
    ∀ entry ∈ p.units, Dumped options targets base p.report.errors t entry

theorem Dumped.kept {errors errors' : List ErrorRecord} {t t' : FileTree}
    {entry : String × Compilation} (h : Dumped options targets base errors t entry)
    (herrors : ∀ record ∈ errors, record ∈ errors') {changed : Place → Prop}
    (hkept : t.Kept changed t')
    (hapart : ∀ f : Function,
      ¬ changed (placeOf (f.bundlePath (bundleDirectory base targets entry.1)))) :
    Dumped options targets base errors' t' entry := by
  refine h.imp ?_ fun hwritten id hid => (hwritten id hid).kept hkept fun f _ => hapart f
  rintro ⟨error, herror⟩
  exact ⟨error, herrors _ herror⟩

theorem one_lt_length_of_ne {xs : List String} {x y : String} (hx : x ∈ xs) (hy : y ∈ xs)
    (hne : x ≠ y) : 1 < xs.length := by
  match xs with
  | [only] => exact absurd ((List.mem_singleton.1 hx).trans (List.mem_singleton.1 hy).symm) hne
  | _ :: _ :: _ => simp

/-- The bundles of different targets go to different places. -/
theorem NamesApart.not_bundlePlace {query : VisibilityQuery} {units : List (String × Compilation)}
    (h : NamesApart targets query units) {target target' : String} (htarget : target ∈ targets)
    (htarget' : target' ∈ targets) (hne : target ≠ target') (f : Function) (u : Compilation)
    (ids : List FunctionId) :
    ¬ BundlePlace u (bundleDirectory base targets target') ids
      (placeOf (f.bundlePath (bundleDirectory base targets target))) := by
  rintro ⟨-, -, g, -, hplace⟩
  have hseveral := one_lt_length_of_ne htarget htarget' hne
  rw [placeOf_bundlePath_eq_iff, bundleNames_eq_iff] at hplace
  exact hne (h.targets hseveral target htarget target' htarget' (hplace.1 hseveral))

/-- One more target. -/
theorem ends_runTarget (hbase : a.value? .bundleDirectory = some base) {done : List String}
    {p : Progress} (hp : Progressed options targets base done p w.tree) {target : String}
    (hdone : ∀ d ∈ done, d ∈ targets) (htarget : target ∈ targets) (hfresh : target ∉ done) :
    Ends (runTarget (Workspace.host compile) a options p target) w
      (fun p' w' => Progressed options targets base (done ++ [target]) p' w'.tree)
      fun _ _ => True := by
  unfold runTarget
  have hskip := hp.loaded.trans (List.sublist_append_left done [target])
  refine Ends.bind (leaves_loadTarget a target).outcome ?_
  rintro (failure | u) v hv
  · obtain rfl : v = w := hv
    refine ends_mk (fun p' hp' => ?_) fun _ _ => trivial
    obtain rfl := recordFailure_eq hp'
    refine ⟨hp.targets_eq, hp.onlyNull, hskip, fun hapart entry hentry => ?_⟩
    exact (hp.dumped hapart entry hentry).imp (fun ⟨error, herror⟩ =>
      ⟨error, List.mem_append_left _ herror⟩) fun h => h
  · obtain rfl : v = w := hv
    dsimp only
    split
    · exact ends_throw trivial
    · next compilation _ =>
        refine Ends.bind (ends_dumpTarget hbase hp.onlyNull target u) ?_
        rintro p' w' ⟨hkept, hunits, htargets, herrors, hdumped⟩
        have htargets' : ((p.addErrors u.errors).addCompilation compilation).report.targets =
            targets := hp.targets_eq
        rw [htargets'] at hkept htargets hdumped
        have hunits : p'.units = p.units := hunits
        refine ends_pure ⟨htargets, hp.onlyNull.kept hkept, ?_, ?_⟩
        · show ((p'.units ++ [(target, u)]).map Prod.fst).Sublist (done ++ [target])
          rw [hunits, List.map_append]
          exact hp.loaded.append (List.Sublist.refl _)
        · intro hapart entry hentry
          have hentry : entry ∈ p.units ∨ entry = (target, u) := by
            have hmem : entry ∈ p'.units ++ [(target, u)] := hentry
            rw [hunits] at hmem
            simpa using hmem
          have hbefore : NamesApart targets options.query p.units := hapart.subset fun e he =>
            List.mem_append_left _ (hunits ▸ he)
          rcases hentry with hentry | rfl
          · have hmem : entry.1 ∈ done := hp.loaded.subset (List.mem_map_of_mem hentry)
            refine (hp.dumped hbefore entry hentry).kept
              (fun record hrecord => herrors record (List.mem_append_left _ hrecord)) hkept ?_
            intro f
            exact hapart.not_bundlePlace (hdone _ hmem) htarget (fun heq => hfresh (heq ▸ hmem)) f u _
          · exact hdumped (hapart.placesApart
              (List.mem_append_right p'.units (List.mem_singleton_self _)))

/-- All targets. -/
theorem ends_runTargets (hbase : a.value? .bundleDirectory = some base) (hdistinct : targets.Nodup)
    {done rest : List String} (hsplit : done ++ rest = targets) {p : Progress}
    (hp : Progressed options targets base done p w.tree) :
    Ends (rest.foldlM (runTarget (Workspace.host compile) a options) p) w
      (fun p' w' => Progressed options targets base targets p' w'.tree) fun _ _ => True := by
  induction rest generalizing done p w with
  | nil =>
      obtain rfl : done = targets := by simpa using hsplit
      exact ends_pure hp
  | cons target rest ih =>
      rw [List.foldlM_cons]
      have hnodup : (done ++ target :: rest).Nodup := hsplit ▸ hdistinct
      have hfresh : target ∉ done := fun hmem =>
        (List.nodup_append.1 hnodup).2.2 target hmem target List.mem_cons_self rfl
      refine Ends.bind (ends_runTarget hbase hp (fun d hd => ?_) ?_ hfresh) fun p' w' hp' =>
        ih (by simpa using hsplit) hp'
      · exact hsplit ▸ List.mem_append_left _ hd
      · exact hsplit ▸ List.mem_append_right _ List.mem_cons_self

/-- Two functions share a file exactly if their portable names agree.  If portable names tell the
targets and uids of a run apart, no two external functions share a file, and at the end the files
hold their bundles, unless the report says that those of a target could not be written. -/
theorem bundles_kept {p : Progress} {w' : Workspace}
    (hbase : a.value? .bundleDirectory = some base) (hdistinct : targets.Nodup)
    (hdevices : w.tree.OnlyNull)
    (hrun : (targets.foldlM (runTarget (Workspace.host compile) a options) (.start targets)).run w =
      (.ok p, w')) :
    (∀ (target target' : String) (f g : Function),
      f.bundlePath (bundleDirectory base targets target) =
          g.bundlePath (bundleDirectory base targets target') ↔
        (1 < targets.length → safe target = safe target') ∧
          safe f.bundleContract = safe g.bundleContract ∧ safe f.uid = safe g.uid ∧
          f.sourceExtension = g.sourceExtension) ∧
    (NamesApart targets options.query p.units →
      (∀ entry ∈ p.units, ∀ id ∈ entry.2.externalEntries options.query,
        ∀ entry' ∈ p.units, ∀ id' ∈ entry'.2.externalEntries options.query,
        ∀ f f', entry.2.function? id = some f → entry'.2.function? id' = some f' →
          f.bundlePath (bundleDirectory base targets entry.1) =
            f'.bundlePath (bundleDirectory base targets entry'.1) →
          entry = entry' ∧ id = id') ∧
      ∀ entry ∈ p.units, (∃ error, ⟨entry.1, "dump-external", error⟩ ∈ p.report.errors) ∨
        ∀ id ∈ entry.2.externalEntries options.query, ∃ f text,
          entry.2.function? id = some f ∧ entry.2.bundleText id options.filters = .ok text ∧
          w'.tree.read (f.bundlePath (bundleDirectory base targets entry.1)) = .ok text) := by
  have hstart : Progressed options targets base [] (.start targets) w.tree :=
    ⟨rfl, hdevices, List.Sublist.refl _, fun _ _ hentry => nomatch hentry⟩
  have hend := (ends_runTargets hbase hdistinct (List.nil_append targets) hstart).leads.of_run hrun
  have hunits : (p.units.map Prod.fst).Nodup := hdistinct.sublist hend.loaded
  refine ⟨bundlePath_eq_iff base targets, fun hnames => ⟨?_, ?_⟩⟩
  · intro entry hentry id hid entry' hentry' id' hid' f f' hf hf' hpath
    have htarget {e : String × Compilation} (he : e ∈ p.units) : e.1 ∈ targets :=
      hend.loaded.subset (List.mem_map_of_mem he)
    have hplace := congrArg placeOf hpath
    have hsame : entry.1 = entry'.1 := by
      by_contra hne
      exact hnames.not_bundlePlace (htarget hentry) (htarget hentry') hne f entry'.2 [id']
        ⟨id', List.mem_singleton_self id', f', hf', hplace⟩
    obtain rfl : entry = entry' := List.inj_on_of_nodup_map hunits hentry hentry' hsame
    exact ⟨rfl, hnames.placesApart hentry id hid id' hid' f f' hf hf' hplace⟩
  · intro entry hentry
    refine (hend.dumped hnames entry hentry).imp (fun h => h) fun hwritten id hid => ?_
    obtain ⟨f, text, hf, htext, hholds⟩ := hwritten id hid
    exact ⟨f, text, hf, htext, hholds.read⟩

end Runs

/-! ## Two runs -/

theorem FileTree.onlyNull_empty : FileTree.empty.OnlyNull := by
  intro place hsink
  by_contra hne
  unfold FileTree.empty at hsink
  rw [entry?_put (by simp), if_neg (Ne.symm hne), entry?_put (by simp)] at hsink
  split at hsink
  · cases hsink
  · rw [entry?_put (by simp)] at hsink
    split at hsink
    · cases hsink
    · unfold FileTree.entry? at hsink
      split at hsink <;> cases hsink

theorem FileTree.OnlyNull.addFile {t : FileTree} (h : t.OnlyNull) (path text : String) :
    (t.addFile path text).OnlyNull := by
  have hmade := FileTree.kept_makeDirectories t ((parent? path).getD "")
  have hwritten : FileTree.Kept (· = placeOf path) _ (t.addFile path text) :=
    FileTree.kept_settle fun _ hwrite => (FileTree.write_spec hwrite).1
  exact (h.kept hmade).kept hwritten

theorem uidsDistinct_of_nodup {u : Compilation} (h : (u.functions.map Function.uid).toList.Nodup) :
    u.UidsDistinct := by
  intro id id' f f' hf hf' huid
  have hget {id : FunctionId} {f : Function} (hf : u.function? id = some f) :
      (u.functions.map Function.uid).toList[id.index]? = some f.uid := by
    rw [Array.getElem?_toList, Array.getElem?_map, show u.functions[id.index]? = some f from hf]
    rfl
  have hindex := (List.getElem?_inj (List.getElem?_eq_some_iff.1 (hget hf)).1 h).1
    ((hget hf).trans ((congrArg some huid).trans (hget hf').symm))
  cases id
  cases id'
  exact congrArg FunctionId.mk hindex

/-- A system without compilers. -/
def noCompiler (_ : FileTree) (_ _ : String) : Except SystemError ProgramOutput := .error .notFound

/-- The output of a compiler for a contract with one external function. -/
def soleFunction : String :=
  "\x7b\"nodeType\":\"SourceUnit\",\"nodes\":[\x7b\"nodeType\":\"ContractDefinition\"," ++
    "\"name\":\"C\",\"nodes\":[\x7b\"nodeType\":\"FunctionDefinition\",\"id\":1," ++
    "\"name\":\"f\",\"visibility\":\"external\",\"implemented\":true\x7d]\x7d]\x7d"

/-- The arguments of a run on some targets. -/
def dumpArguments (targets : List String) : Arguments :=
  ⟨targets, [], [(.bundleDirectory, "out")]⟩

def dumpOptions : ReportOptions := ⟨(dumpArguments []).filters, .default⟩

/-- Files that declare the same contract. -/
def soleTree (targets : List String) : FileTree :=
  targets.foldl (fun t target => t.addFile target soleFunction) .empty

theorem onlyNull_soleTree (targets : List String) : (soleTree targets).OnlyNull := by
  suffices h : ∀ t : FileTree, t.OnlyNull →
      (targets.foldl (fun t target => t.addFile target soleFunction) t).OnlyNull from
    h _ FileTree.onlyNull_empty
  induction targets with
  | nil => exact fun _ h => h
  | cons target targets ih => exact fun t h => ih _ (h.addFile target soleFunction)

/-- The run on files that declare the same contract. -/
def dumpRun (targets : List String) : Except Failure Progress × Workspace :=
  (targets.foldlM (runTarget (Workspace.host noCompiler) (dumpArguments targets) dumpOptions)
    (.start targets)).run (.start (soleTree targets))

/-- What a run has loaded: targets, uids of external functions, and all uids. -/
def loadedUids : Except Failure Progress → Option (List (String × List String × List String))
  | .ok p =>
      if p.report.errors.isEmpty then
        some (p.units.map fun entry => (entry.1, entry.2.externalUids .default,
          (entry.2.functions.map Function.uid).toList))
      else none
  | .error _ => none

theorem eq_ok_of_loadedUids {outcome : Except Failure Progress}
    {loaded : List (String × List String × List String)} (h : loadedUids outcome = some loaded) :
    ∃ p, outcome = .ok p ∧ p.report.errors = [] ∧
      (p.units.map fun entry => (entry.1, entry.2.externalUids .default,
        (entry.2.functions.map Function.uid).toList)) = loaded := by
  unfold loadedUids at h
  split at h
  · next p =>
      split at h
      · next hnone => exact ⟨p, rfl, List.isEmpty_iff.1 hnone, Option.some.inj h⟩
      · cases h
  · cases h

theorem loadedUids_pair : loadedUids (dumpRun ["a.json", "b.json"]).1 =
    some [("a.json", ["C::C.f()"], ["C::C.f()"]), ("b.json", ["C::C.f()"], ["C::C.f()"])] := by
  decide +kernel

theorem bundles_kept_pair : ∃ (p : Progress) (w' : Workspace),
    dumpRun ["a.json", "b.json"] = (.ok p, w') ∧ p.units.map Prod.fst = ["a.json", "b.json"] ∧
    ∀ entry ∈ p.units, ∀ id ∈ entry.2.externalEntries .default, ∃ f text,
      entry.2.function? id = some f ∧ entry.2.bundleText id dumpOptions.filters = .ok text ∧
      w'.tree.read (f.bundlePath (bundleDirectory "out" ["a.json", "b.json"] entry.1)) =
        .ok text := by
  have hloaded := loadedUids_pair
  generalize htargets : ["a.json", "b.json"] = targets at *
  rcases hrun : dumpRun targets with ⟨outcome, w'⟩
  rw [hrun] at hloaded
  obtain ⟨p, rfl, hnone, hunits⟩ := eq_ok_of_loadedUids hloaded
  have huids {entry : String × Compilation} (hentry : entry ∈ p.units) :
      entry.2.externalUids .default = ["C::C.f()"] ∧
        (entry.2.functions.map Function.uid).toList = ["C::C.f()"] := by
    have hmem := List.mem_map_of_mem (f := fun entry : String × Compilation =>
      (entry.1, entry.2.externalUids .default,
        (entry.2.functions.map Function.uid).toList)) hentry
    rw [hunits] at hmem
    simp only [List.mem_cons, Prod.mk.injEq, List.not_mem_nil, or_false] at hmem
    rcases hmem with ⟨-, h⟩ | ⟨-, h⟩
    · exact h
    · exact h
  have hnames : NamesApart targets .default p.units := by
    refine ⟨fun _ => ?_, fun entry hentry => ?_, fun entry hentry => ?_⟩
    · subst htargets
      unfold KeepsApart
      decide +kernel
    · exact uidsDistinct_of_nodup (by rw [(huids hentry).2]; simp)
    · rw [(huids hentry).1]
      simp [KeepsApart]
  obtain ⟨-, hkept⟩ := bundles_kept (a := dumpArguments targets)
    (show (dumpArguments targets).value? .bundleDirectory = some "out" from rfl)
    (by simp [← htargets]) (onlyNull_soleTree targets) hrun
  refine ⟨p, w', rfl, ?_, fun entry hentry => ?_⟩
  · have hfirst := congrArg (List.map Prod.fst) hunits
    rw [List.map_map] at hfirst
    exact hfirst.trans htargets
  · refine ((hkept hnames).2 entry hentry).resolve_left ?_
    rintro ⟨error, herror⟩
    rw [hnone] at herror
    cases herror

/-- Two targets share a directory: of the bundles of two functions one file is left. -/
theorem trimmed_targets_share_file :
    loadedUids (dumpRun ["c.json", "_c.json"]).1 =
      some [("c.json", ["C::C.f()"], ["C::C.f()"]), ("_c.json", ["C::C.f()"], ["C::C.f()"])] ∧
    (dumpRun ["c.json", "_c.json"]).2.tree.files.map Prod.fst =
      ["c.json", "_c.json", "out/c.json/C/C__C.f.sol"] := by
  decide +kernel

end CommandLine

end ContractCalls
