/-
# What changes of a file tree keep

A path leads to one place whatever is in the tree; the tree only decides
whether the way is open.  Making directories keeps all there is, and writing a
file keeps all but the file.  So a text stays where it was written until the
same place is written again.
-/
import ContractCalls.CommandLine.Workspace
import ContractCalls.Proofs.Outcome

namespace ContractCalls.CommandLine

open Text

/-! ## The place of a path -/

/-- The place that components lead to, if nothing is in the way. -/
def Place.along (place : Place) (parts : List String) : Place := parts.foldl Place.enter place

/-- The place that a path leads to, if nothing is in the way. -/
@[irreducible] def placeOf (path : String) : Place := (startOf path).along (components path)

/-- A name that leads one place further: it is one component, and neither `.` nor `..`. -/
structure IsPlain (name : String) : Prop where
  ne_empty : name.toList ≠ []
  no_separator : '/' ∉ name.toList
  ne_here : name ≠ "."
  ne_up : name ≠ ".."

theorem Place.enter_of_isPlain {name : String} (h : IsPlain name) (place : Place) :
    place.enter name = ⟨place.origin, place.names ++ [name]⟩ := by
  unfold Place.enter
  split
  · exact absurd rfl h.ne_here
  · exact absurd rfl h.ne_up
  · rfl

theorem splitAtChar_ne_nil (sep : Char) (cs : List Char) : splitAtChar sep cs ≠ [] := by
  cases cs with
  | nil => simp [splitAtChar]
  | cons c cs =>
      rw [splitAtChar]
      split
      · simp
      · split <;> simp

theorem splitAtChar_append (sep : Char) (xs ys : List Char) :
    splitAtChar sep (xs ++ sep :: ys) = splitAtChar sep xs ++ splitAtChar sep ys := by
  induction xs with
  | nil => simp [splitAtChar]
  | cons c xs ih =>
      rw [List.cons_append, splitAtChar, splitAtChar, ih]
      split
      · rfl
      · cases hpieces : splitAtChar sep xs with
        | nil => exact absurd hpieces (splitAtChar_ne_nil sep xs)
        | cons piece rest => rfl

theorem splitAtChar_of_not_mem {sep : Char} {cs : List Char} (h : sep ∉ cs) :
    splitAtChar sep cs = [cs] := by
  induction cs with
  | nil => rfl
  | cons c cs ih =>
      have hc : c ≠ sep := fun heq => h (heq ▸ List.mem_cons_self)
      rw [splitAtChar, if_neg hc, ih fun hmem => h (List.mem_cons_of_mem c hmem)]

/-- A separator cuts the components in two lists. -/
theorem components_append {path : String} (front rear : String)
    (h : path.toList = front.toList ++ '/' :: rear.toList) :
    components path = components front ++ components rear := by
  simp only [components, h, splitAtChar_append, List.filter_append, List.map_append]

theorem components_of_isPlain {name : String} (h : IsPlain name) : components name = [name] := by
  simp [components, splitAtChar_of_not_mem h.no_separator, h.ne_empty]

theorem stringStartsWith_separator (path : String) :
    stringStartsWith "/" path = (path.toList.head? == some '/') := by
  rw [stringStartsWith]
  cases path.toList with
  | nil => rfl
  | cons c cs =>
      by_cases hc : c = '/'
      · subst hc
        rfl
      · have hc' : '/' ≠ c := Ne.symm hc
        simp [startsWith, strip?, hc, hc']

/-- A plain name behind a path leads one place further. -/
theorem placeOf_join {name : String} (h : IsPlain name) (base : String) :
    placeOf (FileName.join base name) =
      ⟨(placeOf base).origin, (placeOf base).names ++ [name]⟩ := by
  have hrelative : FileName.isAbsolute name = false := by
    rw [FileName.isAbsolute, stringStartsWith_separator]
    cases hname : name.toList with
    | nil => rfl
    | cons c cs =>
        have hc : c ≠ '/' := fun heq => h.no_separator (hname ▸ heq ▸ List.mem_cons_self)
        simpa using hc
  have hstart (path : String) (hpath : path.toList.head? = base.toList.head?) :
      startOf path = startOf base := by
    simp only [startOf, stringStartsWith_separator, hpath]
  -- In every case the components are those of the base and the name behind them.
  suffices hjoin : startOf (FileName.join base name) = startOf base ∧
      components (FileName.join base name) = components base ++ [name] by
    unfold placeOf
    rw [hjoin.1, hjoin.2, Place.along, List.foldl_append, List.foldl_cons, List.foldl_nil,
      Place.enter_of_isPlain h]
    rfl
  unfold FileName.join
  rw [hrelative, Bool.false_or]
  split
  · next hempty =>
      obtain rfl : base = "" := String.isEmpty_iff.1 hempty
      have habsolute : stringStartsWith "/" name = false := hrelative
      exact ⟨by rw [startOf, habsolute]; rfl, components_of_isPlain h⟩
  · next hnonempty =>
      obtain ⟨c, cs, hbase⟩ : ∃ c cs, base.toList = c :: cs := by
        cases hlist : base.toList with
        | nil => exact absurd (String.isEmpty_iff.2 (String.toList_eq_nil_iff.1 hlist)) hnonempty
        | cons c cs => exact ⟨c, cs, rfl⟩
      split
      · next hlast =>
          obtain ⟨front, hfront⟩ : ∃ front, base.toList = front ++ ['/'] :=
            List.getLast?_eq_some_iff.1 (eq_of_beq hlast)
          refine ⟨hstart _ (by simp [hbase]), ?_⟩
          have hwhole : components (base ++ name) = components (String.ofList front) ++ [name] := by
            rw [components_append (String.ofList front) name (by simp [hfront]),
              components_of_isPlain h]
          have hfronts : components base = components (String.ofList front) := by
            rw [components_append (String.ofList front) "" (by simp [hfront])]
            exact List.append_nil _
          rw [hwhole, hfronts]
      · refine ⟨hstart _ (by simp [hbase]), ?_⟩
        rw [components_append base name (by simp), components_of_isPlain h]

/-! ## Changes of a tree -/

namespace FileTree

/-- All of the first tree is in the second one, but for files at places that `changed` names, and
the second one has no devices of its own. -/
structure Kept (changed : Place → Prop) (t t' : FileTree) : Prop where
  directories : ∀ place, t.entry? place = some .directory → t'.entry? place = some .directory
  others : ∀ place entry, ¬ changed place → t.entry? place = some entry →
    t'.entry? place = some entry
  sinks : ∀ place, t'.entry? place = some .sink → t.entry? place = some .sink

namespace Kept

variable {changed : Place → Prop} {t t' t'' : FileTree}

theorem refl (t : FileTree) : Kept changed t t := ⟨fun _ h => h, fun _ _ _ h => h, fun _ h => h⟩

theorem trans (h : Kept changed t t') (h' : Kept changed t' t'') : Kept changed t t'' :=
  ⟨fun place hplace => h'.directories place (h.directories place hplace),
    fun place entry hchanged hplace => h'.others place entry hchanged
      (h.others place entry hchanged hplace),
    fun place hplace => h.sinks place (h'.sinks place hplace)⟩

theorem mono (h : Kept changed t t') {changed' : Place → Prop}
    (himp : ∀ place, changed place → changed' place) : Kept changed' t t' :=
  ⟨h.directories, fun place entry hchanged => h.others place entry fun hc =>
    hchanged (himp place hc), h.sinks⟩

theorem ensureDirectory (h : Kept changed t t') {place : Place}
    (hplace : t.ensureDirectory place = .ok ()) : t'.ensureDirectory place = .ok () := by
  unfold FileTree.ensureDirectory at hplace ⊢
  split at hplace
  · next hentry => rw [h.directories place hentry]
  · cases hplace
  · cases hplace

theorem step (h : Kept changed t t') {place next : Place} {component : String}
    (hstep : t.step place component = .ok next) : t'.step place component = .ok next := by
  obtain ⟨⟨⟩, hdirectory, hrest⟩ := bind_eq_ok hstep
  rw [FileTree.step, h.ensureDirectory hdirectory]
  exact hrest

/-- A way that is open stays open. -/
theorem follow (h : Kept changed t t') {place last : Place} {parts : List String}
    (hfollow : t.follow place parts = .ok last) : t'.follow place parts = .ok last := by
  induction parts generalizing place with
  | nil => exact hfollow
  | cons component rest ih =>
      rw [FileTree.follow] at hfollow ⊢
      split at hfollow
      · next next hstep =>
          rw [h.step hstep]
          exact ih hfollow
      · cases hfollow

end Kept

theorem step_eq {t : FileTree} {place next : Place} {component : String}
    (h : t.step place component = .ok next) : next = place.enter component := by
  obtain ⟨-, -, hrest⟩ := bind_eq_ok h
  obtain ⟨-, -, hnext⟩ := bind_eq_ok hrest
  cases hnext
  rfl

theorem follow_eq {t : FileTree} {place last : Place} {parts : List String}
    (h : t.follow place parts = .ok last) : last = place.along parts := by
  induction parts generalizing place with
  | nil => exact (Except.ok.inj h).symm
  | cons component rest ih =>
      rw [follow] at h
      split at h
      · next next hstep => rw [ih h, step_eq hstep]; rfl
      · cases h

theorem follow_concat {t : FileTree} {place directory next : Place} {parts : List String}
    {name : String} (hparts : t.follow place parts = .ok directory)
    (hname : t.step directory name = .ok next) : t.follow place (parts ++ [name]) = .ok next := by
  induction parts generalizing place with
  | nil =>
      obtain rfl := Except.ok.inj hparts
      rw [List.nil_append, follow, hname]
      rfl
  | cons component rest ih =>
      rw [follow] at hparts
      rw [List.cons_append, follow]
      split at hparts
      · next hstep => exact ih hparts
      · cases hparts

theorem entry?_put {t : FileTree} {place : Place} (h : place.names ≠ []) (entry : Entry)
    (other : Place) :
    FileTree.entry? (t.put place entry) other = if place = other then some entry else t.entry? other := by
  unfold entry? put
  by_cases heq : place = other
  · subst heq
    simp [h]
  · simp [heq]

theorem names_ne_nil {t : FileTree} {place : Place} (h : t.entry? place ≠ some .directory) :
    place.names ≠ [] := by
  intro hnames
  exact h (by simp [ entry?, hnames])

/-- An entry where there is no directory. -/
theorem kept_put {t : FileTree} {place : Place} (h : t.entry? place ≠ some .directory)
    {entry : Entry} (hentry : entry ≠ .sink) : Kept (· = place) t (t.put place entry) where
  directories other hother := by
    have hne : place ≠ other := fun heq => h (heq ▸ hother)
    rw [entry?_put (names_ne_nil h), if_neg hne, hother]
  others other old hne hother := by
    rw [entry?_put (names_ne_nil h), if_neg (Ne.symm hne), hother]
  sinks other hother := by
    rw [entry?_put (names_ne_nil h)] at hother
    split at hother
    · exact absurd (Option.some.inj hother) hentry
    · exact hother

/-! ### Directories -/

variable {t t' : FileTree}

theorem kept_makeDirectory {start : Place} {parts : List String}
    (h : t.makeDirectory start parts = .ok t') : Kept (fun _ => False) t t' := by
  obtain ⟨place, -, hplace⟩ := bind_eq_ok h
  split at hplace
  · cases hplace
    exact .refl t
  · cases hplace
  · next hnone =>
      cases hplace
      have hput : Kept (· = place) t (t.put place .directory) := kept_put (by simp [hnone]) nofun
      refine ⟨hput.directories, fun other entry _ hother => hput.others other entry ?_ hother,
        hput.sinks⟩
      rintro rfl
      rw [hnone] at hother
      cases hother

theorem kept_settle {changed : Place → Prop} {outcome : Except SystemError FileTree}
    (h : ∀ t', outcome = .ok t' → Kept changed t t') : Kept changed t (t.settle outcome).2 := by
  cases outcome with
  | ok t' => exact h t' rfl
  | error e => exact .refl t

theorem kept_makeUpwards (t : FileTree) (start : Place) (reversed : List String) :
    Kept (fun _ => False) t (t.makeUpwards start reversed).2 := by
  induction reversed generalizing t with
  | nil => exact .refl t
  | cons name above ih =>
      simp only [makeUpwards]
      split
      · have habove := ih t
        split
        · next hmade =>
            rw [hmade] at habove
            exact habove.trans (kept_settle fun _ => kept_makeDirectory)
        · exact habove
      · exact kept_settle fun _ => kept_makeDirectory

/-- Making directories keeps all there is. -/
theorem kept_makeDirectories (t : FileTree) (path : String) :
    Kept (fun _ => False) t (t.makeDirectories path).2 := by
  unfold makeDirectories
  split
  · exact .refl t
  · split
    · exact kept_makeUpwards ..
    · exact .refl t

/-! ### Files -/

/-- The path leads to a file with the text. -/
structure Holds (t : FileTree) (path text : String) : Prop where
  resolve : t.resolve path = .ok (placeOf path)
  entry : t.entry? (placeOf path) = some (.file text)
  isName : endsInSeparator path = false

theorem Holds.read {path text : String} (h : t.Holds path text) : t.read path = .ok text := by
  have hfind : t.find path = .ok (.file text) := by
    simp [find, h.resolve, h.entry, h.isName, bind, Except.bind]
  rw [FileTree.read, hfind]
  rfl

/-- A file stays until its place is written again. -/
theorem Holds.kept {changed : Place → Prop} {path text : String} (h : t.Holds path text)
    (hkept : Kept changed t t') (hplace : ¬ changed (placeOf path)) : t'.Holds path text := by
  refine ⟨?_, hkept.others _ _ hplace h.entry, h.isName⟩
  obtain ⟨⟨⟩, hcheck, hfollow⟩ := bind_eq_ok h.resolve
  rw [FileTree.resolve, hcheck]
  exact hkept.follow hfollow

/-- Writing changes the file alone, which then holds the text unless it is a device. -/
theorem write_spec {path text : String} (h : t.write path text = .ok t') :
    Kept (· = placeOf path) t t' ∧
      (¬ t.entry? (placeOf path) = some .sink → t'.Holds path text) := by
  obtain ⟨⟨⟩, hcheck, h⟩ := bind_eq_ok h
  obtain ⟨directory, hfollow, h⟩ := bind_eq_ok h
  obtain ⟨⟨⟩, hdirectory, h⟩ := bind_eq_ok h
  split at h
  · next name hname =>
      split at h
      · cases h
      · next hseparator =>
          obtain ⟨place, hstep, h⟩ := bind_eq_ok h
          have hparts : components path = (components path).dropLast ++ [name] :=
            (List.dropLast_append_getLast? name hname).symm
          have hway := follow_concat hfollow hstep
          rw [← hparts] at hway
          have hplace : place = placeOf path := by
            rw [placeOf]
            exact follow_eq hway
          subst hplace
          split at h
          · cases h
          · next hsink =>
              cases h
              exact ⟨.refl t, fun hno => absurd hsink hno⟩
          · next hnot _ =>
              cases h
              have hput : Kept _ t (t.put _ (.file text)) := kept_put hnot nofun
              refine ⟨hput, fun _ => ⟨?_, ?_, by simpa using hseparator⟩⟩
              · rw [resolve, hcheck]
                exact hput.follow hway
              · rw [entry?_put (names_ne_nil hnot), if_pos rfl]
  · cases h

end FileTree

end ContractCalls.CommandLine
