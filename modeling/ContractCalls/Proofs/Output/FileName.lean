/-
# Portable names

A portable name is one component of a path, and the last dot of a file name
separates it from the extension.  Making a text portable forgets which unsafe
characters it had, and how many; signatures spelled with plain words are told
apart all the same, since each separator of a signature leaves a trace of its
own.  A text that is a safe component already stays as it is, so making it
portable a second time changes nothing.
-/
import ContractCalls.Output.BundleText
import ContractCalls.Proofs.CommandLine.FileTree
import ContractCalls.Proofs.Text.Blank
import Mathlib

namespace ContractCalls

open Text CommandLine

namespace FileName

/-! ## Portable names are plain -/

theorem isSafe_collapseUnsafe (inRun : Bool) (cs : List Char) :
    ∀ c ∈ collapseUnsafe inRun cs, isSafe c = true := by
  fun_induction collapseUnsafe inRun cs with
  | case1 => simp
  | case2 inRun c cs hc ih => simpa [hc] using ih
  | case3 c cs hc ih => exact ih
  | case4 inRun c cs hc hrun ih => simpa [isSafe] using ih

/-- What a portable name looks like. -/
structure IsPortable (name : List Char) : Prop where
  ne_nil : name ≠ []
  isSafe : ∀ c ∈ name, isSafe c = true
  first : ∀ c, name.head? = some c → isEdge c = false

theorem isPortable_safe (text : String) : IsPortable (safe text).toList := by
  unfold safe
  cases hcs : dropBoth isEdge (collapseUnsafe false (replaceColons text.toList)) with
  | nil =>
      refine ⟨by simp, by simp [FileName.isSafe], fun c hc => ?_⟩
      obtain rfl : 'u' = c := by simpa using hc
      decide
  | cons first rest =>
      rw [String.toList_ofList, ← hcs]
      refine ⟨by simp [hcs], fun c hc => ?_, fun c => head?_dropBoth⟩
      exact isSafe_collapseUnsafe _ _ c (mem_of_mem_dropBoth hc)

/-- A portable name ends in a letter or a digit, as it begins. -/
theorem getLast?_safe {text : String} {c : Char} (h : (safe text).toList.getLast? = some c) :
    isEdge c = false := by
  unfold safe at h
  cases hcs : dropBoth isEdge (collapseUnsafe false (replaceColons text.toList)) with
  | nil =>
      rw [hcs] at h
      obtain rfl : 'd' = c := by simpa using h
      decide
  | cons first rest =>
      rw [hcs, String.toList_ofList, ← hcs] at h
      exact getLast?_dropRight h

theorem IsPortable.isPlain {name : String} (h : IsPortable name.toList) (extension : String)
    (hextension : '/' ∉ extension.toList) : IsPlain (name ++ extension) := by
  obtain ⟨c, cs, hname⟩ : ∃ c cs, name.toList = c :: cs := List.exists_cons_of_ne_nil h.ne_nil
  have hdot : c ≠ '.' := by
    rintro rfl
    have := h.first '.' (by rw [hname]; rfl)
    revert this
    decide
  have hfirst (text : String) (htext : text.toList.head? = some '.') : name ++ extension ≠ text := by
    rintro rfl
    rw [String.toList_append, hname] at htext
    exact hdot (Option.some.inj htext)
  refine ⟨by simp [hname], ?_, hfirst "." rfl, hfirst ".." rfl⟩
  rw [String.toList_append, List.mem_append]
  rintro (hmem | hmem)
  · have := h.isSafe '/' hmem
    revert this
    decide
  · exact hextension hmem

theorem isPlain_safe (text : String) : IsPlain (safe text) := by
  simpa using (isPortable_safe text).isPlain "" (by simp)

/-! ## Extensions -/

theorem not_mem_of_splitFirst? {p : Char → Bool} {cs before after : List Char}
    (h : splitFirst? p cs = some (before, after)) :
    (∀ c ∈ before, p c = false) ∧ ∀ c ∈ before, c ∈ cs := by
  induction cs generalizing before with
  | nil => cases h
  | cons c cs ih =>
      rw [splitFirst?] at h
      split at h
      · cases h
        simp
      · next hc =>
          obtain ⟨⟨front, rest⟩, hfront, heq⟩ := Option.map_eq_some_iff.1 h
          cases heq
          obtain ⟨hfree, hmem⟩ := ih hfront
          simp only [List.mem_cons]
          refine ⟨?_, ?_⟩
          · rintro d (rfl | hd)
            · simpa using hc
            · exact hfree d hd
          · rintro d (rfl | hd)
            · exact .inl rfl
            · exact .inr (hmem d hd)

/-- An extension has neither dots nor separators. -/
theorem extension?_spec {path extension : String} (h : extension? path = some extension) :
    '.' ∉ extension.toList ∧ '/' ∉ extension.toList := by
  obtain ⟨cs, hcs, rfl⟩ := Option.map_eq_some_iff.1 h
  obtain ⟨⟨front, name⟩, hname, hext⟩ := Option.bind_eq_some_iff.1 hcs
  obtain ⟨hlast, -⟩ := Option.filter_eq_some_iff.1 hname
  have hseparator : '/' ∉ name := by
    unfold splitLast? at hlast
    split at hlast
    · cases hlast
    · cases hlast
      intro hmem
      have := List.mem_takeWhile_imp (List.mem_reverse.1 hmem)
      simp at this
  change (splitName name).2 = some cs at hext
  unfold splitName at hext
  split at hext
  · cases hext
  · next hsplit =>
      cases hext
      obtain ⟨hfree, hmem⟩ := not_mem_of_splitFirst? hsplit
      rw [String.toList_ofList]
      refine ⟨fun hdot => ?_, fun hslash => ?_⟩
      · simpa using hfree '.' (List.mem_reverse.1 hdot)
      · exact hseparator (List.mem_reverse.1 (hmem '/' (List.mem_reverse.1 hslash)))
  · cases hext

/-! ## Signatures -/

/-- The portable names tell the texts apart. -/
def KeepsApart (texts : List String) : Prop :=
  ∀ a ∈ texts, ∀ b ∈ texts, safe a = safe b → a = b

/-- A word of letters and digits. -/
structure IsWord (word : List Char) : Prop where
  ne_nil : word ≠ []
  alphanum : ∀ c ∈ word, c.isAlphanum = true

namespace IsWord

variable {word : List Char}

theorem isSafe (h : IsWord word) : ∀ c ∈ word, isSafe c = true := by
  intro c hc
  simp [FileName.isSafe, h.alphanum c hc]

/-- Separators are no part of a word. -/
theorem not_mem (h : IsWord word) {c : Char} (hc : c.isAlphanum = false) : c ∉ word := by
  intro hmem
  rw [h.alphanum c hmem] at hc
  cases hc

theorem not_isEdge (h : IsWord word) {c : Char} (hc : c ∈ word) : isEdge c = false := by
  by_contra hedge
  simp only [isEdge, Bool.or_eq_true, beq_iff_eq, Bool.not_eq_false] at hedge
  rcases hedge with (rfl | rfl) | rfl
  · exact h.not_mem (by decide) hc
  · exact h.not_mem (by decide) hc
  · exact h.not_mem (by decide) hc

end IsWord

/-- The parts of a uid `context::declarer.name(type,...)`. -/
structure Spelling where
  context : List Char
  declarer : List Char
  name : List Char
  types : List (List Char)

namespace Spelling

/-- The types behind the name, each with `sep` in front. -/
def typeList (s : Spelling) (sep : Char) : List Char := s.types.flatMap (sep :: ·)

/-- The signature as written. -/
def uid (s : Spelling) : List Char :=
  s.context ++ ':' :: ':' :: (s.declarer ++ '.' :: (s.name ++ '(' ::
    ([','].intercalate s.types ++ [')'])))

/-- The signature as a portable name. -/
def portable (s : Spelling) : List Char :=
  s.context ++ '_' :: '_' :: (s.declarer ++ '.' :: (s.name ++ s.typeList '_'))

/-- Names and types are words. -/
structure IsPlain (s : Spelling) : Prop where
  context : IsWord s.context
  declarer : IsWord s.declarer
  name : IsWord s.name
  types : ∀ t ∈ s.types, IsWord t

theorem replaceColons_append {cs : List Char} (h : ':' ∉ cs) (rest : List Char) :
    replaceColons (cs ++ rest) = cs ++ replaceColons rest := by
  induction cs with
  | nil => rfl
  | cons c cs ih =>
      obtain ⟨hc, hcs⟩ : ':' ≠ c ∧ ':' ∉ cs := by simpa using h
      rw [List.cons_append, replaceColons, ih hcs]
      · rfl
      · rintro _ rfl
        exact absurd rfl hc

theorem replaceColons_of_not_mem {cs : List Char} (h : ':' ∉ cs) : replaceColons cs = cs := by
  simpa [replaceColons] using replaceColons_append h []

theorem collapseUnsafe_append {cs : List Char} (h : ∀ c ∈ cs, FileName.isSafe c = true)
    (rest : List Char) : collapseUnsafe false (cs ++ rest) = cs ++ collapseUnsafe false rest := by
  induction cs with
  | nil => rfl
  | cons c cs ih =>
      rw [List.cons_append, collapseUnsafe, if_pos (h c List.mem_cons_self),
        ih fun d hd => h d (List.mem_cons_of_mem c hd)]
      rfl

theorem collapseUnsafe_word {word : List Char} (h : IsWord word) (inRun : Bool) (rest : List Char) :
    collapseUnsafe inRun (word ++ rest) = word ++ collapseUnsafe false rest := by
  have hsafe := h.isSafe
  obtain ⟨c, cs, rfl⟩ := List.exists_cons_of_ne_nil h.ne_nil
  rw [List.cons_append, collapseUnsafe, if_pos (hsafe c List.mem_cons_self),
    collapseUnsafe_append fun d hd => hsafe d (List.mem_cons_of_mem c hd)]
  rfl

/-- The parameter list: each of its separators becomes one underscore. -/
theorem collapseUnsafe_types {types : List (List Char)} (h : ∀ t ∈ types, IsWord t) :
    '_' :: collapseUnsafe true ([','].intercalate types ++ [')']) =
      types.flatMap ('_' :: ·) ++ ['_'] := by
  have hclose : collapseUnsafe false [')'] = ['_'] := by decide
  induction types with
  | nil => decide
  | cons t types ih =>
      have ht := h t List.mem_cons_self
      have hcomma (rest : List Char) :
          collapseUnsafe false (',' :: rest) = '_' :: collapseUnsafe true rest := by
        rw [collapseUnsafe, if_neg (by decide), if_neg Bool.false_ne_true]
      cases types with
      | nil => simp [collapseUnsafe_word ht, hclose]
      | cons t' types =>
          have ih := ih fun t'' ht'' => h t'' (List.mem_cons_of_mem t ht'')
          rw [List.intercalate_cons_cons, List.append_assoc, List.append_assoc,
            collapseUnsafe_word ht, List.singleton_append, hcomma, ih, List.flatMap_cons]
          simp

theorem mem_intercalate {sep c : Char} {words : List (List Char)}
    (h : c ∈ [sep].intercalate words) : c = sep ∨ ∃ w ∈ words, c ∈ w := by
  induction words with
  | nil => cases h
  | cons w words ih =>
      cases words with
      | nil => exact .inr ⟨w, List.mem_cons_self, by simpa using h⟩
      | cons w' words =>
          rw [List.intercalate_cons_cons, List.mem_append, List.mem_append,
            List.mem_singleton] at h
          rcases h with (h | h) | h
          · exact .inr ⟨w, List.mem_cons_self, h⟩
          · exact .inl h
          · obtain hsep | ⟨x, hx, hcx⟩ := ih h
            · exact .inl hsep
            · exact .inr ⟨x, List.mem_cons_of_mem w hx, hcx⟩

variable {s s' : Spelling}

/-- A plain signature ends in a word, the name or the last type. -/
theorem getLast?_portable (h : s.IsPlain) {c : Char} (hc : s.portable.getLast? = some c) :
    isEdge c = false := by
  obtain ⟨front, word, hword, hportable⟩ : ∃ front word, IsWord word ∧
      s.portable = front ++ word := by
    obtain ⟨context, declarer, name, types⟩ := s
    rcases List.eq_nil_or_concat types with rfl | ⟨init, last, rfl⟩
    · exact ⟨context ++ '_' :: '_' :: (declarer ++ ['.']), name, h.name, by simp [portable, typeList]⟩
    · exact ⟨context ++ '_' :: '_' :: (declarer ++ '.' :: (name ++ init.flatMap ('_' :: ·) ++ ['_'])),
        last, h.types last (by simp), by simp [portable, typeList]⟩
  refine hword.not_isEdge (List.mem_of_getLast? ?_)
  rw [hportable, List.getLast?_append] at hc
  cases hlast : word.getLast? with
  | none => exact absurd (List.getLast?_eq_none_iff.1 hlast) hword.ne_nil
  | some d => rwa [hlast, Option.some_or] at hc

/-- The portable name of a plain signature. -/
theorem safe_uid (h : s.IsPlain) : safe (String.ofList s.uid) = String.ofList s.portable := by
  have hcolon {word : List Char} (hword : IsWord word) : ':' ∉ word := hword.not_mem (by decide)
  have htypes : ':' ∉ [','].intercalate s.types := by
    intro hmem
    obtain hsep | ⟨t, ht, hmem⟩ := mem_intercalate hmem
    · exact absurd hsep (by decide)
    · exact hcolon (h.types t ht) hmem
  have hreplaced : replaceColons s.uid = s.context ++ '_' :: '_' :: (s.declarer ++ '.' ::
      (s.name ++ '(' :: ([','].intercalate s.types ++ [')']))) := by
    rw [uid, replaceColons_append (hcolon h.context), replaceColons, replaceColons_of_not_mem]
    simp [hcolon h.declarer, hcolon h.name, htypes]
  have hsafe {c : Char} (hc : FileName.isSafe c = true) (rest : List Char) :
      collapseUnsafe false (c :: rest) = c :: collapseUnsafe false rest := by
    rw [collapseUnsafe, if_pos hc]
  have hopen (rest : List Char) :
      collapseUnsafe false ('(' :: rest) = '_' :: collapseUnsafe true rest := by
    rw [collapseUnsafe, if_neg (by decide), if_neg Bool.false_ne_true]
  have hcollapsed : collapseUnsafe false (replaceColons s.uid) = s.portable ++ ['_'] := by
    rw [hreplaced, collapseUnsafe_word h.context, hsafe (by decide), hsafe (by decide),
      collapseUnsafe_word h.declarer, hsafe (by decide), collapseUnsafe_word h.name, hopen,
      collapseUnsafe_types h.types]
    simp [portable, typeList]
  obtain ⟨c, cs, hcontext⟩ := List.exists_cons_of_ne_nil h.context.ne_nil
  have hfirst : dropLeft isEdge (s.portable ++ ['_']) = s.portable ++ ['_'] := by
    have hc : isEdge c = false := h.context.not_isEdge (by rw [hcontext]; exact List.mem_cons_self)
    simp [dropLeft, portable, hcontext, hc]
  have hboth : dropBoth isEdge (collapseUnsafe false (replaceColons s.uid)) = s.portable := by
    rw [hcollapsed, dropBoth, hfirst]
    exact dropRight_append (fun _ => getLast?_portable h) (by simp [isEdge])
  unfold safe
  rw [String.toList_ofList, hboth]
  split
  · next hnil => simp [portable] at hnil
  · rfl

/-- The words of a signature stand between the underscores of its portable name. -/
theorem splitAtChar_portable (h : s.IsPlain) :
    splitAtChar '_' s.portable = s.context :: [] :: (s.declarer ++ '.' :: s.name) :: s.types := by
  have hfree {word : List Char} (hword : IsWord word) : '_' ∉ word := hword.not_mem (by decide)
  have htypes (types : List (List Char)) (htypes : ∀ t ∈ types, '_' ∉ t) (front : List Char)
      (hfront : '_' ∉ front) :
      splitAtChar '_' (front ++ types.flatMap ('_' :: ·)) = front :: types := by
    induction types generalizing front with
    | nil => simpa using splitAtChar_of_not_mem hfront
    | cons t types ih =>
        rw [List.flatMap_cons, List.cons_append, splitAtChar_append, splitAtChar_of_not_mem hfront,
          ih (fun t' ht' => htypes t' (List.mem_cons_of_mem t ht')) t (htypes t List.mem_cons_self)]
        rfl
  have hrest := htypes s.types (fun t ht => hfree (h.types t ht)) (s.declarer ++ '.' :: s.name)
    (by simp [hfree h.declarer, hfree h.name])
  rw [List.append_assoc] at hrest
  rw [portable, splitAtChar_append, splitAtChar_of_not_mem (hfree h.context), splitAtChar, if_pos rfl,
    typeList]
  exact congrArg (fun rest => s.context :: [] :: rest) hrest

/-- Plain signatures with the same portable name are the same. -/
theorem eq_of_safe_uid (h : s.IsPlain) (h' : s'.IsPlain)
    (heq : safe (String.ofList s.uid) = safe (String.ofList s'.uid)) : s = s' := by
  rw [safe_uid h, safe_uid h', String.ofList_inj] at heq
  have hpieces := congrArg (splitAtChar '_') heq
  rw [splitAtChar_portable h, splitAtChar_portable h'] at hpieces
  simp only [List.cons.injEq, true_and] at hpieces
  obtain ⟨hcontext, hmiddle, htypes⟩ := hpieces
  have hdot {word : List Char} (hword : IsWord word) : '.' ∉ word := hword.not_mem (by decide)
  have hnames := congrArg (splitAtChar '.') hmiddle
  rw [splitAtChar_append, splitAtChar_append, splitAtChar_of_not_mem (hdot h.declarer),
    splitAtChar_of_not_mem (hdot h.name), splitAtChar_of_not_mem (hdot h'.declarer),
    splitAtChar_of_not_mem (hdot h'.name)] at hnames
  simp only [List.singleton_append, List.cons.injEq, and_true] at hnames
  obtain ⟨context, declarer, name, types⟩ := s
  obtain ⟨context', declarer', name', types'⟩ := s'
  simp_all

end Spelling

/-- Portable names tell plain signatures apart. -/
theorem keepsApart_of_isPlain {texts : List String}
    (h : ∀ text ∈ texts, ∃ s : Spelling, s.IsPlain ∧ text = String.ofList s.uid) :
    KeepsApart texts := by
  intro a ha b hb heq
  obtain ⟨s, hs, rfl⟩ := h a ha
  obtain ⟨s', hs', rfl⟩ := h b hb
  rw [Spelling.eq_of_safe_uid hs hs' heq]

/-! ## Names that are portable already -/

/-- The marks that a name may have between letters and digits. -/
def marks : List Char := ['.', '_', '-']

/-- A name that is one component of a path wherever it stands: ASCII letters, digits and marks,
with no mark at either end. -/
structure IsComponent (name : String) : Prop where
  ne_empty : name ≠ ""
  chars : ∀ c ∈ name.toList, c.isAlphanum = true ∨ c ∈ marks
  first : ∀ c, name.toList.head? = some c → c ∉ marks
  last : ∀ c, name.toList.getLast? = some c → c ∉ marks

theorem isEdge_iff {c : Char} : isEdge c = true ↔ c ∈ marks := by
  simp [isEdge, marks, or_assoc]

theorem isSafe_iff {c : Char} : isSafe c = true ↔ c.isAlphanum = true ∨ c ∈ marks := by
  simp [isSafe, marks, or_assoc]

theorem isEdge_eq_false_iff {c : Char} : isEdge c = false ↔ c ∉ marks := by
  rw [← isEdge_iff, Bool.not_eq_true]

theorem isComponent_safe (text : String) : IsComponent (safe text) where
  ne_empty h := (isPortable_safe text).ne_nil (by rw [h]; rfl)
  chars c hc := isSafe_iff.1 ((isPortable_safe text).isSafe c hc)
  first c hc := isEdge_eq_false_iff.1 ((isPortable_safe text).first c hc)
  last _ hc := isEdge_eq_false_iff.1 (getLast?_safe hc)

/-- Each of the three steps to a portable name leaves a component alone. -/
theorem IsComponent.safe_eq_self {name : String} (h : IsComponent name) : safe name = name := by
  have hsafe : ∀ c ∈ name.toList, isSafe c = true := fun c hc => isSafe_iff.2 (h.chars c hc)
  have hcolon : ':' ∉ name.toList := fun hmem => absurd (hsafe ':' hmem) (by decide)
  have hcollapsed : collapseUnsafe false name.toList = name.toList := by
    simpa [collapseUnsafe] using Spelling.collapseUnsafe_append hsafe []
  have hends : dropBoth isEdge name.toList = name.toList :=
    dropBoth_eq_self_iff.2
      ⟨fun c hc => isEdge_eq_false_iff.2 (h.first c hc),
        fun c hc => isEdge_eq_false_iff.2 (h.last c hc)⟩
  unfold safe
  rw [Spelling.replaceColons_of_not_mem hcolon, hcollapsed, hends]
  split
  · next hnil => exact absurd (String.toList_eq_nil_iff.1 hnil) h.ne_empty
  · exact String.ofList_toList

/-- Exactly the components are left as they are. -/
theorem safe_eq_self_iff {name : String} : safe name = name ↔ IsComponent name := by
  constructor
  · intro h
    rw [← h]
    exact isComponent_safe name
  · exact IsComponent.safe_eq_self

/-- A portable name is one safe component of a path, whatever the text; a text stays as it is
exactly if it is such a component, so a portable name stays. -/
theorem safe_names_one_component (text : String) :
    IsComponent (safe text) ∧ IsPlain (safe text) ∧ components (safe text) = [safe text] ∧
      safe (safe text) = safe text ∧ (safe text = text ↔ IsComponent text) := by
  have hplain : IsPlain (safe text) := isPlain_safe text
  have hcomponent : IsComponent (safe text) := isComponent_safe text
  have hsingle : components (safe text) = [safe text] := components_of_isPlain hplain
  exact ⟨hcomponent, hplain, hsingle, hcomponent.safe_eq_self, safe_eq_self_iff⟩

example : [safe "src/a b.sol", safe "Pay::__default__", safe "..."] =
    ["src_a_b.sol", "Pay____default", "unnamed"] := by decide

end FileName

namespace Function

/-- The extension of a function: a dot, and what has neither dots nor separators. -/
theorem sourceExtension_spec (f : Function) :
    ∃ extension : List Char, f.sourceExtension.toList = '.' :: extension ∧ '.' ∉ extension ∧
      '/' ∉ extension := by
  unfold sourceExtension
  split
  · next extension h =>
      obtain ⟨span, -, hextension⟩ := Option.bind_eq_some_iff.1 h
      obtain ⟨hdot, hseparator⟩ := FileName.extension?_spec hextension
      exact ⟨extension.toList, by simp, hdot, hseparator⟩
  · exact ⟨"sol".toList, by simp, by decide, by decide⟩

/-- The name of the file for the bundle of a function. -/
def bundleFile (f : Function) : String := FileName.safe f.uid ++ f.sourceExtension

theorem isPlain_bundleFile (f : Function) : CommandLine.IsPlain f.bundleFile := by
  obtain ⟨extension, hextension, -, hseparator⟩ := f.sourceExtension_spec
  refine (FileName.isPortable_safe f.uid).isPlain _ ?_
  rw [hextension]
  simpa using hseparator

theorem append_dot_inj {xs ys e e' : List Char} (h : xs ++ '.' :: e = ys ++ '.' :: e')
    (he : '.' ∉ e) (he' : '.' ∉ e') : xs = ys ∧ e = e' := by
  rcases List.append_eq_append_iff.1 h with ⟨mid, hys, hrest⟩ | ⟨mid, hxs, hrest⟩
  · cases mid with
    | nil => exact ⟨by simpa using hys.symm, by simpa using hrest⟩
    | cons c mid =>
        have : '.' ∈ e := by
          have hcons := (List.cons.inj hrest).2
          rw [hcons]
          simp
        exact absurd this he
  · cases mid with
    | nil => exact ⟨by simpa using hxs, by simpa using hrest.symm⟩
    | cons c mid =>
        have : '.' ∈ e' := by
          have hcons := (List.cons.inj hrest).2
          rw [hcons]
          simp
        exact absurd this he'

/-- Two functions have the same file exactly if their portable uids and their extensions agree. -/
theorem bundleFile_eq_iff (f g : Function) :
    f.bundleFile = g.bundleFile ↔
      FileName.safe f.uid = FileName.safe g.uid ∧ f.sourceExtension = g.sourceExtension := by
  constructor
  · intro h
    obtain ⟨e, he, hdot, -⟩ := f.sourceExtension_spec
    obtain ⟨e', he', hdot', -⟩ := g.sourceExtension_spec
    have hlists := congrArg String.toList h
    simp only [bundleFile, String.toList_append, he, he'] at hlists
    obtain ⟨huid, hext⟩ := append_dot_inj hlists hdot hdot'
    exact ⟨String.toList_inj.1 huid, String.toList_inj.1 (by rw [he, he', hext])⟩
  · rintro ⟨huid, hext⟩
    rw [bundleFile, bundleFile, huid, hext]

end Function

end ContractCalls
