/-
# Types are read back from their texts

The text of a type keeps its parts apart by brackets: outside them it has only
the characters of names.  So a separator outside brackets is one that the text
of a mapping or a tuple puts between its parts, the last bracket of an array
closes its size, and the first word of a text tells which kind of type it is.
-/
import ContractCalls.Proofs.Text.Digits
import ContractCalls.Proofs.Ty.Location

namespace ContractCalls.Ty

open Text

/-! ## Types that are built from names -/

/-- The characters that hold the parts of a type together. -/
def punctuation : List Char := ['(', ')', '[', ']', ',', '=', '>']

/-- The beginnings of texts that are taken for function types and literals. -/
def reservedBeginnings : List String := ["function", "literal_string", "literal_hex", "hex_string"]

/-- The name of an elementary type. -/
structure IsTypeName (name : List Char) : Prop where
  ne_nil : name ≠ []
  not_blank : ∀ c ∈ name, isBlank c = false
  no_punctuation : ∀ c ∈ punctuation, c ∉ name
  not_reserved : ∀ word ∈ reservedBeginnings, startsWith word.toList name = false

/-- A type built from elementary ones by arrays, mappings, tuples and type expressions. -/
inductive IsComposed : Ty → Prop
  | elementary {name : String} : IsTypeName name.toList → IsComposed (.elementary name)
  | array {element : Ty} {size : Option Nat} : IsComposed element → (∀ n ∈ size, n ≤ maxWord) →
      IsComposed (.array element size)
  | mapping {key value : Ty} : IsComposed key → IsComposed value → IsComposed (.mapping key value)
  | tuple {items : List Ty} : (∀ item ∈ items, IsComposed item) → IsComposed (.tuple items)
  | typeOf {inner : Ty} : IsComposed inner → IsComposed (.typeOf inner)

/-! ## Texts of types -/

/-- The text of a type as its characters. -/
def text (t : Ty) : List Char := t.render.toList

/-- The text of the size of an array. -/
def sizeText : Option Nat → List Char
  | some n => (toString n).toList
  | none => []

theorem renderItems_eq (items : List Ty) : renderItems items = items.map render := by
  induction items with
  | nil => rfl
  | cons item items ih => rw [renderItems, ih, List.map_cons]

theorem text_array (element : Ty) (size : Option Nat) :
    text (.array element size) = text element ++ '[' :: (sizeText size ++ [']']) := by
  cases size <;> simp [text, render, sizeText]

theorem text_mapping (key value : Ty) : text (.mapping key value) =
    "mapping(".toList ++ ((text key ++ " => ".toList ++ text value) ++ ")".toList) := by
  simp [text, render]

theorem text_tuple (items : List Ty) : text (.tuple items) =
    "tuple(".toList ++ ([','].intercalate (items.map text) ++ ")".toList) := by
  simp only [text, render, renderItems_eq, String.toList_append, String.toList_intercalate,
    List.map_map, List.append_assoc]
  rfl

theorem text_typeOf (inner : Ty) :
    text (.typeOf inner) = "type(".toList ++ (text inner ++ ")".toList) := by
  simp [text, render]

/-- A size has digits only. -/
theorem notMem_sizeText {c : Char} (hc : digitValue? 10 c = none) (size : Option Nat) :
    c ∉ sizeText size := by
  cases size with
  | none => simp [sizeText]
  | some n =>
      obtain ⟨ds, -, hds, -⟩ := exists_digits_toString n
      rw [sizeText, hds]
      exact Digit.notMem_text (by decide) hc ds

theorem getLast?_closed (front inner : List Char) (c : Char) :
    (front ++ (inner ++ [c])).getLast? = some c := by
  rw [← List.append_assoc, List.getLast?_concat]

/-- A text that ends in a closing bracket is bare. -/
theorem isBare_of_bracket {text : List Char} {c : Char} (hc : c = ')' ∨ c = ']')
    (hlast : text.getLast? = some c) (hfirst : ∀ c, text.head? = some c → isBlank c = false) :
    IsBare text := by
  have hne : text ≠ [] := by
    rintro rfl
    cases hlast
  refine ⟨hne, ⟨hfirst, ?_⟩, ?_⟩
  · intro d hd
    obtain rfl := Option.some.inj (hlast.symm.trans hd)
    rcases hc with rfl | rfl <;> decide
  · rintro word hword front rfl
    rw [List.getLast?_append_of_ne_nil _ (locationWord_ne_nil hword)] at hlast
    have hletters : ∀ word ∈ locationWords,
        word.getLast? ≠ some ')' ∧ word.getLast? ≠ some ']' := by
      decide
    obtain ⟨hround, hsquare⟩ := hletters word hword
    rcases hc with rfl | rfl
    · exact hround hlast
    · exact hsquare hlast

theorem IsTypeName.isBare {name : List Char} (h : IsTypeName name) : IsBare name := by
  refine ⟨h.ne_nil, isTrimmed_of_forall h.not_blank, ?_⟩
  rintro word hword front rfl
  obtain ⟨letters, rfl, -⟩ := locationWord_cases hword
  have hspace := h.not_blank ' ' (by simp)
  exact absurd hspace (by decide)

/-- The text of a type has nothing around it. -/
theorem IsComposed.isBare {t : Ty} (h : t.IsComposed) : IsBare t.text := by
  induction h with
  | elementary hname => exact hname.isBare
  | array helement hsize ih =>
      rw [text_array]
      refine isBare_of_bracket (.inr rfl) (getLast?_closed _ ('[' :: _) ']') ?_
      rw [List.head?_append_of_ne_nil _ ih.ne_nil]
      exact ih.trimmed.first
  | mapping hkey hvalue ihkey ihvalue =>
      rw [text_mapping]
      exact isBare_of_bracket (.inl rfl) (getLast?_closed _ _ ')') (by simp [isBlank])
  | tuple hitems ih =>
      rw [text_tuple]
      exact isBare_of_bracket (.inl rfl) (getLast?_closed _ _ ')') (by simp [isBlank])
  | typeOf hinner ih =>
      rw [text_typeOf]
      exact isBare_of_bracket (.inl rfl) (getLast?_closed _ _ ')') (by simp [isBlank])

/-! ## Separators outside brackets -/

/-- The pieces with a text in front of the first. -/
def prepend (front : List Char) : List (List Char) → List (List Char)
  | [] => [front]
  | piece :: pieces => (front ++ piece) :: pieces

theorem prepend_append (xs ys : List Char) (pieces : List (List Char)) :
    prepend (xs ++ ys) pieces = prepend xs (prepend ys pieces) := by
  cases pieces <;> simp [prepend]

/-- There is always a piece. -/
theorem splitOutside_ne_nil (sep : List Char) (skip : Nat) (depth : Int) (cs : List Char) :
    splitOutside sep skip depth cs ≠ [] := by
  fun_induction splitOutside sep skip depth cs <;> simp_all

/-- No separator begins in the text, which leads from one depth to another. -/
def Passes (sep : List Char) (depth depth' : Int) (text : List Char) : Prop :=
  ∀ rest, splitOutside sep 0 depth (text ++ rest) = prepend text (splitOutside sep 0 depth' rest)

/-- The two separators begin with a comma or an equals sign. -/
def isMark (c : Char) : Prop := c = ',' ∨ c = '='

section Passing

variable {c : Char} {sep : List Char} {depth depth' : Int} {xs ys : List Char}

theorem passes_nil : Passes sep depth depth [] := by
  intro rest
  rw [List.nil_append]
  cases hpieces : splitOutside sep 0 depth rest with
  | nil => exact absurd hpieces (splitOutside_ne_nil sep 0 depth rest)
  | cons piece pieces => rfl

theorem Passes.append {depth'' : Int} (hx : Passes sep depth depth' xs)
    (hy : Passes sep depth' depth'' ys) : Passes sep depth depth'' (xs ++ ys) := by
  intro rest
  rw [List.append_assoc, hx, hy, prepend_append]

theorem passes_char {d : Char} (h : d ≠ c ∨ depthAfter depth d ≠ 0) :
    Passes (c :: sep) depth (depthAfter depth d) [d] := by
  intro rest
  have hnot : ¬ (depthAfter depth d = 0 ∧ (c :: sep).isPrefixOf (d :: rest)) := by
    rintro ⟨hdepth, hbegins⟩
    rw [List.isPrefixOf_iff_prefix, List.cons_prefix_cons] at hbegins
    exact h.elim (fun hne => hne hbegins.1.symm) fun hne => hne hdepth
  rw [List.cons_append, List.nil_append, splitOutside, if_neg hnot]
  rfl

theorem depthAfter_of_plain {d : Char} (h : d ∉ ['(', ')', '[', ']']) :
    depthAfter depth d = depth := by
  simp only [List.mem_cons, List.not_mem_nil, or_false, not_or] at h
  simp [depthAfter, h]

/-- Characters other than brackets pass, inside brackets also those of a separator. -/
theorem passes_of_plain (h : ∀ d ∈ xs, d ∉ ['(', ')', '[', ']']) (hmark : c ∉ xs ∨ depth ≠ 0) :
    Passes (c :: sep) depth depth xs := by
  induction xs with
  | nil => exact passes_nil
  | cons d xs ih =>
      rw [List.forall_mem_cons] at h
      have hfirst : Passes (c :: sep) depth depth [d] := by
        have hchar : Passes (c :: sep) depth (depthAfter depth d) [d] :=
          passes_char (hmark.imp (fun hmem heq => hmem (heq ▸ List.mem_cons_self))
            fun hdepth => by rwa [depthAfter_of_plain h.1])
        rwa [depthAfter_of_plain h.1] at hchar
      exact hfirst.append (ih h.2 (hmark.imp_left fun hmem hx => hmem (List.mem_cons_of_mem d hx)))

/-- What passes inside brackets passes with the brackets around it. -/
theorem Passes.brackets {opening closing : Char} {inner : List Char} (hmark : isMark c)
    (hdepth : 0 ≤ depth) (hbrackets : opening = '(' ∧ closing = ')' ∨ opening = '[' ∧ closing = ']')
    (hinner : Passes (c :: sep) (depth + 1) (depth + 1) inner) :
    Passes (c :: sep) depth depth (opening :: (inner ++ [closing])) := by
  have hopen : Passes (c :: sep) depth (depth + 1) [opening] := by
    have hafter : depthAfter depth opening = depth + 1 := by
      rcases hbrackets with ⟨rfl, -⟩ | ⟨rfl, -⟩ <;> rfl
    have hchar : Passes (c :: sep) depth (depthAfter depth opening) [opening] :=
      passes_char (.inr (by omega))
    rwa [hafter] at hchar
  have hclose : Passes (c :: sep) (depth + 1) depth [closing] := by
    have hafter : depthAfter (depth + 1) closing = depth := by
      rcases hbrackets with ⟨-, rfl⟩ | ⟨-, rfl⟩ <;> exact Int.add_sub_cancel depth 1
    have hne : closing ≠ c := by
      rcases hbrackets with ⟨-, rfl⟩ | ⟨-, rfl⟩ <;> rcases hmark with rfl | rfl <;> decide
    have hchar : Passes (c :: sep) (depth + 1) (depthAfter (depth + 1) closing) [closing] :=
      passes_char (.inl hne)
    rwa [hafter] at hchar
  exact hopen.append (hinner.append hclose)

end Passing

/-- A name has no brackets. -/
theorem no_bracket_of_forall {xs : List Char} (h : ∀ c ∈ punctuation, c ∉ xs) :
    ∀ d ∈ xs, d ∉ ['(', ')', '[', ']'] :=
  fun d hd hbracket => h d (List.mem_append_left [',', '=', '>'] hbracket) hd

/-- Parts with commas between them pass inside brackets. -/
theorem passes_intercalate {c : Char} {sep : List Char} {depth : Int} (hdepth : depth ≠ 0)
    {texts : List (List Char)} (h : ∀ xs ∈ texts, Passes (c :: sep) depth depth xs) :
    Passes (c :: sep) depth depth ([','].intercalate texts) := by
  induction texts with
  | nil => exact passes_nil
  | cons xs texts ih =>
      rw [List.forall_mem_cons] at h
      cases texts with
      | nil => simpa using h.1
      | cons ys texts =>
          have hcomma : Passes (c :: sep) depth depth [','] :=
            passes_of_plain (by simp) (.inr hdepth)
          rw [List.intercalate_cons_cons]
          exact (h.1.append hcomma).append (ih h.2)

/-- No separator begins in the text of a type. -/
theorem IsComposed.passes {t : Ty} (h : t.IsComposed) {c : Char} (hc : isMark c) (sep : List Char)
    {depth : Int} (hdepth : 0 ≤ depth) : Passes (c :: sep) depth depth t.text := by
  have hmark : c ∈ punctuation := by rcases hc with rfl | rfl <;> decide
  have hword (word : List Char) (halpha : word.all Char.isAlpha) (depth : Int) :
      Passes (c :: sep) depth depth word := by
    have hnone : ∀ d ∈ punctuation, d.isAlpha = false := by simp [punctuation]
    have hno : ∀ d ∈ punctuation, d ∉ word := by
      intro d hd hmem
      rw [List.all_eq_true] at halpha
      exact absurd (halpha d hmem) (by simp [hnone d hd])
    exact passes_of_plain (no_bracket_of_forall hno) (.inl (hno c hmark))
  induction h generalizing depth with
  | elementary hname =>
      exact passes_of_plain (no_bracket_of_forall hname.no_punctuation)
        (.inl (hname.no_punctuation c hmark))
  | @array element size helement hsize ih =>
      have hnone : ∀ d ∈ punctuation, digitValue? 10 d = none := by
        simp [punctuation, digitValue?, hexValue?]
      have hno : ∀ d ∈ punctuation, d ∉ sizeText size :=
        fun d hd => notMem_sizeText (hnone d hd) size
      rw [text_array]
      exact (ih hdepth).append (.brackets hc hdepth (.inr ⟨rfl, rfl⟩)
        (passes_of_plain (no_bracket_of_forall hno) (.inl (hno c hmark))))
  | mapping hkey hvalue ihkey ihvalue =>
      have harrow : Passes (c :: sep) (depth + 1) (depth + 1) " => ".toList :=
        passes_of_plain (by simp) (.inr (by omega))
      rw [text_mapping]
      exact (hword "mapping".toList rfl depth).append (.brackets hc hdepth (.inl ⟨rfl, rfl⟩)
        (((ihkey (by omega)).append harrow).append (ihvalue (by omega))))
  | @tuple items hitems ih =>
      rw [text_tuple]
      refine (hword "tuple".toList rfl depth).append (.brackets hc hdepth (.inl ⟨rfl, rfl⟩)
        (passes_intercalate (by omega) ?_))
      intro xs hxs
      obtain ⟨item, hitem, rfl⟩ := List.mem_map.1 hxs
      exact ih item hitem (by omega)
  | typeOf hinner ih =>
      rw [text_typeOf]
      exact (hword "type".toList rfl depth).append (.brackets hc hdepth (.inl ⟨rfl, rfl⟩)
        (ih (by omega)))

/-! ## Parts -/

/-- A text that no separator begins in is one piece. -/
theorem Passes.splitOutside_eq {sep xs : List Char} (h : Passes sep 0 0 xs) :
    splitOutside sep 0 0 xs = [xs] := by
  have hsplit := h []
  rwa [List.append_nil, splitOutside, prepend, List.append_nil] at hsplit

/-- What is left of a separator is passed over. -/
theorem splitOutside_skip (sep : List Char) (depth : Int) (xs rest : List Char) :
    splitOutside sep xs.length depth (xs ++ rest) = splitOutside sep 0 depth rest := by
  induction xs with
  | nil => rfl
  | cons x xs ih => rw [List.length_cons, List.cons_append, splitOutside, ih]

/-- A separator behind a text that none begins in cuts there. -/
theorem Passes.splitOutside_append {c : Char} {sep xs : List Char} (h : Passes (c :: sep) 0 0 xs)
    (hc : isMark c) (rest : List Char) :
    splitOutside (c :: sep) 0 0 (xs ++ ((c :: sep) ++ rest)) =
      xs :: splitOutside (c :: sep) 0 0 rest := by
  have hdepth : depthAfter 0 c = 0 := by rcases hc with rfl | rfl <;> rfl
  have hbegins : (c :: sep).isPrefixOf (c :: (sep ++ rest)) := by
    rw [List.isPrefixOf_iff_prefix]
    exact List.prefix_append (c :: sep) rest
  rw [h, List.cons_append, splitOutside, if_pos ⟨hdepth, hbegins⟩, List.length_cons,
    Nat.add_sub_cancel, splitOutside_skip, prepend, List.append_nil, hdepth]

/-- The two parts of a mapping. -/
theorem parts_mapping {key value : Ty} (hkey : key.IsComposed) (hvalue : value.IsComposed) :
    parts "=>" (text key ++ " => ".toList ++ text value) = [text key, text value] := by
  have hmark : isMark '=' := .inr rfl
  have hspace : Passes ['=', '>'] 0 0 [' '] := passes_of_plain (by simp) (.inl (by simp))
  have hfront := (hkey.passes hmark ['>'] le_rfl).append hspace
  have hrear := hspace.append (hvalue.passes hmark ['>'] le_rfl)
  have hsplit : splitOutside "=>".toList 0 0 (text key ++ " => ".toList ++ text value) =
      [text key ++ [' '], [' '] ++ text value] := by
    rw [show text key ++ " => ".toList ++ text value =
        (text key ++ [' ']) ++ (['=', '>'] ++ ([' '] ++ text value)) by simp]
    exact (hfront.splitOutside_append hmark _).trans (congrArg _ hrear.splitOutside_eq)
  have htrimKey : trim ([] ++ (text key ++ [' '])) = text key :=
    hkey.isBare.trimmed.trim_around (by simp) (by simp [isBlank])
  have htrimValue : trim ([' '] ++ (text value ++ [])) = text value :=
    hvalue.isBare.trimmed.trim_around (by simp [isBlank]) (by simp)
  rw [List.nil_append] at htrimKey
  rw [List.append_nil] at htrimValue
  rw [parts, hsplit, List.map_cons, List.map_cons, List.map_nil, htrimKey, htrimValue]

/-- Texts in which no comma cuts are read back from the text that joins them by commas. -/
theorem splitOutside_intercalate {texts : List (List Char)} (hne : texts ≠ [])
    (h : ∀ xs ∈ texts, Passes [','] 0 0 xs) :
    splitOutside [','] 0 0 ([','].intercalate texts) = texts := by
  induction texts with
  | nil => exact absurd rfl hne
  | cons xs texts ih =>
      rw [List.forall_mem_cons] at h
      cases texts with
      | nil => simpa using h.1.splitOutside_eq
      | cons ys texts =>
          rw [List.intercalate_cons_cons, List.append_assoc]
          exact (h.1.splitOutside_append (.inl rfl) _).trans (congrArg _ (ih (by simp) h.2))

/-- The parts of a tuple that has some. -/
theorem parts_tuple {items : List Ty} (hne : items ≠ [])
    (hitems : ∀ item ∈ items, item.IsComposed) :
    parts "," ([','].intercalate (items.map text)) = items.map text := by
  have hpasses : ∀ xs ∈ items.map text, Passes [','] 0 0 xs :=
    List.forall_mem_map.2 fun item hitem => (hitems item hitem).passes (.inl rfl) [] le_rfl
  show (splitOutside [','] 0 0 _).map trim = _
  rw [splitOutside_intercalate (by simpa using hne) hpasses, List.map_map]
  exact List.map_congr_left fun item hitem => (hitems item hitem).isBare.trimmed.trim

/-! ## Arrays -/

/-- The bracket that opens the last pair, behind which there are no brackets. -/
theorem openingBracket?_append {inner : List Char} (hno : '[' ∉ inner ∧ ']' ∉ inner)
    (passed front : List Char) :
    openingBracket? 1 passed (inner ++ '[' :: front) =
      some (front.reverse, inner.reverse ++ passed) := by
  induction inner generalizing passed with
  | nil => rw [List.nil_append, openingBracket?, if_neg (by decide), if_pos rfl, if_pos rfl]; rfl
  | cons c inner ih =>
      simp only [List.mem_cons, not_or] at hno
      rw [List.cons_append, openingBracket?, if_neg (Ne.symm hno.2.1), if_neg (Ne.symm hno.1.1),
        ih ⟨hno.1.2, hno.2.2⟩, List.reverse_cons, List.append_assoc]
      rfl

theorem arrayParts?_text (element : Ty) (size : Option Nat) :
    arrayParts? (text (.array element size)) = some (text element, sizeText size) := by
  have hreverse : (text (.array element size)).reverse =
      ']' :: ((sizeText size).reverse ++ '[' :: (text element).reverse) := by
    simp [text_array]
  have hno : '[' ∉ (sizeText size).reverse ∧ ']' ∉ (sizeText size).reverse := by
    rw [List.mem_reverse, List.mem_reverse]
    exact ⟨notMem_sizeText rfl size, notMem_sizeText rfl size⟩
  rw [arrayParts?, hreverse]
  show openingBracket? 1 [] _ = _
  rw [openingBracket?_append hno, List.reverse_reverse, List.reverse_reverse, List.append_nil]

theorem word?_sizeText {size : Option Nat} (hsize : ∀ n ∈ size, n ≤ maxWord) :
    word? (trim (sizeText size)) = size := by
  cases size with
  | none => rfl
  | some n =>
      have hblank : ∀ value < 10, ∀ isUpper : Bool, isBlank
          (if isUpper then (Nat.digitChar value).toUpper else Nat.digitChar value) = false := by
        decide
      have hdigits : ∀ c ∈ sizeText (some n), isBlank c = false := by
        obtain ⟨ds, -, hds, -⟩ := exists_digits_toString n
        rw [sizeText, hds]
        intro c hc
        obtain ⟨d, -, rfl⟩ := List.mem_map.1 hc
        exact hblank d.value d.value_lt d.isUpper
      rw [(isTrimmed_of_forall hdigits).trim]
      exact word?_toString (hsize n rfl)

/-! ## Reading each kind of type -/

/-- A text between an opening and a closing part. -/
theorem between?_append (opening closing : String) (inner : List Char) :
    between? opening closing (opening.toList ++ (inner ++ closing.toList)) = some inner := by
  rw [between?, strip?_append, Option.bind_some, stripEnd?_append]

/-- A text that ends otherwise is not between the two parts. -/
theorem between?_eq_none {text : List Char} (h : text.getLast? ≠ some ')') (opening : String) :
    between? opening ")" text = none := by
  refine Option.eq_none_iff_forall_ne_some.2 fun inner hinner => h ?_
  obtain ⟨rest, hrest, hend⟩ := Option.bind_eq_some_iff.1 hinner
  rw [strip?_eq_some_iff] at hrest
  rw [stripEnd?_eq_some_iff] at hend
  rw [hrest, hend]
  exact getLast?_closed opening.toList inner ')'

/-- The text of a type is not taken for that of a function type. -/
theorem IsComposed.not_function {t : Ty} (h : t.IsComposed) :
    startsWith "function".toList t.text = false := by
  induction h with
  | elementary hname => exact hname.not_reserved "function" (by simp [reservedBeginnings])
  | array helement hsize ih => rw [text_array, startsWith_append_cons (by simp), ih]
  | mapping hkey hvalue => rw [text_mapping]; rfl
  | tuple hitems => rw [text_tuple]; rfl
  | typeOf hinner => rw [text_typeOf]; rfl

/-- A name that is not reserved is the name of an elementary type. -/
theorem IsTypeName.plain {name : String} (h : IsTypeName name.toList) :
    plain name.toList = .elementary name := by
  have hspace : ' ' ∉ name.toList := by
    intro hmem
    exact absurd (h.not_blank ' ' hmem) (by decide)
  have hstrip (word : String) (hword : ' ' ∈ word.toList) : strip? word.toList name.toList = none :=
    strip?_eq_none hword hspace
  have hreserved (word : String) (hword : word ∈ reservedBeginnings) :
      startsWith word.toList name.toList = false := h.not_reserved word hword
  have hrational : startsWith "rational_const ".toList name.toList = false := by
    rw [startsWith, hstrip _ (by simp)]
    rfl
  have hnamed : named? name.toList = none := by
    simp only [named?, hstrip "struct " (by simp), hstrip "enum " (by simp),
      hstrip "contract " (by simp), hstrip "library " (by simp), hstrip "interface " (by simp),
      Option.or_none]
  have hliteral : literal? name.toList = none := by
    simp only [literal?, hstrip "int_const " (by simp), hrational,
      hreserved "literal_string" (by simp [reservedBeginnings]),
      hreserved "literal_hex" (by simp [reservedBeginnings]),
      hreserved "hex_string" (by simp [reservedBeginnings]), Bool.or_false, Bool.false_eq_true,
      if_false]
  rw [Ty.plain, hnamed, hliteral, Option.none_or, Option.getD_none, String.ofList_toList]

section Reading

variable {fuel : Nat}

theorem parseWith_elementary {name : String} (h : IsTypeName name.toList) :
    parseWith (fuel + 1) (text (.elementary name)) = .elementary name := by
  have hround (opening : String) (hopening : '(' ∈ opening.toList) :
      between? opening ")" name.toList = none := by
    rw [between?, strip?_eq_none hopening (h.no_punctuation '(' (by simp [punctuation]))]
    rfl
  have hfunction : startsWith "function".toList name.toList = false :=
    (IsComposed.elementary h).not_function
  have harray : arrayParts? name.toList = none := by
    unfold arrayParts?
    split
    · next cs hreverse =>
        refine absurd ?_ (h.no_punctuation ']' (by simp [punctuation]))
        rw [← List.mem_reverse, hreverse]
        exact List.mem_cons_self
    · rfl
  show parseWith (fuel + 1) name.toList = _
  simp only [parseWith, h.isBare.trimmed.trim, h.isBare.isEmpty, h.isBare.dropLocations_self,
    hround "type(" (by simp), hround "mapping(" (by simp), hround "tuple(" (by simp), hfunction,
    harray, h.plain, Bool.false_eq_true, if_false]

theorem parseWith_array {element : Ty} {size : Option Nat} (helement : element.IsComposed)
    (hsize : ∀ n ∈ size, n ≤ maxWord) (ih : parseWith fuel (text element) = element) :
    parseWith (fuel + 1) (text (.array element size)) = .array element size := by
  have h := IsComposed.array helement hsize
  have hlast : (text (.array element size)).getLast? = some ']' := by
    rw [text_array]
    exact getLast?_closed _ ('[' :: _) ']'
  have hnot : (text (.array element size)).getLast? ≠ some ')' := by simp [hlast]
  have hround := between?_eq_none hnot
  simp only [parseWith, h.isBare.trimmed.trim, h.isBare.isEmpty, h.isBare.dropLocations_self,
    hround, h.not_function, arrayParts?_text, ih, word?_sizeText hsize, Bool.false_eq_true,
    if_false]

theorem parseWith_mapping {key value : Ty} (hkey : key.IsComposed) (hvalue : value.IsComposed)
    (ihkey : parseWith fuel (text key) = key) (ihvalue : parseWith fuel (text value) = value) :
    parseWith (fuel + 1) (text (.mapping key value)) = .mapping key value := by
  have h := IsComposed.mapping hkey hvalue
  have htype : between? "type(" ")" (text (.mapping key value)) = none := by
    rw [text_mapping]
    rfl
  have hmapping : between? "mapping(" ")" (text (.mapping key value)) =
      some (text key ++ " => ".toList ++ text value) := by
    rw [text_mapping]
    exact between?_append ..
  simp only [parseWith, h.isBare.trimmed.trim, h.isBare.isEmpty, h.isBare.dropLocations_self,
    htype, hmapping, parts_mapping hkey hvalue, ihkey, ihvalue, Bool.false_eq_true, if_false]

theorem parseWith_tuple {items : List Ty} (hitems : ∀ item ∈ items, item.IsComposed)
    (ih : ∀ item ∈ items, parseWith fuel (text item) = item) :
    parseWith (fuel + 1) (text (.tuple items)) = .tuple items := by
  have h := IsComposed.tuple hitems
  have htype : between? "type(" ")" (text (.tuple items)) = none := by
    rw [text_tuple]
    rfl
  have hmapping : between? "mapping(" ")" (text (.tuple items)) = none := by
    rw [text_tuple]
    rfl
  have htuple : between? "tuple(" ")" (text (.tuple items)) =
      some ([','].intercalate (items.map text)) := by
    rw [text_tuple]
    exact between?_append ..
  simp only [parseWith, h.isBare.trimmed.trim, h.isBare.isEmpty, h.isBare.dropLocations_self,
    htype, hmapping, htuple, Bool.false_eq_true, if_false]
  cases items with
  | nil => rfl
  | cons item items =>
      have hbare := (hitems item List.mem_cons_self).isBare
      obtain ⟨c, cs, hcs⟩ := List.exists_cons_of_ne_nil hbare.ne_nil
      have hmem : c ∈ [','].intercalate ((item :: items).map text) := by
        cases items <;> simp [List.intercalate_cons_cons, hcs]
      have hne : (trim ([','].intercalate ((item :: items).map text))).isEmpty = false := by
        simpa using trim_ne_nil hmem (hbare.trimmed.first c (by rw [hcs]; rfl))
      have hmap : (item :: items).map (parseWith fuel ∘ text) = item :: items :=
        (List.map_congr_left ih).trans (List.map_id _)
      rw [hne, if_neg Bool.false_ne_true, parts_tuple (by simp) hitems, List.map_map, hmap]

theorem parseWith_typeOf {inner : Ty} (hinner : inner.IsComposed)
    (ih : parseWith fuel (text inner) = inner) :
    parseWith (fuel + 1) (text (.typeOf inner)) = .typeOf inner := by
  have h := IsComposed.typeOf hinner
  have htype : between? "type(" ")" (text (.typeOf inner)) = some (text inner) := by
    rw [text_typeOf]
    exact between?_append ..
  simp only [parseWith, h.isBare.trimmed.trim, h.isBare.isEmpty, h.isBare.dropLocations_self,
    htype, ih, Bool.false_eq_true, if_false]

end Reading

theorem length_le_intercalate {sep : List Char} {texts : List (List Char)} {xs : List Char}
    (h : xs ∈ texts) : xs.length ≤ (sep.intercalate texts).length := by
  induction texts with
  | nil => cases h
  | cons ys texts ih =>
      cases texts with
      | nil => simpa using (List.mem_singleton.1 h ▸ le_rfl : xs.length ≤ ys.length)
      | cons zs texts =>
          rw [List.intercalate_cons_cons, List.length_append, List.length_append]
          rcases List.mem_cons.1 h with rfl | hrest
          · omega
          · have := ih hrest
            omega

/-- The text of a type is read as that type, with fuel above its length. -/
theorem IsComposed.parseWith_text {t : Ty} (h : t.IsComposed) {fuel : Nat}
    (hfuel : t.text.length < fuel) : parseWith fuel t.text = t := by
  induction h generalizing fuel with
  | elementary hname =>
      obtain ⟨fuel, rfl⟩ := Nat.exists_eq_add_one_of_ne_zero (Nat.ne_zero_of_lt hfuel)
      exact parseWith_elementary hname
  | array helement hsize ih =>
      obtain ⟨fuel, rfl⟩ := Nat.exists_eq_add_one_of_ne_zero (Nat.ne_zero_of_lt hfuel)
      simp only [text_array, List.length_append, List.length_cons] at hfuel
      exact parseWith_array helement hsize (ih (by omega))
  | mapping hkey hvalue ihkey ihvalue =>
      obtain ⟨fuel, rfl⟩ := Nat.exists_eq_add_one_of_ne_zero (Nat.ne_zero_of_lt hfuel)
      rw [text_mapping, List.length_append, List.length_append, List.length_append,
        List.length_append, show "mapping(".toList.length = 8 from rfl] at hfuel
      exact parseWith_mapping hkey hvalue (ihkey (by omega)) (ihvalue (by omega))
  | @tuple items hitems ih =>
      obtain ⟨fuel, rfl⟩ := Nat.exists_eq_add_one_of_ne_zero (Nat.ne_zero_of_lt hfuel)
      rw [text_tuple, List.length_append, List.length_append,
        show "tuple(".toList.length = 6 from rfl] at hfuel
      refine parseWith_tuple hitems fun item hitem => ih item hitem ?_
      have hle : (text item).length ≤ ([','].intercalate (items.map text)).length :=
        length_le_intercalate (List.mem_map_of_mem hitem)
      omega
  | typeOf hinner ih =>
      obtain ⟨fuel, rfl⟩ := Nat.exists_eq_add_one_of_ne_zero (Nat.ne_zero_of_lt hfuel)
      rw [text_typeOf, List.length_append, List.length_append,
        show "type(".toList.length = 5 from rfl] at hfuel
      exact parseWith_typeOf hinner (ih (by omega))

/-- Location texts behind one another are words behind one another. -/
theorem exists_words {locationTexts : List String}
    (h : ∀ location ∈ locationTexts, location.toList ∈ locations) :
    ∃ words : List (List Char), (∀ word ∈ words, word ∈ locationWords) ∧
      (String.join locationTexts).toList = words.flatten := by
  induction locationTexts with
  | nil => exact ⟨[], by simp, by simp⟩
  | cons location locationTexts ih =>
      rw [List.forall_mem_cons] at h
      obtain ⟨words, -, hwords, hlocation⟩ := location_cases h.1
      obtain ⟨others, hothers, hjoin⟩ := ih h.2
      refine ⟨words ++ others, fun word hword => ?_, ?_⟩
      · exact (List.mem_append.1 hword).elim (hwords word) (hothers word)
      · rw [String.join_cons, String.toList_append, hlocation, hjoin, List.flatten_append]

/-- A type built from names is read back from its text, whatever locations stand behind it. -/
theorem parse_render_join {t : Ty} (h : t.IsComposed) {locationTexts : List String}
    (hlocations : ∀ location ∈ locationTexts, location.toList ∈ locations) :
    parse (t.render ++ String.join locationTexts) = t := by
  obtain ⟨words, hwords, hjoin⟩ := exists_words hlocations
  rw [parse, String.toList_append, hjoin]
  show parseWith _ (text t ++ words.flatten) = t
  rw [h.isBare.parseWith_append hwords]
  exact h.parseWith_text (by simp [text])

/-- A mapping of names to lists of tuples. -/
def ledger : Ty :=
  .mapping (.elementary "address")
    (.array (.tuple [.array (.elementary "uint256") (some 3), .elementary "bool"]) none)

theorem parse_render_join_ledger :
    ledger.IsComposed ∧ parse (ledger.render ++ String.join [" storage", " ref"]) = ledger := by
  have hname {name : String} (hne : name.toList ≠ [])
      (hblank : name.toList.all (fun c => !isBlank c) = true)
      (hpunctuation : punctuation.all (fun c => !name.toList.contains c) = true)
      (hreserved : reservedBeginnings.all
        (fun word => !startsWith word.toList name.toList) = true) :
      (Ty.elementary name).IsComposed := by
    simp only [List.all_eq_true, Bool.not_eq_true', List.contains_eq_mem,
      decide_eq_false_iff_not] at hblank hpunctuation hreserved
    exact .elementary ⟨hne, hblank, hpunctuation, hreserved⟩
  have haddress : (Ty.elementary "address").IsComposed := hname (by simp) rfl rfl rfl
  have hbool : (Ty.elementary "bool").IsComposed := hname (by simp) rfl rfl rfl
  have hword : (Ty.elementary "uint256").IsComposed := hname (by simp) rfl rfl rfl
  have hledger : ledger.IsComposed := by
    refine .mapping haddress (.array (.tuple ?_) (by simp))
    simp only [List.forall_mem_cons, List.not_mem_nil, false_implies, implies_true, and_true]
    exact ⟨.array hword (by simp [maxWord]), hbool⟩
  exact ⟨hledger, parse_render_join hledger (by decide)⟩

end ContractCalls.Ty
