/-
# Data locations behind a type

A location is one or two words behind a type, each a space and letters.  The
parser takes locations off as long as one fits.  Whatever it takes off, what is
left is the type and fewer of its words; and while there is a word left, one of
the locations fits.  So in the end the type stands alone.
-/
import ContractCalls.Proofs.Text.Blank
import ContractCalls.Ty.Parser

namespace ContractCalls.Ty

open Text

/-- The words of locations, each behind a space. -/
def locationWords : List (List Char) :=
  [" memory", " calldata", " storage", " pointer", " ref"].map String.toList

/-- A word is a space and then letters. -/
theorem locationWord_cases {word : List Char} (h : word ∈ locationWords) :
    ∃ letters, word = ' ' :: letters ∧ letters ≠ [] ∧ ∀ c ∈ letters, isBlank c = false := by
  simp only [locationWords, List.map_cons, List.map_nil, List.mem_cons, List.not_mem_nil,
    or_false] at h
  rcases h with rfl | rfl | rfl | rfl | rfl
  · exact ⟨"memory".toList, rfl, by simp, by simp [isBlank]⟩
  · exact ⟨"calldata".toList, rfl, by simp, by simp [isBlank]⟩
  · exact ⟨"storage".toList, rfl, by simp, by simp [isBlank]⟩
  · exact ⟨"pointer".toList, rfl, by simp, by simp [isBlank]⟩
  · exact ⟨"ref".toList, rfl, by simp, by simp [isBlank]⟩

theorem locationWord_ne_nil {word : List Char} (h : word ∈ locationWords) : word ≠ [] := by
  obtain ⟨letters, rfl, -⟩ := locationWord_cases h
  simp

theorem length_le_flatten {words : List (List Char)}
    (h : ∀ word ∈ words, word ∈ locationWords) : words.length ≤ words.flatten.length := by
  induction words with
  | nil => rfl
  | cons word words ih =>
      rw [List.forall_mem_cons] at h
      have hpos := List.length_pos_of_ne_nil (locationWord_ne_nil h.1)
      have hrest := ih h.2
      rw [List.flatten_cons, List.length_append, List.length_cons]
      omega

/-- The last word of a text is one word only. -/
theorem locationWord_inj {front front' word word' : List Char} (hword : word ∈ locationWords)
    (hword' : word' ∈ locationWords) (h : front ++ word = front' ++ word') :
    front = front' ∧ word = word' := by
  -- A word that reached further would have a second space.
  have hstep : ∀ (mid word word' : List Char), word ∈ locationWords → word' ∈ locationWords →
      word' = mid ++ word → mid = [] := by
    intro mid word word' hword hword' heq
    obtain ⟨letters, rfl, -⟩ := locationWord_cases hword
    obtain ⟨letters', rfl, -, hletters'⟩ := locationWord_cases hword'
    cases mid with
    | nil => rfl
    | cons c mid =>
        rw [List.cons_append, List.cons.injEq] at heq
        have hspace := hletters' ' ' (by rw [heq.2]; simp)
        exact absurd hspace (by decide)
  rcases List.append_eq_append_iff.1 h with ⟨mid, rfl, hmid⟩ | ⟨mid, rfl, hmid⟩
  · obtain rfl := hstep mid word' word hword' hword hmid
    simpa using hmid
  · obtain rfl := hstep mid word word' hword hword' hmid
    simpa using hmid.symm

/-- Every location is made of words, and every word is a location. -/
theorem location_cases {location : List Char} (h : location ∈ locations) :
    ∃ words, words ≠ [] ∧ (∀ word ∈ words, word ∈ locationWords) ∧ location = words.flatten := by
  have hone : ∀ word ∈ locationWords, ∃ words, words ≠ [] ∧
      (∀ word ∈ words, word ∈ locationWords) ∧ word = words.flatten :=
    fun word hword => ⟨[word], by simp, by simpa using hword, by simp⟩
  have htwo : ∀ word ∈ locationWords, ∃ words, words ≠ [] ∧
      (∀ word ∈ words, word ∈ locationWords) ∧ " storage".toList ++ word = words.flatten :=
    fun word hword => ⟨[" storage".toList, word], by simp,
      by simpa [locationWords] using hword, by simp⟩
  simp only [locations, List.map_cons, List.map_nil, List.mem_cons, List.not_mem_nil,
    or_false] at h
  rcases h with rfl | rfl | rfl | rfl | rfl | rfl | rfl
  · exact htwo " ref".toList (by decide)
  · exact htwo " pointer".toList (by decide)
  all_goals exact hone _ (by decide)

theorem locationWords_subset : locationWords ⊆ locations := by decide

/-! ## Taking locations off -/

/-- A text that has nothing around it, no word of a location in particular. -/
structure IsBare (text : List Char) : Prop where
  ne_nil : text ≠ []
  trimmed : IsTrimmed text
  no_word : ∀ word ∈ locationWords, ∀ front, text ≠ front ++ word

namespace IsBare

variable {text : List Char} {words : List (List Char)}

/-- The words behind a text are no blanks. -/
theorem trimmed_append (h : IsBare text) (hwords : ∀ word ∈ words, word ∈ locationWords) :
    IsTrimmed (text ++ words.flatten) := by
  refine ⟨fun c hc => h.trimmed.first c (by rwa [List.head?_append_of_ne_nil _ h.ne_nil] at hc), ?_⟩
  intro c hc
  rcases List.eq_nil_or_concat words with rfl | ⟨front, word, rfl⟩
  · exact h.trimmed.last c (by simpa using hc)
  · obtain ⟨letters, rfl, hne, hletters⟩ := locationWord_cases (hwords word (by simp))
    rw [List.concat_eq_append, List.flatten_append, List.flatten_singleton, ← List.append_assoc,
      List.getLast?_append_of_ne_nil _ (by simp), List.getLast?_cons_of_ne_nil hne] at hc
    exact hletters c (List.mem_of_getLast? hc)

/-- Words at the end are the last words behind the text. -/
theorem eq_append_of_words (h : IsBare text) (hwords : ∀ word ∈ words, word ∈ locationWords)
    {ends : List (List Char)} (hends : ∀ word ∈ ends, word ∈ locationWords) {rest : List Char}
    (heq : text ++ words.flatten = rest ++ ends.flatten) :
    ∃ kept, rest = text ++ kept.flatten ∧ words = kept ++ ends := by
  induction ends using List.reverseRecOn generalizing words with
  | nil => exact ⟨words, by simpa using heq.symm, by simp⟩
  | append_singleton ends last ih =>
      have hlast := hends last (by simp)
      rw [List.flatten_append, List.flatten_singleton, ← List.append_assoc] at heq
      rcases List.eq_nil_or_concat words with rfl | ⟨front, word, rfl⟩
      · rw [List.flatten_nil, List.append_nil] at heq
        exact absurd heq (h.no_word last hlast _)
      · rw [List.concat_eq_append] at heq hwords ⊢
        rw [List.flatten_append, List.flatten_singleton, ← List.append_assoc] at heq
        obtain ⟨hfront, rfl⟩ := locationWord_inj (hwords word (by simp)) hlast heq
        obtain ⟨kept, hrest, rfl⟩ := ih (fun w hw => hwords w (List.mem_append_left _ hw))
          (fun w hw => hends w (List.mem_append_left _ hw)) hfront
        exact ⟨kept, hrest, by rw [List.append_assoc]⟩

/-- Taking one location off leaves the text and its first words; the last word goes if it is the
location. -/
theorem dropLocation (h : IsBare text) (hwords : ∀ word ∈ words, word ∈ locationWords)
    {location : List Char} (hlocation : location ∈ locations) :
    ∃ kept, dropLocation (text ++ words.flatten) location = text ++ kept.flatten ∧
      kept <+: words ∧ (words.getLast? = some location → kept ≠ words) := by
  obtain ⟨ends, hne, hends, hflatten⟩ := location_cases hlocation
  unfold Ty.dropLocation
  split
  · next rest hrest =>
      rw [stripEnd?_eq_some_iff, hflatten] at hrest
      obtain ⟨kept, rfl, rfl⟩ := h.eq_append_of_words hwords hends hrest
      have hkept : ∀ word ∈ kept, word ∈ locationWords :=
        fun word hword => hwords word (List.mem_append_left _ hword)
      refine ⟨kept, (h.trimmed_append hkept).trimRight, List.prefix_append kept ends, ?_⟩
      intro _ heq
      exact hne (List.append_right_eq_self.1 heq.symm)
  · next hnone =>
      refine ⟨words, rfl, List.prefix_rfl, fun hlast => ?_⟩
      obtain ⟨front, rfl⟩ := List.getLast?_eq_some_iff.1 hlast
      rw [List.flatten_append, List.flatten_singleton, ← List.append_assoc,
        stripEnd?_append] at hnone
      cases hnone

/-- A pass takes at least the last word off. -/
theorem dropPass (h : IsBare text) (hwords : ∀ word ∈ words, word ∈ locationWords) :
    ∃ kept, dropPass (text ++ words.flatten) = text ++ kept.flatten ∧ kept <+: words ∧
      (words ≠ [] → kept ≠ words) := by
  have hfold (passed : List (List Char)) (hpassed : passed ⊆ locations) :
      ∃ kept, passed.foldl Ty.dropLocation (text ++ words.flatten) = text ++ kept.flatten ∧
        kept <+: words ∧ (∀ word, words.getLast? = some word → word ∈ passed → kept ≠ words) := by
    induction passed using List.reverseRecOn with
    | nil => exact ⟨words, rfl, List.prefix_rfl, fun _ _ hmem => by cases hmem⟩
    | append_singleton passed location ih =>
        obtain ⟨kept, hkept, hbegins, hlast⟩ := ih fun l hl => hpassed (List.mem_append_left _ hl)
        have hkeptWords : ∀ word ∈ kept, word ∈ locationWords :=
          fun word hword => hwords word (hbegins.subset hword)
        obtain ⟨kept', hkept', hbegins', hlast'⟩ :=
          h.dropLocation hkeptWords (hpassed (by simp : location ∈ passed ++ [location]))
        refine ⟨kept', by rw [List.foldl_concat, hkept, hkept'], hbegins'.trans hbegins, ?_⟩
        rintro word hword hmem rfl
        -- Nothing went at this location, so nothing went before.
        obtain rfl := hbegins.eq_of_length_le hbegins'.length_le
        rcases List.mem_append.1 hmem with hbefore | hlocation
        · exact hlast word hword hbefore rfl
        · obtain rfl := List.mem_singleton.1 hlocation
          exact hlast' hword rfl
  obtain ⟨kept, hkept, hbegins, hlast⟩ := hfold locations (List.Subset.refl _)
  refine ⟨kept, hkept, hbegins, fun hne => ?_⟩
  have hgetLast := List.getLast?_eq_some_getLast hne
  exact hlast _ hgetLast (locationWords_subset (hwords _ (List.getLast_mem hne)))

/-- In the end the text stands alone. -/
theorem dropLocations (h : IsBare text) (hwords : ∀ word ∈ words, word ∈ locationWords) {fuel : Nat}
    (hfuel : words.length ≤ fuel) : dropLocations fuel (text ++ words.flatten) = text := by
  induction fuel generalizing words with
  | zero =>
      obtain rfl := List.length_eq_zero_iff.1 (Nat.le_zero.1 hfuel)
      simp [Ty.dropLocations]
  | succ fuel ih =>
      obtain ⟨kept, hkept, hbegins, hshorter⟩ := h.dropPass hwords
      have hkeptWords : ∀ word ∈ kept, word ∈ locationWords :=
        fun word hword => hwords word (hbegins.subset hword)
      rw [Ty.dropLocations, hkept]
      obtain ⟨gone, rfl⟩ := hbegins
      cases gone with
      | nil =>
          have hnil : kept = [] := by
            by_contra hne
            exact hshorter (by simpa using hne) (by simp)
          simp [hnil]
      | cons word gone =>
          have hne : text ++ kept.flatten ≠ text ++ (kept ++ word :: gone).flatten := by
            intro heq
            rw [List.append_cancel_left_eq, List.flatten_append, eq_comm,
              List.append_right_eq_self, List.flatten_cons] at heq
            exact locationWord_ne_nil (hwords word (by simp)) (List.append_eq_nil_iff.1 heq).1
          rw [if_neg hne]
          refine ih hkeptWords ?_
          rw [List.length_append, List.length_cons] at hfuel
          omega

theorem isEmpty_append (h : IsBare text) (rest : List Char) : (text ++ rest).isEmpty = false := by
  cases text with
  | nil => exact absurd rfl h.ne_nil
  | cons => rfl

theorem isEmpty (h : IsBare text) : text.isEmpty = false := by
  have hempty := h.isEmpty_append []
  rwa [List.append_nil] at hempty

/-- A text that stands alone stays. -/
theorem dropLocations_self (h : IsBare text) : Ty.dropLocations text.length text = text := by
  have hnone : ∀ word ∈ ([] : List (List Char)), word ∈ locationWords := by simp
  have halone := h.dropLocations hnone (Nat.zero_le text.length)
  rwa [List.flatten_nil, List.append_nil] at halone

/-- Locations behind a type do not change what is parsed. -/
theorem parseWith_append (h : IsBare text) (hwords : ∀ word ∈ words, word ∈ locationWords)
    (fuel : Nat) : parseWith fuel (text ++ words.flatten) = parseWith fuel text := by
  cases fuel with
  | zero => rfl
  | succ fuel =>
      have hlength : words.length ≤ (text ++ words.flatten).length := by
        rw [List.length_append]
        exact (length_le_flatten hwords).trans (Nat.le_add_left _ _)
      rw [parseWith, parseWith, (h.trimmed_append hwords).trim, h.trimmed.trim,
        h.dropLocations hwords hlength, h.dropLocations_self, h.isEmpty_append, h.isEmpty]

end IsBare

end ContractCalls.Ty
