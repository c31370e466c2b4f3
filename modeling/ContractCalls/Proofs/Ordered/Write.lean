/-
# Values by key

A list of pairs with ascending keys holds one value for each key.  Writes set a
value, or give one to a key that has none.  Where the writes of a key agree
among those of one sort, it does not matter in which order they are made: the
value that was set stands, or else the one that was given.
-/
import ContractCalls.Proofs.Ordered
import Mathlib.Data.List.Induction

namespace ContractCalls.Ordered

variable {α β : Type}

/-! ## Values by key -/

/-- The order of pairs by their keys. -/
def byKey [Ord β] : Comparison (β × α) := comparing Prod.fst

section Keys

variable [Ord β] [Std.TransOrd β] [Std.LawfulEqOrd β] {key k : β} {value v : α} {xs : List (β × α)}

omit [Std.LawfulEqOrd β] in
instance transCmp_byKey : Std.TransCmp (byKey (α := α) (β := β)) :=
  inferInstanceAs (Std.TransCmp (comparing Prod.fst))

omit [Std.LawfulEqOrd β] in
/-- A key in front of the first is none of the keys. -/
theorem not_mem_of_lt {x : β × α} (h : Ascending byKey (x :: xs)) (hlt : compare key x.1 = .lt) :
    (key, v) ∉ x :: xs := by
  have hself : compare key key = .eq := Std.ReflCmp.compare_self
  intro hmem
  rcases List.mem_cons.1 hmem with rfl | hmem
  · rw [hself] at hlt
    cases hlt
  · have hafter : compare x.1 key = .lt := (List.pairwise_cons.1 h).1 _ hmem
    rw [Std.TransCmp.lt_trans hlt hafter] at hself
    cases hself

omit [Std.LawfulEqOrd β] in
theorem nodup_keys (h : Ascending byKey xs) : (xs.map Prod.fst).Nodup := by
  refine List.pairwise_map.2 (h.imp fun {x y} hlt heq => ?_)
  have hself : compare y.1 y.1 = .eq := Std.ReflCmp.compare_self
  have hfirst : compare x.1 y.1 = .lt := hlt
  rw [heq, hself] at hfirst
  cases hfirst

theorem mem_put (h : Ascending byKey xs) :
    (k, v) ∈ put key value xs ↔ k = key ∧ v = value ∨ k ≠ key ∧ (k, v) ∈ xs := by
  induction xs with
  | nil => simp [put]
  | cons x xs ih =>
      obtain ⟨k', v'⟩ := x
      have htail := (List.pairwise_cons.1 h).2
      unfold put
      split
      · next hlt =>
          have hnot : k = key → (k, v) ∉ (k', v') :: xs := fun hk => hk ▸ not_mem_of_lt h hlt
          rw [List.mem_cons, Prod.mk.injEq]
          tauto
      · next heq =>
          obtain rfl := Std.LawfulEqOrd.eq_of_compare heq
          have hnot : k = key → (k, v) ∉ xs := by
            rintro rfl hmem
            have hself : compare k k = .lt := (List.pairwise_cons.1 h).1 _ hmem
            rw [heq] at hself
            cases hself
          simp only [List.mem_cons, Prod.mk.injEq]
          tauto
      · next hgt =>
          have hne : k' ≠ key := by
            rintro rfl
            have hself : compare k' k' = .eq := Std.ReflCmp.compare_self
            rw [hgt] at hself
            cases hself
          have hfirst : k = k' → k ≠ key := fun hk => hk ▸ hne
          simp only [List.mem_cons, Prod.mk.injEq, ih htail]
          tauto

theorem mem_putNew (h : Ascending byKey xs) : (k, v) ∈ putNew key value xs ↔
    (k, v) ∈ xs ∨ (k = key ∧ v = value) ∧ ∀ v', (key, v') ∉ xs := by
  induction xs with
  | nil => simp [putNew]
  | cons x xs ih =>
      obtain ⟨k', v'⟩ := x
      have htail := (List.pairwise_cons.1 h).2
      unfold putNew
      split
      · next hlt =>
          have hnot : ∀ w, (key, w) ∉ (k', v') :: xs := fun w => not_mem_of_lt h hlt
          rw [List.mem_cons, Prod.mk.injEq]
          tauto
      · next heq =>
          obtain rfl := Std.LawfulEqOrd.eq_of_compare heq
          have hthere : ¬ ∀ w, (key, w) ∉ (key, v') :: xs := fun hw => hw v' List.mem_cons_self
          tauto
      · next hgt =>
          have hne : key ≠ k' := by
            rintro rfl
            have hself : compare key key = .eq := Std.ReflCmp.compare_self
            rw [hgt] at hself
            cases hself
          simp only [List.mem_cons, Prod.mk.injEq, ih htail, hne, false_and, false_or]
          tauto

omit [Std.LawfulEqOrd β] in
/-- A smaller key goes in front. -/
theorem Ascending.cons_lt {x y : β × α} (h : Ascending byKey (y :: xs)) (hlt : byKey x y = .lt) :
    Ascending byKey (x :: y :: xs) := by
  refine List.pairwise_cons.2 ⟨fun p hp => ?_, h⟩
  rcases List.mem_cons.1 hp with rfl | hp
  · exact hlt
  · exact Std.TransCmp.lt_trans hlt ((List.pairwise_cons.1 h).1 p hp)

theorem Ascending.put (h : Ascending byKey xs) (key : β) (value : α) :
    Ascending byKey (put key value xs) := by
  induction xs with
  | nil => exact List.pairwise_singleton _ _
  | cons x xs ih =>
      obtain ⟨k', v'⟩ := x
      obtain ⟨hfirst, htail⟩ := List.pairwise_cons.1 h
      unfold Ordered.put
      split
      · next hlt => exact h.cons_lt hlt
      · exact List.pairwise_cons.2 ⟨hfirst, htail⟩
      · next hgt =>
          refine List.pairwise_cons.2 ⟨?_, ih htail⟩
          rintro ⟨k, v⟩ hp
          rcases (mem_put htail).1 hp with ⟨rfl, -⟩ | ⟨-, hp⟩
          · exact Std.OrientedCmp.lt_of_gt hgt
          · exact hfirst _ hp

theorem Ascending.putNew (h : Ascending byKey xs) (key : β) (value : α) :
    Ascending byKey (putNew key value xs) := by
  induction xs with
  | nil => exact List.pairwise_singleton _ _
  | cons x xs ih =>
      obtain ⟨k', v'⟩ := x
      obtain ⟨hfirst, htail⟩ := List.pairwise_cons.1 h
      unfold Ordered.putNew
      split
      · next hlt => exact h.cons_lt hlt
      · exact h
      · next hgt =>
          refine List.pairwise_cons.2 ⟨?_, ih htail⟩
          rintro ⟨k, v⟩ hp
          rcases (mem_putNew htail).1 hp with hp | ⟨⟨rfl, -⟩, -⟩
          · exact hfirst _ hp
          · exact Std.OrientedCmp.lt_of_gt hgt

/-! ## Sequences of writes -/

/-- A value is set, or given to a key that has none. -/
inductive Write (β α : Type) where
  | put (key : β) (value : α)
  | putNew (key : β) (value : α)

/-- What a write makes of a list of pairs. -/
def Write.perform (xs : List (β × α)) : Write β α → List (β × α)
  | .put key value => Ordered.put key value xs
  | .putNew key value => Ordered.putNew key value xs

theorem ascending_foldl_perform (writes : List (Write β α)) :
    Ascending byKey (writes.foldl Write.perform []) := by
  induction writes using List.reverseRecOn with
  | nil => exact List.Pairwise.nil
  | append_singleton writes w ih =>
      rw [List.foldl_append]
      cases w with
      | put key value => exact ih.put key value
      | putNew key value => exact ih.putNew key value

/-- Every value there was written. -/
theorem written_of_mem {writes : List (Write β α)} (h : (k, v) ∈ writes.foldl Write.perform []) :
    .put k v ∈ writes ∨ .putNew k v ∈ writes := by
  induction writes using List.reverseRecOn with
  | nil => cases h
  | append_singleton writes w ih =>
      have hasc := ascending_foldl_perform writes
      have hold (h : (k, v) ∈ writes.foldl Write.perform []) :
          .put k v ∈ writes ++ [w] ∨ .putNew k v ∈ writes ++ [w] :=
        (ih h).imp (List.mem_append_left _) (List.mem_append_left _)
      rw [List.foldl_append] at h
      cases w with
      | put key value =>
          rcases (mem_put hasc).1 h with ⟨rfl, rfl⟩ | ⟨-, h⟩
          · exact .inl (List.mem_append_right _ (List.mem_singleton_self _))
          · exact hold h
      | putNew key value =>
          rcases (mem_putNew hasc).1 h with h | ⟨⟨rfl, rfl⟩, -⟩
          · exact hold h
          · exact .inr (List.mem_append_right _ (List.mem_singleton_self _))

/-- Every key that was written has a value. -/
theorem exists_value {writes : List (Write β α)} (h : .put k v ∈ writes ∨ .putNew k v ∈ writes) :
    ∃ v', (k, v') ∈ writes.foldl Write.perform [] := by
  induction writes using List.reverseRecOn with
  | nil => simp at h
  | append_singleton writes w ih =>
      have hasc := ascending_foldl_perform writes
      rw [List.foldl_append]
      have hkept (hthere : ∃ v', (k, v') ∈ writes.foldl Write.perform []) :
          ∃ v', (k, v') ∈ Write.perform (writes.foldl Write.perform []) w := by
        obtain ⟨v', hv'⟩ := hthere
        cases w with
        | put key value =>
            by_cases hk : k = key
            · exact ⟨value, (mem_put hasc).2 (.inl ⟨hk, rfl⟩)⟩
            · exact ⟨v', (mem_put hasc).2 (.inr ⟨hk, hv'⟩)⟩
        | putNew key value => exact ⟨v', (mem_putNew hasc).2 (.inl hv')⟩
      simp only [List.mem_append, List.mem_singleton] at h
      rcases h with (h | rfl) | (h | rfl)
      · exact hkept (ih (.inl h))
      · exact ⟨v, (mem_put hasc).2 (.inl ⟨rfl, rfl⟩)⟩
      · exact hkept (ih (.inr h))
      · by_cases hthere : ∃ v', (k, v') ∈ writes.foldl Write.perform []
        · exact hkept hthere
        · exact ⟨v, (mem_putNew hasc).2 (.inr ⟨⟨rfl, rfl⟩, fun v' hv' => hthere ⟨v', hv'⟩⟩)⟩

/-- Where writes agree, it does not matter when they are made: the value that was set for a key, or
else the one that was given to it. -/
theorem mem_foldl_perform {writes : List (Write β α)}
    (hput : ∀ {k v v'}, .put k v ∈ writes → .put k v' ∈ writes → v = v')
    (hnew : ∀ {k v v'}, .putNew k v ∈ writes → .putNew k v' ∈ writes → v = v') :
    (k, v) ∈ writes.foldl Write.perform [] ↔
      .put k v ∈ writes ∨ .putNew k v ∈ writes ∧ ∀ v', .put k v' ∉ writes := by
  induction writes using List.reverseRecOn generalizing k v with
  | nil => simp
  | append_singleton writes w ih =>
      have hasc := ascending_foldl_perform writes
      have ih {k : β} {v : α} := ih (k := k) (v := v)
        (fun h h' => hput (List.mem_append_left _ h) (List.mem_append_left _ h'))
        (fun h h' => hnew (List.mem_append_left _ h) (List.mem_append_left _ h'))
      rw [List.foldl_append]
      cases w with
      | put key value =>
          have hset : .put key value ∈ writes ++ [.put key value] := by simp
          show (k, v) ∈ Ordered.put key value _ ↔ _
          rw [mem_put hasc, ih]
          by_cases hk : k = key
          · subst hk
            constructor
            · rintro (⟨-, rfl⟩ | ⟨hne, -⟩)
              · exact .inl hset
              · exact absurd rfl hne
            · rintro (h | ⟨-, hnone⟩)
              · exact .inl ⟨rfl, hput h hset⟩
              · exact absurd hset (hnone value)
          · simp [hk]
      | putNew key value =>
          have hsame {w : α} : .putNew key w ∈ writes → w = value := fun h =>
            hnew (List.mem_append_left _ h) (List.mem_append_right _ (List.mem_singleton_self _))
          show (k, v) ∈ Ordered.putNew key value _ ↔ _
          rw [mem_putNew hasc, ih]
          simp only [ih, not_or, not_and, List.mem_append, List.mem_singleton, reduceCtorEq,
            or_false, Write.putNew.injEq]
          constructor
          · rintro (h | ⟨⟨rfl, rfl⟩, hnone⟩)
            · tauto
            · exact .inr ⟨.inr ⟨rfl, rfl⟩, fun v' => (hnone v').1⟩
          · rintro (h | ⟨h | ⟨rfl, rfl⟩, hnone⟩)
            · exact .inl (.inl h)
            · exact .inl (.inr ⟨h, hnone⟩)
            · by_cases hthere : .putNew k v ∈ writes
              · exact .inl (.inr ⟨hthere, hnone⟩)
              · refine .inr ⟨⟨rfl, rfl⟩, fun v' => ⟨hnone v', fun h => ?_⟩⟩
                exact absurd (hsame h ▸ h) hthere

end Keys

end ContractCalls.Ordered
